import Redactor.Redact.Cursor
import Redactor.Replace.Room

/-!
# Texts without a marker

A text that has no marker of its own has none between its findings either, and
a fresh redaction has room for all findings of a text.
-/

namespace Redactor

open Utf8 Fallible

theorem infix_of_slice? {text middle : Text} {start finish : Nat}
    (sliced : slice? text start finish = some middle) : middle <:+: text := by
  obtain ⟨left, right, shape, _⟩ := slice?_eq_some.mp sliced
  exact ⟨left, right, shape.symm⟩

theorem MarkerFree.of_slice? {text middle : Text} {start finish : Nat}
    (markerFree : MarkerFree text)
    (sliced : slice? text start finish = some middle) : MarkerFree middle :=
  fun inside => markerFree (inside.trans (infix_of_slice? sliced))

/-- The findings of a redaction that ended are placed in a text that has no
marker. -/
theorem placed_of_redactFrom {runtime : Runtime} {text output : Text}
    {processor after : ReplacementProcessor} {cursor : Nat}
    {findings : List Finding} (markerFree : MarkerFree text)
    (inText : ∀ finding ∈ findings, finding.InText text)
    (done :
      ReplacementProcessor.redactFrom runtime text processor cursor
        findings = some (after, output)) :
    Placed text cursor findings := by
  induction findings generalizing processor cursor output with
  | nil =>
      obtain ⟨_, sliced⟩ :=
        ReplacementProcessor.redactFrom_nil_eq_some.mp done
      exact ⟨output, sliced, markerFree.of_slice? sliced⟩
  | cons finding findings inductionHypothesis =>
      obtain ⟨gap, next, token, hint, rest, sliced, _, later, _⟩ :=
        ReplacementProcessor.redactFrom_cons_eq_some.mp done
      refine ⟨⟨gap, sliced, markerFree.of_slice? sliced⟩,
        inText finding List.mem_cons_self, ?_⟩
      exact inductionHypothesis
        (fun other member =>
          inText other (List.mem_cons_of_mem finding member))
        later

/-- The text of a redaction that ended, with its findings. -/
theorem Redacted.placed {environment : Environment}
    {redactor : RedactorInstance} {request : RedactionRequest} {text : Text}
    {artifact : RedactorInstance.RedactionArtifact}
    (redacted : Redacted environment redactor request text artifact)
    (markerFree : MarkerFree text) :
    ({ text, findings := artifact.result.findings } : Fragment).Placed := by
  have replaced := redacted.replaced
  rw [← redacted.findings] at replaced
  refine placed_of_redactFrom markerFree ?_ replaced
  intro finding member
  rw [redacted.findings] at member
  exact (confined_detected redacted.detected finding member).inText

theorem countKey_le_length (key : FindingKind × Text)
    (findings : List Finding) :
    countKey key findings ≤ findings.length := by
  induction findings with
  | nil =>
      exact Nat.le_refl 0
  | cons finding findings inductionHypothesis =>
      rw [countKey_cons, List.length_cons]
      split <;> omega

/-- No number of a fresh state reaches its limit over findings that a machine
can count. -/
theorem staysBelowLimit_fresh {runtime : Runtime} {findings : List Finding}
    (counted : findings.length ≤ unsignedMax) (scopeId : Text)
    (externalId : Option Text) :
    StaysBelowLimit runtime { scopeId, externalId } findings := by
  have counters (kind : FindingKind) :
      ({ scopeId, externalId } : SessionState).counter kind = 0 := rfl
  have allocations (key : FindingKind × Text) :
      ({ scopeId, externalId } : SessionState).allocation? key = none :=
    Std.TreeMap.getElem?_emptyc
  rw [staysBelowLimit_iff_hasRoom fun kind => by simp [counters kind]]
  constructor
  · intro finding _
    simp only [SessionState.occurrences, allocations]
    have bounded := countKey_le_length finding.key findings
    simp only [Option.map_none, Option.getD_none, Nat.zero_add]
    omega
  · intro kind
    have keys :
        (SessionState.newKeys { scopeId, externalId } findings kind).card ≤
          (findings.map Finding.key).toFinset.card :=
      Finset.card_le_card (Finset.filter_subset _ _)
    have sizes := (findings.map Finding.key).toFinset_card_le
    rw [List.length_map] at sizes
    rw [counters kind]
    omega

end Redactor
