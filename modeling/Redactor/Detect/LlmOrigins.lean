import Redactor.Detect.Llm

/-!
# Where the findings of a language model come from

Every finding of the model is a value that it has named, at one of the
positions that were collected for this value.
-/

namespace Redactor

open Utf8 Fallible

theorem findNextUnoccupiedMatch_findings {value : Text}
    {matchPositions : List (Text × List Nat)}
    {progress : CandidateProgress} :
    (findNextUnoccupiedMatch value matchPositions progress).2.findings =
      progress.findings := by
  unfold findNextUnoccupiedMatch
  split <;> rfl

theorem mem_of_nextUnoccupied {length index start used : Nat}
    {occupied : List (Nat × Nat)} {positions : List Nat}
    (chosen :
      nextUnoccupied length occupied index positions = (some start, used)) :
    start ∈ positions := by
  induction positions generalizing index with
  | nil =>
      cases chosen
  | cons first rest inductionHypothesis =>
      unfold nextUnoccupied at chosen
      split at chosen
      · cases chosen
        exact List.mem_cons_self
      · exact List.mem_cons_of_mem first (inductionHypothesis chosen)

/-- The match is at a position of the value. -/
theorem exists_lookup_of_match {value : Text}
    {matchPositions : List (Text × List Nat)}
    {progress after : CandidateProgress} {start : Nat}
    (chosen :
      findNextUnoccupiedMatch value matchPositions progress =
        (some start, after)) :
    ∃ places, matchPositions.lookup value = some places ∧
      start ∈ places := by
  unfold findNextUnoccupiedMatch at chosen
  cases known : matchPositions.lookup value with
  | none =>
      simp [known] at chosen
  | some places =>
      simp only [known, Prod.mk.injEq] at chosen
      have left := mem_of_nextUnoccupied (Prod.ext chosen.1 rfl)
      exact ⟨places, rfl, List.mem_of_mem_drop left⟩

/-- The finding of a candidate at a position of its value. -/
inductive LlmOrigin (rules : RedactionRules)
    (matchPositions : List (Text × List Nat)) : Finding → Prop
  | named (candidate : Candidate) (kind : FindingKind) (places : List Nat)
      (start : Nat) :
      mapKind candidate.kind rules = some kind →
      matchPositions.lookup candidate.value = some places →
      start ∈ places →
      LlmOrigin rules matchPositions (llmFinding kind candidate start)

theorem origin_takeCandidate {rules : RedactionRules}
    {matchPositions : List (Text × List Nat)}
    {progress : CandidateProgress} {candidate : Candidate}
    (before :
      ∀ finding ∈ progress.findings, LlmOrigin rules matchPositions finding) :
    ∀ finding ∈
        (takeCandidate rules matchPositions progress candidate).findings,
      LlmOrigin rules matchPositions finding := by
  intro finding member
  have unchanged :=
    @findNextUnoccupiedMatch_findings candidate.value matchPositions progress
  unfold takeCandidate at member
  cases mapped : mapKind candidate.kind rules with
  | none =>
      simp only [mapped] at member
      exact before finding member
  | some kind =>
      simp only [mapped] at member
      rcases chosen :
          findNextUnoccupiedMatch candidate.value matchPositions progress with
        ⟨start, after⟩
      rw [chosen] at unchanged
      simp only at unchanged
      cases start with
      | none =>
          simp only [chosen, unchanged] at member
          exact before finding member
      | some start =>
          simp only [chosen, unchanged] at member
          rcases List.mem_append.mp member with earlier | new
          · exact before finding earlier
          · obtain ⟨places, known, listed⟩ := exists_lookup_of_match chosen
            rw [List.mem_singleton.mp new]
            exact .named candidate kind places start mapped known listed

theorem origin_parseCandidates {text : Text} {candidates : List Candidate}
    {rules : RedactionRules} {findings : List Finding}
    (parsed : parseCandidates text candidates rules = some findings) :
    ∃ matchPositions,
      buildMatchPositions text (candidates.map Candidate.value) =
        some matchPositions ∧
      ∀ finding ∈ findings, LlmOrigin rules matchPositions finding := by
  obtain ⟨matchPositions, built, last⟩ := Option.bind_eq_some_iff.mp parsed
  cases last
  refine ⟨matchPositions, built, ?_⟩
  let invariant (progress : CandidateProgress) : Prop :=
    ∀ finding ∈ progress.findings, LlmOrigin rules matchPositions finding
  apply foldl_invariant invariant
  · intro progress candidate before
    exact origin_takeCandidate before
  · simp [invariant]

/-- What the model finds is among its parsed candidates, in a range. -/
theorem exists_parsed_of_discovered
    {response : Except Text (List Candidate)} {text : Text}
    {rules : RedactionRules} {ranges : List RedactableRange}
    {findings : List Finding}
    (discovered :
      discoverCandidates response text rules ranges = some (.ok findings))
    {finding : Finding} (member : finding ∈ findings) :
    ∃ candidates parsed,
      parseCandidates text candidates rules = some parsed ∧
      finding ∈ parsed ∧
      ∃ range ∈ ranges,
        range.start ≤ finding.start ∧ finding.finish ≤ range.finish := by
  unfold discoverCandidates at discovered
  split at discovered
  · cases discovered
    cases member
  · cases response with
    | error message =>
        cases discovered
    | ok candidates =>
        obtain ⟨parsed, parsing, last⟩ :=
          Option.bind_eq_some_iff.mp discovered
        cases last
        obtain ⟨found, inside⟩ := List.mem_filter.mp member
        obtain ⟨range, listed, bounds⟩ := List.any_eq_true.mp inside
        simp only [Bool.and_eq_true, decide_eq_true_eq] at bounds
        exact ⟨candidates, parsed, parsing, found, range, listed, bounds⟩

theorem lookup_foldlM {text : Text} {values : List Text}
    {before positions : List (Text × List Nat)}
    (built :
      values.foldlM
          (fun positions value =>
            if value.isEmpty || (positions.lookup value).isSome then
              some positions
            else do
              let found ← collectMatchPositions text value
              some ((value, found) :: positions))
          before =
        some positions)
    (collected :
      ∀ value places, before.lookup value = some places →
        value ≠ [] ∧ collectMatchPositions text value = some places) :
    ∀ value places, positions.lookup value = some places →
      value ≠ [] ∧ collectMatchPositions text value = some places := by
  induction values generalizing before with
  | nil =>
      cases built
      exact collected
  | cons value values inductionHypothesis =>
      rw [List.foldlM_cons] at built
      obtain ⟨middle, first, rest⟩ := Option.bind_eq_some_iff.mp built
      apply inductionHypothesis rest
      split at first
      · cases first
        exact collected
      · rename_i fresh
        obtain ⟨found, here, last⟩ := Option.bind_eq_some_iff.mp first
        cases last
        intro other places known
        rw [List.lookup_cons] at known
        split at known
        · rename_i same
          cases known
          rw [beq_iff_eq.mp same]
          refine ⟨?_, here⟩
          intro empty
          exact fresh (by simp [empty])
        · exact collected other places known

/-- Positions are those of a value that is not empty. -/
theorem lookup_build {text : Text} {values : List Text}
    {positions : List (Text × List Nat)}
    (built : buildMatchPositions text values = some positions)
    {value : Text} {places : List Nat}
    (known : positions.lookup value = some places) :
    value ≠ [] ∧ collectMatchPositions text value = some places :=
  lookup_foldlM built (by intro value places known; simp at known) value
    places known

end Redactor
