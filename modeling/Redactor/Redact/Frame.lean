import Redactor.Detect.Placement
import Redactor.Redact.Artifact
import Redactor.Replace.Rounds

/-!
# What a redaction leaves unchanged

The bytes outside the redactable ranges stand in the redacted text as they do
in the text, between what has become of the ranges.
-/

namespace Redactor

open Utf8 Fallible

/-- The parts of the text from byte `cursor` on that are outside the ranges. -/
def outsideFrom (text : Text) : Nat → List RedactableRange → List Text
  | cursor, [] => [slice text cursor (byteLen text)]
  | cursor, range :: ranges =>
      slice text cursor range.start :: outsideFrom text range.finish ranges

def outside (text : Text) (ranges : List RedactableRange) : List Text :=
  outsideFrom text 0 ranges

/-- Parts between others, in turn. -/
def interleave : List Text → List Text → Text
  | gap :: gaps, part :: parts => gap ++ (part ++ interleave gaps parts)
  | gaps, [] => gaps.flatten
  | [], parts => parts.flatten

/-- The ranges from byte `cursor` on can be cut out of the text one after the
other. -/
structure RangesFrom (text : Text) (cursor : Nat)
    (ranges : List RedactableRange) : Prop where
  boundary : IsCharBoundary text cursor
  within : ∀ range ∈ ranges, range.In text
  begun : ∀ range ∈ ranges, cursor ≤ range.start
  follow : ranges.Pairwise RedactableRange.Precedes

namespace RangesFrom

variable {text : Text} {cursor : Nat} {range : RedactableRange}
  {ranges : List RedactableRange}

theorem tail (ordered : RangesFrom text cursor (range :: ranges)) :
    RangesFrom text range.finish ranges where
  boundary := (ordered.within range List.mem_cons_self).finish
  within := fun other member =>
    ordered.within other (List.mem_cons_of_mem range member)
  begun := fun other member =>
    ((List.pairwise_cons.mp ordered.follow).1 other member).2
  follow := (List.pairwise_cons.mp ordered.follow).2

theorem gap (ordered : RangesFrom text cursor (range :: ranges)) :
    slice? text cursor range.start =
      some (slice text cursor range.start) :=
  slice?_of_boundaries ordered.boundary
    (ordered.within range List.mem_cons_self).start
    (ordered.begun range List.mem_cons_self)

theorem rest (ordered : RangesFrom text cursor ranges) :
    slice? text cursor (byteLen text) =
      some (slice text cursor (byteLen text)) :=
  slice?_of_boundaries ordered.boundary (isCharBoundary_byteLen text)
    ordered.boundary.le_byteLen

/-- The text is made of its ranges and of what is between them. -/
theorem interleave_slices (ordered : RangesFrom text cursor ranges) :
    slice text cursor (byteLen text) =
      interleave (outsideFrom text cursor ranges)
        (ranges.map fun range => slice text range.start range.finish) := by
  induction ranges generalizing cursor with
  | nil =>
      simp [outsideFrom, interleave]
  | cons range ranges inductionHypothesis =>
      have inner := (ordered.within range List.mem_cons_self).sliced
      have joined :=
        slice?_append ordered.gap (slice?_append inner ordered.tail.rest)
      have whole := (cut_of_slice? joined).sliced
      rw [whole, inductionHypothesis ordered.tail]
      rfl

end RangesFrom

theorem rangesFrom_redactableRanges (text : Text) (inputKind : InputKind)
    (sourcePath : Option Text) :
    RangesFrom text 0 (redactableRanges text inputKind sourcePath) where
  boundary := isCharBoundary_zero text
  within := redactableRanges_in
  begun := fun _ _ => Nat.zero_le _
  follow := redactableRanges_pairwise

namespace ReplacementProcessor

variable {runtime : Runtime} {processor after : ReplacementProcessor}
  {text output : Text} {cursor : Nat}

/-- The loop does not go back. -/
theorem le_start_of_redactFrom {findings : List Finding}
    (forward : ∀ finding ∈ findings, finding.start ≤ finding.finish)
    (done :
      redactFrom runtime text processor cursor findings =
        some (after, output)) :
    ∀ finding ∈ findings, cursor ≤ finding.start := by
  induction findings generalizing processor cursor output with
  | nil =>
      simp
  | cons first findings inductionHypothesis =>
      obtain ⟨gap, next, token, hint, rest, sliced, _, later, _⟩ :=
        redactFrom_cons_eq_some.mp done
      have begun := (cut_of_slice? sliced).ordered
      intro finding member
      rcases List.mem_cons.mp member with here | further
      · rw [here]
        exact begun
      · have further :=
          inductionHypothesis
            (fun other listed =>
              forward other (List.mem_cons_of_mem first listed))
            later finding further
        have ended := forward first List.mem_cons_self
        omega

/-- Up to a byte that no finding begins before, the text is copied. -/
theorem redactFrom_copies {findings : List Finding} {bound : Nat}
    (boundary : IsCharBoundary text bound) (reached : cursor ≤ bound)
    (begun : ∀ finding ∈ findings, bound ≤ finding.start)
    (done :
      redactFrom runtime text processor cursor findings =
        some (after, output)) :
    ∃ rest,
      output = slice text cursor bound ++ rest ∧
      redactFrom runtime text processor bound findings =
        some (after, rest) := by
  cases findings with
  | nil =>
      obtain ⟨same, sliced⟩ := redactFrom_nil_eq_some.mp done
      have cut := cut_of_slice? sliced
      have front := slice?_of_boundaries cut.atStart boundary reached
      have back :=
        slice?_of_boundaries boundary cut.atFinish boundary.le_byteLen
      have joined := slice?_append front back
      rw [sliced] at joined
      exact ⟨_, Option.some.inj joined,
        redactFrom_nil_eq_some.mpr ⟨same, back⟩⟩
  | cons finding findings =>
      obtain ⟨gap, next, token, hint, rest, sliced, step, later, shape⟩ :=
        redactFrom_cons_eq_some.mp done
      have cut := cut_of_slice? sliced
      have first := begun finding List.mem_cons_self
      have front := slice?_of_boundaries cut.atStart boundary reached
      have back := slice?_of_boundaries boundary cut.atFinish first
      have joined := slice?_append front back
      rw [sliced] at joined
      refine ⟨slice text bound finding.start ++ (token ++ rest), ?_, ?_⟩
      · rw [shape, Option.some.inj joined, List.append_assoc]
      · exact redactFrom_cons_eq_some.mpr
          ⟨_, next, token, hint, rest, back, step, later, rfl⟩

/-- The loop over some findings and then over others. -/
theorem redactFrom_append {first second : List Finding} {bound : Nat}
    (reached : cursor ≤ bound)
    (ended : ∀ finding ∈ first, finding.finish ≤ bound)
    (done :
      redactFrom runtime text processor cursor (first ++ second) =
        some (after, output)) :
    ∃ front middle between rest,
      output = front ++ rest ∧ between ≤ bound ∧
      redactFrom runtime text middle between second = some (after, rest) := by
  induction first generalizing processor cursor output with
  | nil =>
      exact ⟨[], processor, cursor, output, rfl, reached, done⟩
  | cons finding first inductionHypothesis =>
      obtain ⟨gap, next, token, hint, rest, _, _, later, shape⟩ :=
        redactFrom_cons_eq_some.mp done
      obtain ⟨front, middle, between, remaining, parts, within, continued⟩ :=
        inductionHypothesis (ended finding List.mem_cons_self)
          (fun other member =>
            ended other (List.mem_cons_of_mem finding member))
          later
      exact ⟨gap ++ (token ++ front), middle, between, remaining,
        by rw [shape, parts]; simp only [List.append_assoc], within,
        continued⟩

/-- The findings of a list in the order of the text that end in the first part
of it, and those behind. -/
theorem exists_split_at (findings : List Finding) (bound : Nat) :
    ∃ first second,
      findings = first ++ second ∧
      (∀ finding ∈ first, finding.finish ≤ bound) ∧
      ∀ finding, second.head? = some finding → bound < finding.finish := by
  induction findings with
  | nil =>
      exact ⟨[], [], rfl, by simp, by simp⟩
  | cons finding findings inductionHypothesis =>
      by_cases inside : finding.finish ≤ bound
      · obtain ⟨first, second, shape, ended, beyond⟩ := inductionHypothesis
        refine ⟨finding :: first, second, by rw [shape]; rfl, ?_, beyond⟩
        intro other member
        rcases List.mem_cons.mp member with here | later
        · rw [here]
          exact inside
        · exact ended other later
      · refine ⟨[], finding :: findings, rfl, by simp, ?_⟩
        intro other head
        cases head
        omega

/-- Where the first finding ends behind a byte, all findings do. -/
theorem finish_behind_of_redactFrom {findings : List Finding} {bound : Nat}
    (forward : ∀ finding ∈ findings, finding.start ≤ finding.finish)
    (beyond :
      ∀ finding, findings.head? = some finding → bound < finding.finish)
    (done :
      redactFrom runtime text processor cursor findings =
        some (after, output)) :
    ∀ finding ∈ findings, bound < finding.finish := by
  cases findings with
  | nil =>
      simp
  | cons first rest =>
      have past := beyond first rfl
      obtain ⟨_, next, token, hint, remaining, _, _, later, _⟩ :=
        redactFrom_cons_eq_some.mp done
      have follows :=
        le_start_of_redactFrom
          (fun other listed => forward other (List.mem_cons_of_mem _ listed))
          later
      intro finding member
      rcases List.mem_cons.mp member with here | further
      · rw [here]
        exact past
      · have begun := follows finding further
        have proper := forward finding member
        omega

/-- Only the ranges change. -/
theorem redactFrom_frame {findings : List Finding}
    {ranges : List RedactableRange}
    (ordered : RangesFrom text cursor ranges)
    (confined : ∀ finding ∈ findings, finding.Confined text ranges)
    (done :
      redactFrom runtime text processor cursor findings =
        some (after, output)) :
    ∃ outputs : List Text,
      outputs.length = ranges.length ∧
      output = interleave (outsideFrom text cursor ranges) outputs := by
  induction ranges generalizing processor cursor findings output with
  | nil =>
      cases findings with
      | nil =>
          obtain ⟨_, sliced⟩ := redactFrom_nil_eq_some.mp done
          refine ⟨[], rfl, ?_⟩
          rw [← (cut_of_slice? sliced).sliced]
          simp [outsideFrom, interleave]
      | cons finding findings =>
          obtain ⟨range, listed, _⟩ :=
            (confined finding List.mem_cons_self).inRange
          cases listed
  | cons range ranges inductionHypothesis =>
      have within := ordered.within range List.mem_cons_self
      have behind := ordered.tail.begun
      have forward :
          ∀ finding ∈ findings, finding.start ≤ finding.finish :=
        fun finding member =>
          (cut_of_slice? (confined finding member).inText).ordered
      have begun : ∀ finding ∈ findings, range.start ≤ finding.start := by
        intro finding member
        obtain ⟨other, listed, bounds⟩ := (confined finding member).inRange
        rcases List.mem_cons.mp listed with here | later
        · rw [← here]
          exact bounds.1
        · have after := behind other later
          have length := within.ordered
          omega
      obtain ⟨inner, copied, fromRange⟩ :=
        redactFrom_copies within.start
          (ordered.begun range List.mem_cons_self) begun done
      obtain ⟨first, second, parts, ended, beyond⟩ :=
        exists_split_at findings range.finish
      rw [parts] at fromRange forward
      obtain ⟨front, middle, between, rest, cut, reached, fromSecond⟩ :=
        redactFrom_append within.ordered ended fromRange
      -- what is left begins behind the range, as its first finding does
      have later :
          ∀ finding ∈ second, finding.Confined text ranges ∧
            range.finish ≤ finding.start := by
        intro finding member
        have passed : range.finish < finding.finish :=
          finish_behind_of_redactFrom
            (fun other listed => forward other (by simp [listed])) beyond
            fromSecond finding member
        have isConfined :=
          confined finding (by rw [parts]; simp [member])
        obtain ⟨other, listed, bounds⟩ := isConfined.inRange
        rcases List.mem_cons.mp listed with here | further
        · rw [here] at bounds
          omega
        · have after := behind other further
          exact ⟨⟨isConfined.inText, other, further, bounds⟩, by omega⟩
      obtain ⟨remaining, copiedRest, fromEnd⟩ :=
        redactFrom_copies within.finish reached
          (fun finding member => (later finding member).2) fromSecond
      obtain ⟨outputs, lengths, woven⟩ :=
        inductionHypothesis ordered.tail
          (fun finding member => (later finding member).1) fromEnd
      refine ⟨(front ++ slice text between range.finish) :: outputs,
        by simp [lengths], ?_⟩
      rw [copied, cut, copiedRest, woven]
      simp [outsideFrom, interleave]

end ReplacementProcessor

/-- Every finding stands in the text and in one range, the ranges are cut at
boundaries one after the other, and a redaction leaves what is outside them as
it is. -/
theorem findings_confined (environment : Environment)
    (redactor : RedactorInstance) (request : RedactionRequest)
    (text : Text) :
    (∀ range ∈ redactableRanges text request.inputKind request.sourcePath,
      range.start ≤ range.finish ∧ range.finish ≤ byteLen text ∧
        IsCharBoundary text range.start ∧
        IsCharBoundary text range.finish) ∧
    (redactableRanges text request.inputKind request.sourcePath).Pairwise
      (fun left right =>
        left.start < right.start ∧ left.finish ≤ right.start) ∧
    (∀ outcome,
      detectInternal environment request.response redactor text
          request.inputKind request.sourcePath = some outcome →
      ∀ finding ∈ outcome.findings,
        finding.start ≤ finding.finish ∧ finding.finish ≤ byteLen text ∧
          IsCharBoundary text finding.start ∧
          IsCharBoundary text finding.finish ∧
          slice? text finding.start finding.finish =
            some finding.matchText ∧
          ∃ range ∈
              redactableRanges text request.inputKind request.sourcePath,
            range.start ≤ finding.start ∧
              finding.finish ≤ range.finish) ∧
    ∀ artifact,
      redactor.redactArtifact environment request text =
          some (.ok artifact) →
      ∃ outputs : List Text,
        outputs.length =
          (redactableRanges text request.inputKind
            request.sourcePath).length ∧
        text =
          interleave
            (outside text
              (redactableRanges text request.inputKind request.sourcePath))
            ((redactableRanges text request.inputKind
              request.sourcePath).map fun range =>
                slice text range.start range.finish) ∧
        artifact.result.redactedText =
          interleave
            (outside text
              (redactableRanges text request.inputKind request.sourcePath))
            outputs := by
  have ordered :=
    rangesFrom_redactableRanges text request.inputKind request.sourcePath
  refine ⟨?_, redactableRanges_pairwise, ?_, ?_⟩
  · intro range member
    have within := ordered.within range member
    exact ⟨within.ordered, within.inside, within.start, within.finish⟩
  · intro outcome detected finding member
    have confined := confined_detected detected finding member
    have cut := cut_of_slice? confined.inText
    exact ⟨cut.ordered, cut.inside, cut.atStart, cut.atFinish,
      confined.inText, confined.inRange⟩
  · intro artifact completed
    obtain ⟨steps⟩ := redactArtifact_eq_ok completed
    obtain ⟨outputs, lengths, woven⟩ :=
      ReplacementProcessor.redactFrom_frame ordered
        (confined_detected steps.detected) steps.replaced
    have whole := ordered.interleave_slices
    rw [slice_all] at whole
    exact ⟨outputs, lengths, whole, woven⟩

end Redactor
