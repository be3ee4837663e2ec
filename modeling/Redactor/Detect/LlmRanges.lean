import Redactor.Detect.LlmAssignment

/-!
# Candidates and the redactable ranges

Candidates are given their occurrences over the whole text; which of these lie
in a redactable range is asked afterwards.  A candidate is left with a finding
exactly when the first free occurrence of its value lies in a range.
-/

namespace Redactor

open Utf8

/-- An occurrence of this length at this position lies in a redactable
range. -/
def InsideRanges (ranges : List RedactableRange) (length start : Nat) : Prop :=
  ∃ range ∈ ranges, range.start ≤ start ∧ start + length ≤ range.finish

/-- The first occurrence of the value that overlaps no range in use. -/
structure FirstFree (text value : Text) (occupied : List (Nat × Nat))
    (start : Nat) : Prop where
  starts : StartsAt value text start
  free : ¬ Blocked (byteLen value) occupied start
  first :
    ∀ earlier, StartsAt value text earlier → earlier < start →
      Blocked (byteLen value) occupied earlier

/-- The candidate has a finding that is left when the ranges are asked for. -/
def Kept (ranges : List RedactableRange) (answers : List (Option Finding))
    (index : Nat) : Prop :=
  ∃ finding ∈ filterFindingsToRanges answers.reduceOption ranges,
    answers[index]? = some (some finding)

/-- A candidate that could have a finding in a range is answered with one at
the first free occurrence, and keeps it exactly when that one lies in a
range. -/
def KeptByFirstFree (text : Text) (rules : RedactionRules)
    (ranges : List RedactableRange) (candidates : List Candidate)
    (answers : List (Option Finding)) : Prop :=
  ∀ (index : Nat) (candidate : Candidate) (place : Nat),
    candidates[index]? = some candidate →
    (mapKind candidate.kind rules).isSome → candidate.value ≠ [] →
    StartsAt candidate.value text place →
    InsideRanges ranges (byteLen candidate.value) place →
    ¬ Blocked (byteLen candidate.value) (rangesBefore answers index) place →
      ∃ start,
        FirstFree text candidate.value (rangesBefore answers index) start ∧
        (∃ kind, mapKind candidate.kind rules = some kind ∧
          answers[index]? = some (some (llmFinding kind candidate start))) ∧
        (Kept ranges answers index ↔
          InsideRanges ranges (byteLen candidate.value) start)

variable {text : Text} {rules : RedactionRules}
  {ranges : List RedactableRange} {candidates : List Candidate}
  {answers : List (Option Finding)}

theorem mem_filterFindingsToRanges {finding : Finding}
    {findings : List Finding} :
    finding ∈ filterFindingsToRanges findings ranges ↔
      finding ∈ findings ∧
        ∃ range ∈ ranges,
          range.start ≤ finding.start ∧ finding.finish ≤ range.finish := by
  simp only [filterFindingsToRanges, List.mem_filter, List.any_eq_true,
    Bool.and_eq_true, decide_eq_true_eq]

/-- What a candidate has been given is kept when it lies in a range. -/
theorem kept_iff {index : Nat} {candidate : Candidate} {kind : FindingKind}
    {start : Nat}
    (given : answers[index]? = some (some (llmFinding kind candidate start))) :
    Kept ranges answers index ↔
      InsideRanges ranges (byteLen candidate.value) start := by
  constructor
  · rintro ⟨finding, left, same⟩
    rw [given] at same
    cases same
    exact (mem_filterFindingsToRanges.mp left).2
  · intro inside
    refine ⟨llmFinding kind candidate start,
      mem_filterFindingsToRanges.mpr ⟨?_, inside⟩, given⟩
    exact List.reduceOption_mem_iff.mpr (List.mem_of_getElem? given)

theorem keptByFirstFree_of_assigned
    (assigned : Assigned text rules [] candidates answers) :
    KeptByFirstFree text rules ranges candidates answers := by
  intro index candidate place named allowed nonempty starts _ free
  have inside : index < answers.length := by
    rw [assigned.length]
    exact (List.getElem?_eq_some_iff.mp named).1
  have given := List.getElem?_eq_getElem inside
  have answered := assigned.answered named given
  rw [List.nil_append] at answered
  cases answer : answers[index] with
  | none =>
      rw [answer] at answered
      exact absurd (answered allowed nonempty place starts) free
  | some finding =>
      rw [answer] at answered given
      obtain ⟨kind, start, mapped, rfl, _, here, unblocked, first⟩ := answered
      exact ⟨start, ⟨here, unblocked, first⟩, ⟨kind, mapped, given⟩,
        kept_iff given⟩

/-- The candidates of a text have greedy answers, of which the ranges leave
those that have been given an occurrence inside. -/
theorem parseCandidates_kept_iff (text : Text) (rules : RedactionRules)
    (ranges : List RedactableRange) (candidates : List Candidate) :
    (∀ matchPositions,
        CompletePositions text (candidates.map Candidate.value)
          matchPositions →
        ∃ answers,
          answers.reduceOption =
            (candidates.foldl (takeCandidate rules matchPositions)
              {}).findings ∧
          GreedyAnswers text rules candidates answers ∧
          KeptByFirstFree text rules ranges candidates answers) ∧
      ∀ findings, parseCandidates text candidates rules = some findings →
        ∃ answers,
          answers.reduceOption = findings ∧
          GreedyAnswers text rules candidates answers ∧
          KeptByFirstFree text rules ranges candidates answers := by
  constructor
  · intro matchPositions complete
    obtain ⟨answers, assigned, found⟩ := assigned_of_complete complete
    exact ⟨answers, found, greedyAnswers_of_assigned assigned,
      keptByFirstFree_of_assigned assigned⟩
  · intro findings parsed
    obtain ⟨answers, assigned, found⟩ := assigned_of_parsed parsed
    exact ⟨answers, found, greedyAnswers_of_assigned assigned,
      keptByFirstFree_of_assigned assigned⟩

def sampleHunk : Text :=
  lit "Alice in a header\nAlice in a hunk"

def sampleHunkRanges : List RedactableRange :=
  [{ start := 18, finish := 33, filePath := none }]

def sampleAlice : Candidate :=
  ⟨lit "person", lit "Alice", none⟩

theorem parseCandidates_kept_iff_two_names :
    ∃ answers,
      answers.reduceOption.map Finding.start = [0, 18] ∧
      GreedyAnswers sampleHunk { person := true } [sampleAlice, sampleAlice]
        answers ∧
      KeptByFirstFree sampleHunk { person := true } sampleHunkRanges
        [sampleAlice, sampleAlice] answers := by
  have places :
      (parseCandidates sampleHunk [sampleAlice, sampleAlice]
          { person := true }).map (fun findings =>
            findings.map Finding.start) =
        some [0, 18] := by
    decide +kernel
  obtain ⟨findings, parsed, starts⟩ := Option.map_eq_some_iff.mp places
  obtain ⟨answers, found, rest⟩ :=
    (parseCandidates_kept_iff sampleHunk { person := true } sampleHunkRanges
      [sampleAlice, sampleAlice]).2 findings parsed
  rw [← found] at starts
  exact ⟨answers, starts, rest⟩

/-- A name that is given once is used up by the header, and nothing is found in
the hunk. -/
theorem header_takes_candidate :
    ¬ ∀ (text : Text) (rules : RedactionRules)
        (ranges : List RedactableRange) (candidates : List Candidate)
        (findings : List Finding) (answers : List (Option Finding)),
      parseCandidates text candidates rules = some findings →
      GreedyAnswers text rules candidates answers →
      answers.reduceOption = findings →
      ∀ (index : Nat) (candidate : Candidate) (place : Nat),
        candidates[index]? = some candidate →
        (mapKind candidate.kind rules).isSome → candidate.value ≠ [] →
        StartsAt candidate.value text place →
        InsideRanges ranges (byteLen candidate.value) place →
        ¬ Blocked (byteLen candidate.value) (rangesBefore answers index)
            place →
          ∃ finding ∈ filterFindingsToRanges findings ranges,
            answers[index]? = some (some finding) := by
  intro all
  have nothing :
      (parseCandidates sampleHunk [sampleAlice] { person := true }).map
          (fun findings => filterFindingsToRanges findings sampleHunkRanges) =
        some [] := by
    decide +kernel
  obtain ⟨findings, parsed, filtered⟩ := Option.map_eq_some_iff.mp nothing
  obtain ⟨answers, assigned, found⟩ := assigned_of_parsed parsed
  have starts : StartsAt sampleAlice.value sampleHunk 18 :=
    ⟨lit "Alice in a header\n", lit " in a hunk", by decide, by decide⟩
  have free :
      ¬ Blocked (byteLen sampleAlice.value) (rangesBefore answers 0) 18 := by
    rintro ⟨used, member, _⟩
    cases member
  have inside :
      InsideRanges sampleHunkRanges (byteLen sampleAlice.value) 18 :=
    ⟨_, List.mem_singleton_self _, by decide, by decide⟩
  obtain ⟨finding, left, _⟩ :=
    all sampleHunk { person := true } sampleHunkRanges [sampleAlice] findings
      answers parsed (greedyAnswers_of_assigned assigned) found 0 sampleAlice 18
      rfl (by decide) (by decide) starts inside free
  rw [filtered] at left
  cases left

end Redactor
