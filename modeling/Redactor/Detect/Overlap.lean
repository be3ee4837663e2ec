import Mathlib.Data.List.Pairwise
import Mathlib.Data.List.Sort
import Redactor.Library.LastPlace
import Redactor.Types

/-!
# Selection of findings that do not overlap

The candidates of all detectors are sorted and read once.  A candidate that
overlaps the finding last selected replaces it or is dropped.
-/

namespace Redactor

open Utf8

def overlaps (left right : Finding) : Bool :=
  decide (left.start < right.finish) && decide (right.start < left.finish)

def preferRight (left right : Finding) : Bool :=
  let leftContainsRight :=
    decide (left.start ≤ right.start) && decide (right.finish ≤ left.finish)
  let rightContainsLeft :=
    decide (right.start ≤ left.start) && decide (left.finish ≤ right.finish)
  let leftPriority := left.kind.containmentPriority
  let rightPriority := right.kind.containmentPriority
  if (leftContainsRight || rightContainsLeft) &&
      leftPriority != rightPriority then
    decide (leftPriority < rightPriority)
  else
    decide (left.score < right.score) ||
      (right.score == left.score &&
        decide (left.finish - left.start < right.finish - right.start))

/-- Earlier start first, then higher score, then greater length. -/
def compareCandidates (left right : Finding) : Ordering :=
  (compare left.start right.start).then
    ((compare right.score left.score).then
      (compare (right.finish - right.start) (left.finish - left.start)))

/-- The order of the candidates, best first. -/
def Precedes (left right : Finding) : Prop :=
  (compareCandidates left right).isLE = true

instance : DecidableRel Precedes :=
  fun left right =>
    inferInstanceAs (Decidable ((compareCandidates left right).isLE = true))

def sortCandidates (findings : List Finding) : List Finding :=
  findings.insertionSort Precedes

def sortByStart (findings : List Finding) : List Finding :=
  findings.insertionSort fun left right => left.start ≤ right.start

/-- The loop body.  `selected` is in reverse, so that its last finding comes
first. -/
def selectStep (state : List Finding × Nat) (finding : Finding) :
    List Finding × Nat :=
  match state with
  | ([], dropped) => ([finding], dropped)
  | (previous :: selected, dropped) =>
      if overlaps previous finding then
        if preferRight previous finding then
          (finding :: selected, dropped)
        else
          (previous :: selected, dropped + 1)
      else
        (finding :: previous :: selected, dropped)

def selectNonOverlapping (findings : List Finding) : List Finding × Nat :=
  let (selected, dropped) :=
    (sortCandidates findings).foldl selectStep ([], 0)
  (sortByStart selected.reverse, dropped)

theorem precedes_iff {left right : Finding} :
    Precedes left right ↔
      left.start < right.start ∨
      left.start = right.start ∧
        (right.score < left.score ∨
        right.score = left.score ∧
          right.finish - right.start ≤ left.finish - left.start) := by
  simp only [Precedes, compareCandidates, Ordering.isLE_then_iff_or,
    Nat.isLE_compare, Nat.compare_eq_lt, Nat.compare_eq_eq]

instance : Std.Total Precedes where
  total := by
    intro left right
    simp only [precedes_iff]
    omega

instance : IsTrans Finding Precedes where
  trans := by
    intro first second third
    simp only [precedes_iff]
    omega

theorem mem_sortCandidates {finding : Finding} {findings : List Finding} :
    finding ∈ sortCandidates findings ↔ finding ∈ findings :=
  List.mem_insertionSort Precedes

/-- Sorted candidates that are not empty are spans in order. -/
theorem ordered_sortCandidates {findings : List Finding}
    (proper : ∀ finding ∈ findings, finding.start < finding.finish) :
    LastPlace.Ordered Finding.start Finding.finish
      (sortCandidates findings) := by
  constructor
  · intro finding member
    exact proper finding (mem_sortCandidates.mp member)
  · have sorted := List.pairwise_insertionSort Precedes findings
    apply sorted.imp
    intro left right precedes
    have cases := precedes_iff.mp precedes
    omega

/-! ## The loop -/

/-- The loop selects what the last place lets through. -/
theorem foldl_selectStep (previous : Finding) (selected : List Finding)
    (dropped : Nat) (rest : List Finding) :
    (rest.foldl selectStep (previous :: selected, dropped)).1.reverse =
      selected.reverse ++
        LastPlace.selectFrom overlaps preferRight previous rest := by
  induction rest generalizing previous selected dropped with
  | nil =>
      simp [LastPlace.selectFrom]
  | cons finding rest inductionHypothesis =>
      unfold LastPlace.selectFrom
      simp only [List.foldl_cons, selectStep]
      by_cases overlapping : overlaps previous finding = true
      · by_cases preferred : preferRight previous finding = true
        · simp only [overlapping, preferred, if_true]
          exact inductionHypothesis finding selected dropped
        · simp only [overlapping, preferred, if_true]
          exact inductionHypothesis previous selected (dropped + 1)
      · simp only [overlapping]
        have continued :=
          inductionHypothesis finding (previous :: selected) dropped
        simpa using continued

theorem selected_eq (findings : List Finding) :
    (selectNonOverlapping findings).1 =
      sortByStart
        (LastPlace.select overlaps preferRight (sortCandidates findings)) := by
  unfold selectNonOverlapping LastPlace.select
  cases sortCandidates findings with
  | nil =>
      rfl
  | cons first rest =>
      have run := foldl_selectStep first [] 0 rest
      simp only [List.reverse_nil, List.nil_append] at run
      simp only [List.foldl_cons, selectStep, run]

theorem mem_selected {finding : Finding} {findings : List Finding} :
    finding ∈ (selectNonOverlapping findings).1 ↔
      finding ∈
        LastPlace.select overlaps preferRight (sortCandidates findings) := by
  rw [selected_eq]
  exact List.mem_insertionSort _

/-- A returned finding got the last place and kept it. -/
theorem mem_selected_iff {finding : Finding} {findings : List Finding} :
    finding ∈ (selectNonOverlapping findings).1 ↔
      ∃ before after,
        sortCandidates findings = before ++ finding :: after ∧
        LastPlace.takes overlaps preferRight before finding = true ∧
        LastPlace.keeps overlaps preferRight finding after = true := by
  rw [mem_selected, LastPlace.mem_select_iff]

theorem mem_of_mem_selected {finding : Finding} {findings : List Finding}
    (selected : finding ∈ (selectNonOverlapping findings).1) :
    finding ∈ findings :=
  mem_sortCandidates.mp (LastPlace.mem_of_mem_select (mem_selected.mp selected))

/-- The returned findings follow one another without overlapping. -/
theorem pairwise_selected {findings : List Finding}
    (proper : ∀ finding ∈ findings, finding.start < finding.finish) :
    (selectNonOverlapping findings).1.Pairwise
      fun left right => left.finish ≤ right.start := by
  have ordered := ordered_sortCandidates proper
  have apart :=
    @LastPlace.pairwise_select _ _ _ _ _ preferRight _ ordered
  have sorted :
      (LastPlace.select overlaps preferRight
        (sortCandidates findings)).Pairwise
        fun left right => left.start ≤ right.start := by
    apply apart.imp_of_mem
    intro left right selectedLeft _ separate
    have nonempty := ordered.1 left (LastPlace.mem_of_mem_select selectedLeft)
    omega
  have unchanged :
      (selectNonOverlapping findings).1 =
        LastPlace.select overlaps preferRight (sortCandidates findings) := by
    rw [selected_eq]
    exact sorted.insertionSort_eq
  rw [unchanged]
  exact apart

theorem overlaps_comm (left right : Finding) :
    overlaps left right = overlaps right left := by
  simp only [overlaps, Bool.and_comm]

theorem overlaps_of_mem_selected {findings : List Finding}
    (proper : ∀ finding ∈ findings, finding.start < finding.finish)
    {left right : Finding}
    (first : left ∈ (selectNonOverlapping findings).1)
    (second : right ∈ (selectNonOverlapping findings).1)
    (different : left ≠ right) :
    overlaps left right = false := by
  have apart :
      (selectNonOverlapping findings).1.Pairwise
        fun left right => overlaps left right = false := by
    apply (pairwise_selected proper).imp
    intro earlier later ended
    simp only [overlaps, Bool.and_eq_false_iff, decide_eq_false_iff_not]
    omega
  have symmetric :
      Std.Symm fun left right : Finding => overlaps left right = false :=
    ⟨fun earlier later separate => by rw [overlaps_comm]; exact separate⟩
  exact apart.forall first second different

/-- No candidate takes the last place after another one of the same run of
overlapping candidates has ended. -/
def noCandidateStranded (findings : List Finding) : Bool :=
  LastPlace.strandsNone Finding.start Finding.finish preferRight
    (sortCandidates findings)

/-- Every candidate overlaps a returned finding exactly when none is stranded
by a later one. -/
theorem dropped_overlaps_selected_iff (findings : List Finding)
    (proper : ∀ finding ∈ findings, finding.start < finding.finish) :
    (∀ finding ∈ findings,
        finding ∉ (selectNonOverlapping findings).1 →
        ∃ returned ∈ (selectNonOverlapping findings).1,
          overlaps finding returned = true) ↔
      noCandidateStranded findings = true := by
  have touched :=
    @LastPlace.touchesAll_select_iff _ _ _ _ _ preferRight _
      (ordered_sortCandidates proper)
  unfold noCandidateStranded
  rw [← touched]
  constructor
  · intro covers finding member
    have candidate := mem_sortCandidates.mp member
    by_cases selected : finding ∈ (selectNonOverlapping findings).1
    · have nonempty := proper finding candidate
      exact ⟨finding, mem_selected.mp selected,
        LastPlace.overlap_eq_true.mpr ⟨nonempty, nonempty⟩⟩
    · obtain ⟨returned, present, meets⟩ := covers finding candidate selected
      exact ⟨returned, mem_selected.mp present, meets⟩
  · intro touches finding candidate _
    obtain ⟨returned, present, meets⟩ :=
      touches finding (mem_sortCandidates.mpr candidate)
    exact ⟨returned, mem_selected.mpr present, meets⟩

/-- A rule's finding in `alice@example.com now`. -/
def sampleCandidate (kind : FindingKind) (matchText : Text)
    (confidence start : Nat) : Finding where
  kind := kind
  source := .rule
  matchText := matchText
  normalizedKey := matchText
  confidence := confidence
  start := start
  finish := start + byteLen matchText

/-- The custom string `com now` takes the place of the address to which the
custom string `alice` was given up. -/
theorem dropped_custom_string_is_stranded :
    ¬ ∀ findings : List Finding,
      (∀ finding ∈ findings, finding.start < finding.finish) →
      ∀ finding ∈ findings,
        finding ∉ (selectNonOverlapping findings).1 →
        ∃ returned ∈ (selectNonOverlapping findings).1,
          overlaps finding returned = true := by
  intro covers
  have lost :=
    covers
      [sampleCandidate .email (lit "alice@example.com") 98 0,
        sampleCandidate .customString (lit "alice") 100 0,
        sampleCandidate .customString (lit "com now") 100 14]
      (by decide)
      (sampleCandidate .customString (lit "alice") 100 0)
      (by decide) (by decide)
  revert lost
  decide

/-- The address and the custom string in it, as the rules find them. -/
def sampleNested : List Finding :=
  [sampleCandidate .email (lit "alice@example.com") 98 0,
    sampleCandidate .customString (lit "alice") 100 0]

/-- Without the second custom string the address covers the first one. -/
theorem dropped_overlaps_selected_iff_nested :
    (sampleCandidate .customString (lit "alice") 100 0 ∉
      (selectNonOverlapping sampleNested).1) ∧
      ∀ finding ∈ sampleNested,
        finding ∉ (selectNonOverlapping sampleNested).1 →
        ∃ returned ∈ (selectNonOverlapping sampleNested).1,
          overlaps finding returned = true :=
  ⟨by decide,
    (dropped_overlaps_selected_iff sampleNested (by decide)).mpr (by decide)⟩

end Redactor
