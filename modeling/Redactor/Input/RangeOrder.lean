import Redactor.Input.Ranges
import Redactor.Library.Slices

/-!
# The redactable ranges in their text

The ranges are cut at character boundaries and follow one another.  In a git
diff each is a line without its first character.
-/

namespace Redactor

open Utf8

/-- A range that can be cut out of the text. -/
structure RedactableRange.In (range : RedactableRange) (text : Text) :
    Prop where
  ordered : range.start ≤ range.finish
  inside : range.finish ≤ byteLen text
  start : IsCharBoundary text range.start
  finish : IsCharBoundary text range.finish

/-- The later range begins after the earlier one, and where that has ended. -/
def RedactableRange.Precedes (left right : RedactableRange) : Prop :=
  left.start < right.start ∧ left.finish ≤ right.start

theorem RedactableRange.In.sliced {range : RedactableRange} {text : Text}
    (within : range.In text) :
    slice? text range.start range.finish =
      some (slice text range.start range.finish) :=
  slice?_of_boundaries within.start within.finish within.ordered

/-- A range that is a line of the text but for its first character, the
marker. -/
def RedactableRange.BehindMarker (range : RedactableRange) (text : Text) :
    Prop :=
  ∃ before marker content after,
    text = before ++ marker :: (content ++ after) ∧
      marker ≠ '\n' ∧ content ≠ [] ∧ EndedAtMost '\n' content ∧
      range.start = byteLen (before ++ [marker]) ∧
      range.finish = byteLen (before ++ marker :: content)

namespace RedactableRange.BehindMarker

variable {range : RedactableRange} {text : Text}

theorem append (behind : range.BehindMarker text) (rest : Text) :
    range.BehindMarker (text ++ rest) := by
  obtain ⟨before, marker, content, after, shape, bounds⟩ := behind
  exact ⟨before, marker, content, after ++ rest, by rw [shape]; simp, bounds⟩

/-- The range is a line without its marker. -/
theorem sliced (behind : range.BehindMarker text) :
    ∃ content,
      slice? text range.start range.finish = some content ∧
        content ≠ [] ∧ EndedAtMost '\n' content := by
  obtain ⟨before, marker, content, after, shape, _, visible, ended, atStart,
      atFinish⟩ := behind
  have parts : text = (before ++ [marker]) ++ (content ++ after) := by
    rw [shape]
    simp
  have length :
      range.finish = byteLen (before ++ [marker]) + byteLen content := by
    rw [atFinish, ← byteLen_append]
    simp
  refine ⟨content, ?_, visible, ended⟩
  rw [atStart, length, parts]
  exact slice?_middle _ content after

/-- The marker stands before the range. -/
theorem marked (behind : range.BehindMarker text) :
    ∃ before marker,
      slice text 0 range.start = before ++ [marker] ∧ marker ≠ '\n' := by
  obtain ⟨before, marker, content, after, shape, inner, _, _, atStart, _⟩ :=
    behind
  have parts : text = (before ++ [marker]) ++ (content ++ after) := by
    rw [shape]
    simp
  refine ⟨before, marker, ?_, inner⟩
  rw [atStart, parts]
  exact slice_left _ _

theorem within (behind : range.BehindMarker text) : range.In text := by
  obtain ⟨content, sliced, _⟩ := behind.sliced
  have cut := cut_of_slice? sliced
  exact ⟨cut.ordered, cut.inside, cut.atStart, cut.atFinish⟩

end RedactableRange.BehindMarker

theorem range_text (text : Text) (filePath : Option Text) :
    RedactableRange.In
      { start := 0, finish := byteLen text, filePath := filePath } text where
  ordered := Nat.zero_le _
  inside := Nat.le_refl _
  start := isCharBoundary_zero text
  finish := isCharBoundary_byteLen text

/-! ## Git diffs -/

namespace DiffState

/-- A line with a marker and something behind it. -/
def isMarked (line : Text) : Bool :=
  (line.head? == some '+' || line.head? == some '-' ||
    line.head? == some ' ') && decide (1 < byteLen line)

theorem exists_of_isMarked {line : Text} (marked : isMarked line = true) :
    ∃ marker content, line = marker :: content ∧ content ≠ [] ∧
      (marker = '+' ∨ marker = '-' ∨ marker = ' ') := by
  simp only [isMarked, Bool.and_eq_true, Bool.or_eq_true, beq_iff_eq,
    decide_eq_true_eq] at marked
  obtain ⟨begins, long⟩ := marked
  cases line with
  | nil =>
      simp at long
  | cons marker content =>
      simp only [List.head?_cons, Option.some.injEq] at begins
      refine ⟨marker, content, rfl, ?_, by tauto⟩
      intro empty
      have small : marker.utf8Size = 1 := by
        rcases begins with (plus | minus) | blank
        · rw [plus]
          rfl
        · rw [minus]
          rfl
        · rw [blank]
          rfl
      rw [empty, byteLen_cons, small] at long
      exact absurd long (by decide)

/-- A line adds nothing, or all of it but its marker. -/
theorem step_cases (state : DiffState) (line : Text) :
    (state.step line).offset = state.offset + byteLen line ∧
      ((state.step line).ranges = state.ranges ∨
        isMarked line = true ∧
          (state.step line).ranges =
            state.ranges ++
              [{ start := state.offset + 1
                 finish := state.offset + byteLen line
                 filePath := state.currentFilePath }]) := by
  by_cases marked : isMarked line = true
  · have given := marked
    unfold isMarked at given
    simp only [step, given, if_true]
    repeat' split
    all_goals first
      | exact ⟨rfl, Or.inl rfl⟩
      | exact ⟨rfl, Or.inr ⟨marked, rfl⟩⟩
  · have given := marked
    unfold isMarked at given
    simp only [step]
    repeat' split
    all_goals exact ⟨rfl, Or.inl rfl⟩

/-- The ranges collected from the lines read so far. -/
structure Collected (state : DiffState) (read : List Text) : Prop where
  offset : state.offset = byteLen read.flatten
  lined : ∀ range ∈ state.ranges, range.BehindMarker read.flatten
  follow : state.ranges.Pairwise RedactableRange.Precedes

theorem collected_initial : Collected initial [] where
  offset := rfl
  lined := by simp [initial]
  follow := List.Pairwise.nil

/-- What stands behind the marker of a line. -/
theorem behindMarker_line {line : Text} (marked : isMarked line = true)
    (ended : EndedAtMost '\n' line) (before : Text)
    (filePath : Option Text) :
    RedactableRange.BehindMarker
      { start := byteLen before + 1
        finish := byteLen before + byteLen line
        filePath := filePath }
      (before ++ line) := by
  obtain ⟨marker, content, shape, visible, kind⟩ :=
    exists_of_isMarked marked
  have inner : marker ≠ '\n' := by
    rcases kind with plus | minus | blank
    · rw [plus]
      decide
    · rw [minus]
      decide
    · rw [blank]
      decide
  have small : marker.utf8Size = 1 := by
    rcases kind with plus | minus | blank
    · rw [plus]
      rfl
    · rw [minus]
      rfl
    · rw [blank]
      rfl
  rw [shape] at ended ⊢
  exact ⟨before, marker, content, [], by simp, inner, visible,
    ended.tail inner, by simp [small], by simp⟩

theorem collected_step {state : DiffState} {read : List Text}
    (collected : state.Collected read) {line : Text}
    (ended : EndedAtMost '\n' line) :
    (state.step line).Collected (read ++ [line]) := by
  obtain ⟨offset, ranges⟩ := step_cases state line
  have longer : (read ++ [line]).flatten = read.flatten ++ line := by simp
  have atFinish :
      (state.step line).offset = byteLen (read ++ [line]).flatten := by
    rw [offset, collected.offset, longer, byteLen_append]
  have earlierLined :
      ∀ range ∈ state.ranges,
        range.BehindMarker (read ++ [line]).flatten := by
    intro range member
    rw [longer]
    exact (collected.lined range member).append line
  rcases ranges with unchanged | ⟨marked, added⟩
  · exact {
      offset := atFinish
      lined := by
        rw [unchanged]
        exact earlierLined
      follow := by
        rw [unchanged]
        exact collected.follow }
  · exact {
      offset := atFinish
      lined := by
        intro range member
        rw [added] at member
        rcases List.mem_append.mp member with earlier | new
        · exact earlierLined range earlier
        · rw [List.mem_singleton.mp new, longer, collected.offset]
          exact behindMarker_line marked ended _ _
      follow := by
        rw [added]
        apply List.pairwise_append.mpr
        refine ⟨collected.follow, List.pairwise_singleton _ _, ?_⟩
        intro earlier member new isNew
        rw [List.mem_singleton.mp isNew]
        have within := (collected.lined earlier member).within
        have begun := within.ordered
        have ended := within.inside
        rw [← collected.offset] at ended
        unfold RedactableRange.Precedes
        simp only
        omega }

theorem collected_foldl {state : DiffState} {read lines : List Text}
    (collected : state.Collected read)
    (ended : ∀ line ∈ lines, EndedAtMost '\n' line) :
    (lines.foldl step state).Collected (read ++ lines) := by
  induction lines generalizing state read with
  | nil =>
      simpa using collected
  | cons line lines inductionHypothesis =>
      have continued :=
        inductionHypothesis
          (collected_step collected (ended line List.mem_cons_self))
          (fun other member => ended other (List.mem_cons_of_mem line member))
      simpa using continued

/-- A marker stands between two ranges of a diff. -/
theorem parted_foldl {state : DiffState} {read lines : List Text}
    (collected : state.Collected read)
    (ended : ∀ line ∈ lines, EndedAtMost '\n' line)
    (parted :
      state.ranges.Pairwise fun left right => left.finish < right.start) :
    (lines.foldl step state).ranges.Pairwise
      fun left right => left.finish < right.start := by
  induction lines generalizing state read with
  | nil =>
      exact parted
  | cons line lines inductionHypothesis =>
      apply inductionHypothesis
        (collected_step collected (ended line List.mem_cons_self))
        (fun other member => ended other (List.mem_cons_of_mem line member))
      rcases (step_cases state line).2 with unchanged | ⟨_, added⟩
      · rw [unchanged]
        exact parted
      · rw [added]
        apply List.pairwise_append.mpr
        refine ⟨parted, List.pairwise_singleton _ _, ?_⟩
        intro earlier member new isNew
        have last := (collected.lined earlier member).within.inside
        rw [← collected.offset] at last
        rw [List.mem_singleton.mp isNew]
        simp only
        omega

end DiffState

theorem gitDiff_collected (text : Text) :
    ((splitInclusive '\n' text).foldl DiffState.step
        DiffState.initial).Collected (splitInclusive '\n' text) :=
  DiffState.collected_foldl DiffState.collected_initial
    fun _ member => endedAtMost_of_mem_splitInclusive member

/-- Every range of a diff is a line behind its marker. -/
theorem gitDiff_behindMarker (text : Text) :
    ∀ range ∈ gitDiffRedactableRanges text, range.BehindMarker text := by
  intro range member
  have lined := (gitDiff_collected text).lined range member
  rwa [flatten_splitInclusive] at lined

theorem redactableRanges_in {text : Text} {inputKind : InputKind}
    {sourcePath : Option Text} :
    ∀ range ∈ redactableRanges text inputKind sourcePath, range.In text := by
  intro range member
  cases inputKind with
  | text =>
      rw [List.mem_singleton.mp member]
      exact range_text text sourcePath
  | gitDiff =>
      exact (gitDiff_behindMarker text range member).within

theorem redactableRanges_pairwise {text : Text} {inputKind : InputKind}
    {sourcePath : Option Text} :
    (redactableRanges text inputKind sourcePath).Pairwise
      RedactableRange.Precedes := by
  cases inputKind with
  | text =>
      exact List.pairwise_singleton _ _
  | gitDiff =>
      exact (gitDiff_collected text).follow

/-- The ranges do not touch one another. -/
theorem redactableRanges_parted {text : Text} {inputKind : InputKind}
    {sourcePath : Option Text} :
    (redactableRanges text inputKind sourcePath).Pairwise
      fun left right => left.finish < right.start := by
  cases inputKind with
  | text =>
      exact List.pairwise_singleton _ _
  | gitDiff =>
      exact
        DiffState.parted_foldl DiffState.collected_initial
          (fun _ member => endedAtMost_of_mem_splitInclusive member)
          List.Pairwise.nil

end Redactor
