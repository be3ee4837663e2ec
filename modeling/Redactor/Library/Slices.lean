import Redactor.Library.Scanning

/-!
# Slices and where they stand

A slice is cut at character boundaries.  Slices of slices, occurrences of a
needle and trimmed parts are slices of the whole text again, at offsets that
add up.
-/

namespace Utf8

variable {text : Text}

theorem isCharBoundary_zero (text : Text) : IsCharBoundary text 0 :=
  ⟨[], text, rfl, rfl⟩

theorem isCharBoundary_byteLen (text : Text) :
    IsCharBoundary text (byteLen text) :=
  ⟨text, [], by simp, rfl⟩

theorem IsCharBoundary.le_byteLen {offset : Nat}
    (boundary : IsCharBoundary text offset) : offset ≤ byteLen text := by
  obtain ⟨left, right, shape, size⟩ := boundary
  rw [shape, byteLen_append]
  omega

/-- The part of a text before the nearer of two boundaries is a part of that
before the farther one. -/
theorem exists_middle_of_boundaries {start finish : Nat}
    (atStart : IsCharBoundary text start)
    (atFinish : IsCharBoundary text finish) (ordered : start ≤ finish) :
    ∃ left middle right, text = left ++ (middle ++ right) ∧
      byteLen left = start ∧ byteLen left + byteLen middle = finish := by
  obtain ⟨left, rest, shape, size⟩ := atStart
  obtain ⟨front, right, shape', size'⟩ := atFinish
  rw [shape] at shape'
  rcases List.append_eq_append_iff.mp shape' with
    ⟨middle, reached, remaining⟩ | ⟨back, reached, remaining⟩
  · refine ⟨left, middle, right, by rw [shape, remaining], size, ?_⟩
    rw [← size', reached, byteLen_append]
  · rw [reached, byteLen_append] at size
    have none : back = [] := byteLen_eq_zero.mp (by omega)
    rw [none, List.append_nil] at reached
    rw [none, List.nil_append] at remaining
    exact ⟨left, [], right, by rw [shape, remaining]; rfl,
      by rw [reached]; omega, by rw [reached, byteLen_nil]; omega⟩

/-- What a slice says about its offsets. -/
structure Cut (text middle : Text) (start finish : Nat) : Prop where
  ordered : start ≤ finish
  inside : finish ≤ byteLen text
  atStart : IsCharBoundary text start
  atFinish : IsCharBoundary text finish
  length : finish = start + byteLen middle
  sliced : slice text start finish = middle

theorem cut_of_slice? {middle : Text} {start finish : Nat}
    (sliced : slice? text start finish = some middle) :
    Cut text middle start finish := by
  obtain ⟨left, right, shape, atStart, atFinish⟩ := slice?_eq_some.mp sliced
  exact {
    ordered := by omega
    inside := by
      rw [shape, byteLen_append, byteLen_append]
      omega
    atStart :=
      ⟨left, middle ++ right, by rw [shape, List.append_assoc], atStart⟩
    atFinish :=
      ⟨left ++ middle, right, shape, by rw [byteLen_append, atFinish]⟩
    length := by omega
    sliced := by rw [slice, sliced, Option.getD_some] }

/-- A slice between boundaries in order has a result. -/
theorem slice?_of_boundaries {start finish : Nat}
    (atStart : IsCharBoundary text start)
    (atFinish : IsCharBoundary text finish) (ordered : start ≤ finish) :
    slice? text start finish = some (slice text start finish) := by
  obtain ⟨left, middle, right, shape, size, size'⟩ :=
    exists_middle_of_boundaries atStart atFinish ordered
  have sliced : slice? text start finish = some middle := by
    rw [shape, ← size', ← size]
    exact slice?_middle left middle right
  rw [slice, sliced, Option.getD_some]

/-- A slice of a slice. -/
theorem slice?_within {fragment middle : Text}
    {lower upper start finish : Nat}
    (outer : slice? text lower upper = some fragment)
    (inner : slice? fragment start finish = some middle) :
    slice? text (lower + start) (lower + finish) = some middle ∧
      lower + finish ≤ upper := by
  obtain ⟨left, right, shape, atLower, atUpper⟩ := slice?_eq_some.mp outer
  obtain ⟨before, after, shape', atStart, atFinish⟩ :=
    slice?_eq_some.mp inner
  constructor
  · apply slice?_eq_some.mpr
    refine ⟨left ++ before, after ++ right, ?_, ?_, ?_⟩
    · rw [shape, shape']
      simp only [List.append_assoc]
    · rw [byteLen_append]
      omega
    · rw [byteLen_append]
      omega
  · have size := congrArg byteLen shape'
    simp only [byteLen_append] at size
    omega

theorem slice?_find? {needle : Text} {offset : Nat}
    (found : find? text needle = some offset) :
    slice? text offset (offset + byteLen needle) = some needle := by
  obtain ⟨before, after, shape, size⟩ := find?_eq_some found
  rw [shape, ← size]
  exact slice?_middle before needle after

/-- The first occurrence of a part of a slice, in the whole text. -/
theorem slice?_of_infix {fragment part : Text} {lower upper : Nat}
    (outer : slice? text lower upper = some fragment)
    (within : part <:+: fragment) :
    slice? text (lower + (find? fragment part).getD 0)
        (lower + (find? fragment part).getD 0 + byteLen part) =
      some part := by
  obtain ⟨before, after, cut⟩ := exists_dropInfix?_of_infix within
  have found : find? fragment part = some (byteLen before) := by
    rw [find?, cut]
    rfl
  have inner := slice?_find? found
  rw [found, Option.getD_some, Nat.add_assoc]
  exact (slice?_within outer inner).1

/-! ## Parts of a text -/

theorem trimMatches_isInfix (matching : Char → Bool) (text : Text) :
    trimMatches matching text <:+: text := by
  have start : trimStartMatches matching text <:+ text :=
    List.dropWhile_suffix _
  have finish :
      trimMatches matching text <+: trimStartMatches matching text :=
    List.rdropWhile_prefix _ _
  exact finish.isInfix.trans start.isInfix

theorem trim_isInfix (text : Text) : trim text <:+: text :=
  trimMatches_isInfix isWhitespace text

/-- Trimming removes characters that match only. -/
theorem mem_trimStartMatches {matching : Char → Bool} {text : Text}
    {head : Char} (member : head ∈ text) (kept : matching head = false) :
    head ∈ trimStartMatches matching text := by
  rw [← @List.takeWhile_append_dropWhile _ matching text] at member
  rcases List.mem_append.mp member with dropped | remaining
  · have matched := List.mem_takeWhile_imp dropped
    rw [kept] at matched
    cases matched
  · exact remaining

theorem mem_trimEndMatches {matching : Char → Bool} {text : Text}
    {head : Char} (member : head ∈ text) (kept : matching head = false) :
    head ∈ trimEndMatches matching text :=
  List.mem_reverse.mpr
    (mem_trimStartMatches (List.mem_reverse.mpr member) kept)

theorem mem_trim {text : Text} {head : Char} (member : head ∈ text)
    (visible : isWhitespace head = false) : head ∈ trim text :=
  mem_trimEndMatches (mem_trimStartMatches member visible) visible

/-- Where the character stands that is listed with its offset. -/
theorem mem_charIndicesFrom {offset index : Nat} {head : Char}
    (listed : (index, head) ∈ charIndicesFrom offset text) :
    ∃ before after, text = before ++ head :: after ∧
      offset + byteLen before = index := by
  induction text generalizing offset with
  | nil =>
      cases listed
  | cons first rest inductionHypothesis =>
      rcases List.mem_cons.mp listed with here | later
      · cases here
        exact ⟨[], rest, rfl, rfl⟩
      · obtain ⟨before, after, shape, size⟩ := inductionHypothesis later
        refine ⟨first :: before, after, by rw [shape]; rfl, ?_⟩
        rw [byteLen_cons]
        omega

theorem mem_charIndices {index : Nat} {head : Char}
    (listed : (index, head) ∈ charIndices text) :
    ∃ before after, text = before ++ head :: after ∧
      byteLen before = index := by
  obtain ⟨before, after, shape, size⟩ := mem_charIndicesFrom listed
  exact ⟨before, after, shape, by omega⟩

/-- Every character is listed. -/
theorem mem_charIndicesFrom_append (offset : Nat) (before : Text)
    (head : Char) (after : Text) :
    (offset + byteLen before, head) ∈
      charIndicesFrom offset (before ++ head :: after) := by
  induction before generalizing offset with
  | nil =>
      exact List.mem_cons_self
  | cons first rest inductionHypothesis =>
      have later := inductionHypothesis (offset + first.utf8Size)
      rw [Nat.add_assoc, ← byteLen_cons] at later
      exact List.mem_cons_of_mem _ later

/-- An occurrence that is listed is one. -/
theorem mem_matchIndicesFrom {needle : Text} {fuel offset start : Nat}
    (listed : start ∈ matchIndicesFrom needle fuel offset text) :
    ∃ before after, text = before ++ (needle ++ after) ∧
      offset + byteLen before = start := by
  induction fuel generalizing offset text with
  | zero =>
      cases listed
  | succ fuel inductionHypothesis =>
      unfold matchIndicesFrom at listed
      cases search : text.dropInfix? needle with
      | none =>
          simp [search] at listed
      | some parts =>
          obtain ⟨before, after⟩ := parts
          have shape := (dropInfix?_eq_some_iff_notBefore.mp search).1
          simp only [search] at listed
          rcases List.mem_cons.mp listed with here | later
          · exact ⟨before, after, shape, here.symm⟩
          · obtain ⟨further, rest, shape', size⟩ := inductionHypothesis later
            refine ⟨before ++ (needle ++ further), rest, ?_, ?_⟩
            · rw [shape, shape']
              simp only [List.append_assoc]
            · simp only [byteLen_append]
              omega

theorem slice?_matchIndices {needle : Text} {start : Nat}
    (listed : start ∈ matchIndices text needle) :
    slice? text start (start + byteLen needle) = some needle := by
  by_cases empty : needle = []
  · have boundary : IsCharBoundary text start := by
      simp only [matchIndices, empty, if_true, List.mem_append,
        List.mem_map, List.mem_singleton] at listed
      rcases listed with ⟨place, present, atPlace⟩ | atEnd
      · obtain ⟨before, after, shape, size⟩ := mem_charIndices present
        exact ⟨before, place.2 :: after, shape, by rw [size, atPlace]⟩
      · rw [atEnd]
        exact isCharBoundary_byteLen text
    obtain ⟨left, right, shape, size⟩ := boundary
    rw [empty, shape, ← size]
    exact slice?_middle left [] right
  · simp only [matchIndices, empty, if_false] at listed
    obtain ⟨before, after, shape, size⟩ := mem_matchIndicesFrom listed
    rw [Nat.zero_add] at size
    rw [shape, ← size]
    exact slice?_middle before needle after

/-- A text with a line ending at its end at most. -/
def EndedAtMost (separator : Char) (line : Text) : Prop :=
  ∃ inner ending, line = inner ++ ending ∧ separator ∉ inner ∧
    (ending = [] ∨ ending = [separator])

theorem endedAtMost_of_mem_splitInclusive {separator : Char} {text line : Text}
    (member : line ∈ splitInclusive separator text) :
    EndedAtMost separator line := by
  induction text generalizing line with
  | nil =>
      cases member
  | cons head tail inductionHypothesis =>
      unfold splitInclusive at member
      split at member
      · rename_i ends
        rcases List.mem_cons.mp member with here | later
        · exact ⟨[], [separator], by rw [here, ends]; rfl, by simp,
            Or.inr rfl⟩
        · exact inductionHypothesis later
      · rename_i inner
        cases lines : splitInclusive separator tail with
        | nil =>
            rw [lines] at member
            have here := List.mem_singleton.mp member
            exact ⟨[head], [], by rw [here]; rfl,
              by simp [Ne.symm inner], Or.inl rfl⟩
        | cons first rest =>
            rw [lines] at member inductionHypothesis
            rcases List.mem_cons.mp member with here | later
            · obtain ⟨before, ending, shape, unbroken, last⟩ :=
                inductionHypothesis List.mem_cons_self
              exact ⟨head :: before, ending, by rw [here, shape]; rfl,
                by simp [Ne.symm inner, unbroken], last⟩
            · exact inductionHypothesis (List.mem_cons_of_mem first later)

/-- What follows a character that is no ending ends as the line does. -/
theorem EndedAtMost.tail {separator head : Char} {rest : Text}
    (ended : EndedAtMost separator (head :: rest))
    (other : head ≠ separator) : EndedAtMost separator rest := by
  obtain ⟨inner, ending, shape, unbroken, last⟩ := ended
  cases inner with
  | nil =>
      rw [List.nil_append] at shape
      rcases last with none | single
      · rw [none] at shape
        cases shape
      · rw [single] at shape
        cases shape
        exact absurd rfl other
  | cons first inner =>
      cases shape
      exact ⟨inner, ending, rfl, fun member =>
        unbroken (List.mem_cons_of_mem head member), last⟩

/-- Only the last character of a line can be its ending. -/
theorem EndedAtMost.getLast?_of_mem {separator : Char} {line part : Text}
    (ended : EndedAtMost separator line) (within : part <:+: line)
    (broken : separator ∈ part) : part.getLast? = some separator := by
  obtain ⟨inner, ending, shape, unbroken, last⟩ := ended
  rcases last with none | single
  · rw [none, List.append_nil] at shape
    rw [shape] at within
    exact absurd (within.subset broken) unbroken
  · obtain ⟨before, after, whole⟩ := within
    rw [shape, single] at whole
    cases after using List.reverseRecOn with
    | nil =>
        rw [List.append_nil] at whole
        have ends := congrArg List.getLast? whole
        have nonempty : part ≠ [] := List.ne_nil_of_mem broken
        rw [List.getLast?_append_of_ne_nil _ nonempty,
          List.getLast?_concat] at ends
        exact ends
    | append_singleton after final =>
        rw [← List.append_assoc] at whole
        have front := (List.append_inj' whole rfl).1
        have member : separator ∈ inner := by
          rw [← front]
          simp [broken]
        exact absurd member unbroken

/-- A trimmed part of a line has no ending. -/
theorem EndedAtMost.not_mem_trim {separator : Char} {line part : Text}
    (ended : EndedAtMost separator line) (within : part <:+: line)
    (blank : isWhitespace separator = true) : separator ∉ trim part := by
  intro broken
  have last :=
    ended.getLast?_of_mem ((trim_isInfix part).trans within) broken
  have nonempty : trim part ≠ [] := List.ne_nil_of_mem broken
  have visible :=
    List.rdropWhile_last_not isWhitespace
      (trimStartMatches isWhitespace part) nonempty
  rw [List.getLast?_eq_some_getLast nonempty] at last
  apply visible
  have isLast := Option.some.inj last
  exact (congrArg isWhitespace isLast).trans blank

/-- The lines of a text make up the text. -/
theorem flatten_splitInclusive (separator : Char) (text : Text) :
    (splitInclusive separator text).flatten = text := by
  induction text with
  | nil =>
      rfl
  | cons head tail inductionHypothesis =>
      unfold splitInclusive
      split
      · simp [inductionHypothesis]
      · cases lines : splitInclusive separator tail with
        | nil =>
            rw [lines] at inductionHypothesis
            simp [← inductionHypothesis]
        | cons line rest =>
            rw [lines] at inductionHypothesis
            simpa using inductionHypothesis

end Utf8
