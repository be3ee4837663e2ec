import Mathlib.Data.List.Infix
import Mathlib.Data.List.Basic
import Mathlib.Order.Basic
import Mathlib.Data.Nat.Find

/-!
# Texts with byte offsets

A text is the list of its characters.  Every offset is a byte offset into the
UTF-8 encoding, so an offset names a position of the list only when it falls on
a character boundary.  Cutting a text anywhere else has no result: this is
where a checked string slice aborts.

The last section finds the leftmost occurrence of a needle, which is what every
substring search returns.
-/

namespace Utf8

/-- A decoded text. -/
abbrev Text := List Char

/-- Texts are compared by their characters. -/
instance : LawfulBEq Text := inferInstance

/-- The text of a string literal. -/
def lit (literal : String) : Text :=
  literal.toList

/-- Length of the UTF-8 encoding. -/
def byteLen : Text → Nat
  | [] => 0
  | head :: tail => head.utf8Size + byteLen tail

@[simp]
theorem byteLen_nil : byteLen [] = 0 := rfl

@[simp]
theorem byteLen_cons (head : Char) (tail : Text) :
    byteLen (head :: tail) = head.utf8Size + byteLen tail := rfl

@[simp]
theorem byteLen_append (left right : Text) :
    byteLen (left ++ right) = byteLen left + byteLen right := by
  induction left with
  | nil =>
      simp
  | cons head tail inductionHypothesis =>
      simp only [List.cons_append, byteLen_cons, inductionHypothesis]
      omega

theorem byteLen_eq_zero {text : Text} :
    byteLen text = 0 ↔ text = [] := by
  cases text with
  | nil =>
      simp
  | cons head tail =>
      have positive := head.utf8Size_pos
      simp only [byteLen_cons, reduceCtorEq, iff_false]
      omega

theorem length_le_byteLen (text : Text) : text.length ≤ byteLen text := by
  induction text with
  | nil =>
      exact Nat.le_refl 0
  | cons head tail inductionHypothesis =>
      have positive := head.utf8Size_pos
      rw [List.length_cons, byteLen_cons]
      omega

/-- A text that is an initial part of another is no longer than it. -/
theorem byteLen_le_of_prefix {left right : Text}
    (initial : left <+: right) :
    byteLen left ≤ byteLen right := by
  obtain ⟨suffix, rfl⟩ := initial
  simp

/-- Cut a text at a byte offset; there is no result when the offset is past the
end or inside a character. -/
def splitBytes? : Nat → Text → Option (Text × Text)
  | 0, text => some ([], text)
  | _ + 1, [] => none
  | offset + 1, head :: tail =>
      if head.utf8Size ≤ offset + 1 then
        (splitBytes? (offset + 1 - head.utf8Size) tail).map
          fun parts => (head :: parts.1, parts.2)
      else
        none

theorem splitBytes?_byteLen_append (left right : Text) :
    splitBytes? (byteLen left) (left ++ right) = some (left, right) := by
  induction left with
  | nil =>
      cases right <;> rfl
  | cons head tail inductionHypothesis =>
      have positive := head.utf8Size_pos
      obtain ⟨below, size⟩ :
          ∃ below, head.utf8Size + byteLen tail = below + 1 :=
        ⟨head.utf8Size + byteLen tail - 1, by omega⟩
      rw [byteLen_cons, size, List.cons_append, splitBytes?]
      rw [if_pos (by omega), ← size, Nat.add_sub_cancel_left,
        inductionHypothesis]
      rfl

/-- Texts cut at the same byte agree on both sides of the cut. -/
theorem append_inj_of_byteLen {left right left' right' : Text}
    (size : byteLen left = byteLen left')
    (same : left ++ right = left' ++ right') :
    left = left' ∧ right = right' := by
  have cut := splitBytes?_byteLen_append left right
  rw [size, same, splitBytes?_byteLen_append, Option.some.injEq,
    Prod.mk.injEq] at cut
  exact ⟨cut.1.symm, cut.2.symm⟩

theorem splitBytes?_eq_some {offset : Nat} {text left right : Text} :
    splitBytes? offset text = some (left, right) ↔
      text = left ++ right ∧ byteLen left = offset := by
  constructor
  · intro split
    induction text generalizing offset left with
    | nil =>
        cases offset with
        | zero =>
            cases split
            simp
        | succ offset =>
            cases split
    | cons head tail inductionHypothesis =>
        cases offset with
        | zero =>
            cases split
            simp
        | succ offset =>
            rw [splitBytes?] at split
            split at split
            · obtain ⟨⟨tailLeft, tailRight⟩, tailSplit, equal⟩ :=
                Option.map_eq_some_iff.mp split
              cases equal
              obtain ⟨shape, size⟩ := inductionHypothesis tailSplit
              subst shape
              refine ⟨rfl, ?_⟩
              simp only [byteLen_cons]
              omega
            · cases split
  · rintro ⟨rfl, rfl⟩
    exact splitBytes?_byteLen_append left right

/-- An offset at which a text may be cut. -/
def IsCharBoundary (text : Text) (offset : Nat) : Prop :=
  ∃ left right, text = left ++ right ∧ byteLen left = offset

theorem isCharBoundary_iff {text : Text} {offset : Nat} :
    IsCharBoundary text offset ↔ (splitBytes? offset text).isSome := by
  constructor
  · rintro ⟨left, right, rfl, rfl⟩
    rw [splitBytes?_byteLen_append]
    rfl
  · intro isSome
    obtain ⟨parts, split⟩ := Option.isSome_iff_exists.mp isSome
    obtain ⟨shape, size⟩ := splitBytes?_eq_some.mp split
    exact ⟨parts.1, parts.2, shape, size⟩

instance (text : Text) (offset : Nat) :
    Decidable (IsCharBoundary text offset) :=
  decidable_of_iff _ isCharBoundary_iff.symm

/-- The bytes from `start` up to `finish`, when both are boundaries in
order. -/
def slice? (text : Text) (start finish : Nat) : Option Text :=
  if start ≤ finish then do
    let (_, rest) ← splitBytes? start text
    let (middle, _) ← splitBytes? (finish - start) rest
    pure middle
  else
    none

theorem slice?_eq_some {text middle : Text} {start finish : Nat} :
    slice? text start finish = some middle ↔
      ∃ left right, text = left ++ middle ++ right ∧
        byteLen left = start ∧ byteLen left + byteLen middle = finish := by
  constructor
  · intro sliced
    unfold slice? at sliced
    split at sliced
    · obtain ⟨⟨left, rest⟩, first, sliced⟩ :=
        Option.bind_eq_some_iff.mp sliced
      obtain ⟨⟨inner, right⟩, second, sliced⟩ :=
        Option.bind_eq_some_iff.mp sliced
      cases sliced
      obtain ⟨rfl, leftSize⟩ := splitBytes?_eq_some.mp first
      obtain ⟨rfl, innerSize⟩ := splitBytes?_eq_some.mp second
      exact ⟨left, right, by simp, leftSize, by omega⟩
    · cases sliced
  · rintro ⟨left, right, rfl, rfl, rfl⟩
    unfold slice?
    rw [if_pos (Nat.le_add_right _ _), List.append_assoc,
      splitBytes?_byteLen_append, Nat.add_sub_cancel_left]
    simp [splitBytes?_byteLen_append]

theorem slice?_middle (left middle right : Text) :
    slice? (left ++ (middle ++ right)) (byteLen left)
        (byteLen left + byteLen middle) = some middle :=
  slice?_eq_some.mpr ⟨left, right, by simp, rfl, rfl⟩

/-- Adjacent slices join. -/
theorem slice?_append {text first second : Text} {start middle finish : Nat}
    (left : slice? text start middle = some first)
    (right : slice? text middle finish = some second) :
    slice? text start finish = some (first ++ second) := by
  obtain ⟨before, rest, shape, startSize, middleSize⟩ :=
    slice?_eq_some.mp left
  obtain ⟨before', after, shape', middleSize', finishSize⟩ :=
    slice?_eq_some.mp right
  have cut := splitBytes?_byteLen_append (before ++ first) rest
  rw [← shape, byteLen_append, middleSize, ← middleSize', shape',
    List.append_assoc, splitBytes?_byteLen_append] at cut
  obtain ⟨rfl, _⟩ := Prod.mk.inj (Option.some.inj cut)
  refine slice?_eq_some.mpr ⟨before, after, ?_, startSize, ?_⟩
  · rw [shape']
    simp only [List.append_assoc]
  · simp only [byteLen_append] at finishSize ⊢
    omega

/-- The slice, empty where the checked slice has no result. -/
def slice (text : Text) (start finish : Nat) : Text :=
  (slice? text start finish).getD []

@[simp]
theorem slice_middle (left middle right : Text) :
    slice (left ++ (middle ++ right)) (byteLen left)
        (byteLen left + byteLen middle) = middle := by
  rw [slice, slice?_middle]
  rfl

theorem slice_left (left right : Text) :
    slice (left ++ right) 0 (byteLen left) = left := by
  have cut := slice_middle [] left right
  simpa using cut

theorem slice_right (left right : Text) :
    slice (left ++ right) (byteLen left) (byteLen (left ++ right)) =
      right := by
  have cut := slice_middle left right []
  simpa using cut

theorem slice_all (text : Text) :
    slice text 0 (byteLen text) = text := by
  have cut := slice_left text []
  simpa using cut

/-- The longest initial part of at most `limit` bytes, and the rest. -/
def splitWithin : Nat → Text → Text × Text
  | _, [] => ([], [])
  | limit, head :: tail =>
      if head.utf8Size ≤ limit then
        let parts := splitWithin (limit - head.utf8Size) tail
        (head :: parts.1, parts.2)
      else
        ([], head :: tail)

theorem splitWithin_append (limit : Nat) (text : Text) :
    (splitWithin limit text).1 ++ (splitWithin limit text).2 = text := by
  induction text generalizing limit with
  | nil =>
      rfl
  | cons head tail inductionHypothesis =>
      rw [splitWithin]
      split
      · simp [inductionHypothesis]
      · rfl

theorem splitWithin_of_byteLen_le {limit : Nat} {text : Text}
    (fits : byteLen text ≤ limit) :
    splitWithin limit text = (text, []) := by
  induction text generalizing limit with
  | nil =>
      rfl
  | cons head tail inductionHypothesis =>
      rw [byteLen_cons] at fits
      rw [splitWithin, if_pos (by omega),
        inductionHypothesis (by omega)]

/-- A text that does not fit is cut at most three bytes below the limit. -/
theorem limit_lt_byteLen_splitWithin {limit : Nat} {text : Text}
    (exceeds : limit < byteLen text) :
    limit < byteLen (splitWithin limit text).1 + 4 := by
  induction text generalizing limit with
  | nil =>
      simp at exceeds
  | cons head tail inductionHypothesis =>
      have small := head.utf8Size_le_four
      rw [byteLen_cons] at exceeds
      rw [splitWithin]
      split
      · have tailExceeds : limit - head.utf8Size < byteLen tail := by
          omega
        have tailBound := inductionHypothesis tailExceeds
        simp only [byteLen_cons]
        omega
      · simp only [byteLen_nil]
        omega

/-! ## The leftmost occurrence -/

/-- `needle` starts at no position of `text` below `bound`. -/
def NotBefore (needle text : Text) (bound : Nat) : Prop :=
  ∀ position, position < bound → ¬ needle <+: text.drop position

theorem notBefore_zero (needle text : Text) : NotBefore needle text 0 := by
  intro position inside
  omega

/-- The search returns the cut at the leftmost occurrence. -/
theorem dropInfix?_eq_some_iff_notBefore
    {needle text before after : Text} :
    text.dropInfix? needle = some (before, after) ↔
      text = before ++ (needle ++ after) ∧
        NotBefore needle text before.length := by
  rw [List.dropInfix?_eq_some_iff]
  constructor
  · rintro ⟨⟨same, shape, equal⟩, leftmost⟩
    have equal := eq_of_beq equal
    subst equal
    refine ⟨by simpa using shape, ?_⟩
    intro position inside occurs
    obtain ⟨rest, dropped⟩ := occurs
    have atPosition :
        text = text.take position ++ same ++ rest := by
      rw [List.append_assoc, dropped, List.take_append_drop]
    have bound := leftmost _ _ _ atPosition (beq_self_eq_true same)
    have short := List.length_take_le position text
    omega
  · rintro ⟨shape, first⟩
    refine ⟨⟨needle, by simpa using shape, beq_self_eq_true needle⟩, ?_⟩
    intro otherBefore same rest otherShape equal
    have equal := eq_of_beq equal
    subst equal
    apply Nat.le_of_not_lt
    intro shorter
    apply first otherBefore.length shorter
    rw [otherShape, List.append_assoc, List.drop_left]
    exact List.prefix_append _ _

/-- An occurrence has a leftmost one. -/
theorem exists_dropInfix?_of_infix {needle text : Text}
    (occurs : needle <:+: text) :
    ∃ before after, text.dropInfix? needle = some (before, after) := by
  have startsSomewhere : ∃ position, needle <+: text.drop position := by
    obtain ⟨before, after, rfl⟩ := occurs
    refine ⟨before.length, ?_⟩
    rw [List.append_assoc, List.drop_left]
    exact List.prefix_append _ _
  classical
  let position := Nat.find startsSomewhere
  obtain ⟨after, dropped⟩ := Nat.find_spec startsSomewhere
  by_cases inside : position ≤ text.length
  · refine ⟨text.take position, after,
      dropInfix?_eq_some_iff_notBefore.mpr ⟨?_, ?_⟩⟩
    · rw [dropped, List.take_append_drop]
    · rw [List.length_take, Nat.min_eq_left inside]
      intro earlier isEarlier
      exact Nat.find_min startsSomewhere isEarlier
  · have pastEnd : text.length ≤ position := by omega
    have lastWorks : needle <+: text.drop text.length := by
      have empty : text.drop position = [] := List.drop_of_length_le pastEnd
      rw [List.drop_length]
      rw [← empty]
      exact ⟨after, dropped⟩
    exact (inside (Nat.find_min' startsSomewhere lastWorks)).elim

theorem dropInfix?_eq_none_iff {needle text : Text} :
    text.dropInfix? needle = none ↔ ¬ needle <:+: text := by
  constructor
  · intro notFound occurs
    obtain ⟨before, after, found⟩ := exists_dropInfix?_of_infix occurs
    rw [notFound] at found
    cases found
  · intro absent
    cases search : text.dropInfix? needle with
    | none =>
        rfl
    | some parts =>
        obtain ⟨before, after⟩ := parts
        obtain ⟨shape, _⟩ := dropInfix?_eq_some_iff_notBefore.mp search
        exact (absent ⟨before, after, by simpa using shape.symm⟩).elim

theorem NotBefore.append {needle left right : Text} {bound : Nat}
    (notLeft : NotBefore needle (left ++ right) left.length)
    (notRight : NotBefore needle right bound) :
    NotBefore needle (left ++ right) (left.length + bound) := by
  intro position inside
  rcases Nat.lt_or_ge position left.length with early | late
  · exact notLeft position early
  · obtain ⟨further, rfl⟩ := Nat.exists_eq_add_of_le late
    rw [List.drop_length_add_append]
    exact notRight further (by omega)

/-- A search that fails behind a stretch where nothing starts fails
altogether. -/
theorem dropInfix?_append_eq_none {needle left right : Text}
    (notLeft : NotBefore needle (left ++ right) left.length)
    (absent : right.dropInfix? needle = none) :
    (left ++ right).dropInfix? needle = none := by
  rw [dropInfix?_eq_none_iff] at absent ⊢
  intro occurs
  obtain ⟨before, after, shape⟩ := occurs
  have starts : needle <+: (left ++ right).drop before.length := by
    rw [← shape, List.append_assoc, List.drop_left]
    exact List.prefix_append _ _
  rcases Nat.lt_or_ge before.length left.length with early | late
  · exact notLeft before.length early starts
  · obtain ⟨further, size⟩ := Nat.exists_eq_add_of_le late
    rw [size, List.drop_length_add_append] at starts
    exact absent (starts.isInfix.trans (List.drop_suffix _ _).isInfix)

/-- No proper tail of the text is also its beginning. -/
def Borderless (text : Text) : Prop :=
  ∀ position, 0 < position → position < text.length →
    ¬ text.drop position <+: text

/-- In front of a borderless needle no other occurrence begins, when the text
before it has none. -/
theorem Borderless.notBefore {needle before after : Text}
    (borderless : Borderless needle) (absent : ¬ needle <:+: before) :
    NotBefore needle (before ++ (needle ++ after)) before.length := by
  intro position inside occurs
  rw [List.drop_append_of_le_length (by omega)] at occurs
  rcases Nat.lt_or_ge (before.drop position).length needle.length with
    short | long
  · -- the occurrence ends inside the needle, and leaves a border
    obtain ⟨tail, rfl⟩ :=
      List.prefix_of_prefix_length_le (List.prefix_append _ _) occurs
        (by omega)
    have tailPrefix := (List.prefix_append_right_inj _).mp occurs
    refine borderless (before.drop position).length ?_ ?_ ?_
    · rw [List.length_drop]
      omega
    · exact short
    · rw [List.drop_left]
      exact List.prefix_of_prefix_length_le tailPrefix
        (List.prefix_append _ _) (by simp)
  · have inBefore : needle <+: before.drop position :=
      List.prefix_of_prefix_length_le occurs (List.prefix_append _ _) long
    exact absent (inBefore.isInfix.trans (List.drop_suffix _ _).isInfix)

/-- A needle does not begin where its first character does not occur. -/
theorem notBefore_of_not_mem {head : Char} {tail before after : Text}
    (absent : head ∉ before) :
    NotBefore (head :: tail) (before ++ after) before.length := by
  intro position inside occurs
  obtain ⟨rest, shape⟩ := occurs
  have first := congrArg List.head? shape
  have nonempty : before.drop position ≠ [] := by
    rw [ne_eq, List.drop_eq_nil_iff]
    omega
  rw [List.cons_append, List.head?_cons,
    List.drop_append_of_le_length (by omega),
    List.head?_append_of_ne_nil _ nonempty] at first
  exact absent (List.mem_of_mem_drop (List.mem_of_mem_head? first.symm))

/-- No occurrence runs into a character that the needle does not have. -/
theorem notBefore_of_foreign {needle before after : Text} {head : Char}
    (absent : ¬ needle <:+: before) (foreign : head ∉ needle) :
    NotBefore needle (before ++ head :: after) before.length := by
  intro position inside occurs
  rw [List.drop_append_of_le_length (by omega)] at occurs
  rcases Nat.lt_or_ge (before.drop position).length needle.length with
    short | long
  · have reaches : before.drop position ++ [head] <+: needle := by
      refine List.prefix_of_prefix_length_le ?_ occurs ?_
      · exact ⟨after, by simp⟩
      · rw [List.length_append, List.length_singleton]
        omega
    exact foreign (reaches.subset (by simp))
  · have inBefore : needle <+: before.drop position :=
      List.prefix_of_prefix_length_le occurs (List.prefix_append _ _) long
    exact absent (inBefore.isInfix.trans (List.drop_suffix _ _).isInfix)

/-- Of two cuts of one text, the one with the shorter left part. -/
theorem append_of_byteLen_le {first second third fourth : Text}
    (same : first ++ second = third ++ fourth)
    (fits : byteLen first ≤ byteLen third) :
    ∃ between, third = first ++ between ∧ second = between ++ fourth := by
  rcases List.append_eq_append_iff.mp same with longer | shorter
  · exact longer
  · obtain ⟨extra, isFirst, isFourth⟩ := shorter
    have empty : extra = [] := by
      rw [isFirst, byteLen_append] at fits
      exact byteLen_eq_zero.mp (by omega)
    refine ⟨[], ?_, ?_⟩
    · rw [isFirst, empty, List.append_nil, List.append_nil]
    · rw [isFourth, empty]
      rfl

/-- Occurrences of two needles without a common character do not overlap. -/
theorem apart_of_no_common {first second : Text}
    {before after before' after' : Text}
    (nonempty : first ≠ []) (nonempty' : second ≠ [])
    (noCommon : ∀ head ∈ first, head ∉ second)
    (same :
      before ++ (first ++ after) = before' ++ (second ++ after')) :
    (∃ between, before' = before ++ (first ++ between) ∧
        after = between ++ (second ++ after')) ∨
      ∃ between, before = before' ++ (second ++ between) ∧
        after' = between ++ (first ++ after) := by
  obtain ⟨head, tail, rfl⟩ := List.exists_cons_of_ne_nil nonempty
  obtain ⟨head', tail', rfl⟩ := List.exists_cons_of_ne_nil nonempty'
  rcases List.append_eq_append_iff.mp same with
    ⟨front, isBefore, isRest⟩ | ⟨front, isBefore, isRest⟩
  · left
    rcases List.append_eq_append_iff.mp isRest with
      ⟨between, isFront, isAfter⟩ | ⟨back, isFirst, isAfter⟩
    · exact ⟨between, by rw [isBefore, isFront], isAfter⟩
    · cases back with
      | nil =>
          rw [List.append_nil] at isFirst
          exact ⟨[], by rw [isBefore, isFirst, List.append_nil],
            by rw [List.nil_append, isAfter, List.nil_append]⟩
      | cons shared others =>
          have sharedSame : head' = shared := (List.cons.inj isAfter).1
          exact absurd (by simp)
            (noCommon head' (by rw [isFirst, sharedSame]; simp))
  · right
    rcases List.append_eq_append_iff.mp isRest with
      ⟨between, isFront, isAfter⟩ | ⟨back, isSecond, isAfter⟩
    · exact ⟨between, by rw [isBefore, isFront], isAfter⟩
    · cases back with
      | nil =>
          rw [List.append_nil] at isSecond
          exact ⟨[], by rw [isBefore, isSecond, List.append_nil],
            by rw [List.nil_append, isAfter, List.nil_append]⟩
      | cons shared others =>
          have sharedSame : head = shared := (List.cons.inj isAfter).1
          exact absurd (by rw [isSecond, sharedSame]; simp)
            (noCommon head (by simp))

theorem byteLen_replicate (count : Nat) (head : Char) :
    byteLen (List.replicate count head) = count * head.utf8Size := by
  induction count with
  | zero =>
      simp
  | succ count inductionHypothesis =>
      rw [List.replicate_succ, byteLen_cons, inductionHypothesis,
        Nat.succ_mul, Nat.add_comm]

theorem byteLen_splitWithin_le (limit : Nat) (text : Text) :
    byteLen (splitWithin limit text).1 ≤ limit := by
  induction text generalizing limit with
  | nil =>
      exact Nat.zero_le limit
  | cons head tail inductionHypothesis =>
      rw [splitWithin]
      by_cases fits : head.utf8Size ≤ limit
      · have tailFits := inductionHypothesis (limit - head.utf8Size)
        rw [if_pos fits]
        simp only [byteLen_cons]
        omega
      · rw [if_neg fits]
        exact Nat.zero_le limit

/-- Byte offset of the leftmost occurrence. -/
def find? (text needle : Text) : Option Nat :=
  (text.dropInfix? needle).map fun parts => byteLen parts.1

/-- Whether `needle` occurs in `text`. -/
def contains (text needle : Text) : Bool :=
  (text.dropInfix? needle).isSome

theorem contains_iff {text needle : Text} :
    contains text needle = true ↔ needle <:+: text := by
  rw [contains, Option.isSome_iff_ne_none, Ne, dropInfix?_eq_none_iff,
    not_not]

theorem not_mem_of_mem_splitOn {separator : Char} {text field : Text}
    (member : field ∈ text.splitOn separator) :
    separator ∉ field := by
  induction text generalizing field with
  | nil =>
      rw [List.splitOn_nil, List.mem_singleton] at member
      simp [member]
  | cons head tail inductionHypothesis =>
      rw [List.splitOn_cons_eq_if_modifyHead] at member
      split at member
      · rcases List.mem_cons.mp member with rfl | later
        · simp
        · exact inductionHypothesis later
      · rename_i different
        cases fields : tail.splitOn separator with
        | nil =>
            exact (List.splitOn_ne_nil separator tail fields).elim
        | cons first rest =>
            rw [fields, List.modifyHead_cons, List.mem_cons] at member
            rcases member with rfl | later
            · have fromTail : separator ∉ first :=
                inductionHypothesis (by simp [fields])
              intro inside
              rcases List.mem_cons.mp inside with rfl | inFirst
              · simp at different
              · exact fromTail inFirst
            · exact inductionHypothesis (by simp [fields, later])

end Utf8
