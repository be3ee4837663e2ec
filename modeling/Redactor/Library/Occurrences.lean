import Redactor.Library.Utf8

/-!
# Occurrences

The number of places where a needle starts, and their offsets.  Joining texts
loses no occurrence and can only add those that run across the joint.
-/

namespace Utf8

variable {needle : Text}

/-- The number of positions at which the needle starts; overlapping occurrences
count separately. -/
def occurrences (needle : Text) : Text → Nat
  | [] => 0
  | head :: tail =>
      (if needle <+: head :: tail then 1 else 0) + occurrences needle tail

@[simp]
theorem occurrences_nil : occurrences needle [] = 0 := rfl

/-- An occurrence at the joint of three texts is counted once more than in the
parts. -/
theorem occurrences_add_le_add (left middle right : Text) :
    occurrences needle (left ++ middle) +
        occurrences needle (middle ++ right) ≤
      occurrences needle (left ++ (middle ++ right)) +
        occurrences needle middle := by
  induction left with
  | nil =>
      rw [List.nil_append, List.nil_append, Nat.add_comm]
  | cons head tail inductionHypothesis =>
      simp only [List.cons_append, occurrences]
      have longer :
          needle <+: head :: (tail ++ middle) →
            needle <+: head :: (tail ++ (middle ++ right)) := by
        intro starts
        refine starts.trans ?_
        rw [← List.append_assoc, ← List.cons_append, ← List.cons_append]
        exact List.prefix_append _ _
      split <;> split <;> first | omega | exact absurd (longer ‹_›) ‹_›

/-- The parts have no more occurrences than the whole. -/
theorem occurrences_add_le (left right : Text) :
    occurrences needle left + occurrences needle right ≤
      occurrences needle (left ++ right) := by
  have joined := @occurrences_add_le_add needle left [] right
  rwa [List.append_nil, List.nil_append, occurrences_nil, Nat.add_zero]
    at joined

/-- Text in front adds no occurrence exactly when none starts in it. -/
theorem occurrences_append_eq_iff {left right : Text} :
    occurrences needle (left ++ right) = occurrences needle right ↔
      NotBefore needle (left ++ right) left.length := by
  induction left with
  | nil =>
      exact iff_of_true rfl (notBefore_zero needle right)
  | cons head tail inductionHypothesis =>
      have rest := @occurrences_add_le needle tail right
      have split :
          NotBefore needle (head :: (tail ++ right)) (tail.length + 1) ↔
            ¬ needle <+: head :: (tail ++ right) ∧
              NotBefore needle (tail ++ right) tail.length := by
        constructor
        · intro nowhere
          refine ⟨nowhere 0 (Nat.succ_pos _), ?_⟩
          intro position inside
          exact nowhere (position + 1) (by omega)
        · rintro ⟨notHere, notLater⟩ position inside
          cases position with
          | zero =>
              exact notHere
          | succ position =>
              exact notLater position (by omega)
      rw [List.cons_append, List.length_cons, split, ← inductionHypothesis,
        occurrences]
      split
      · rename_i starts
        refine iff_of_false ?_ ?_
        · omega
        · exact fun parts => parts.1 starts
      · rename_i notHere
        rw [Nat.zero_add]
        exact (and_iff_right notHere).symm

theorem occurrences_of_absent {text : Text} (absent : ¬ needle <:+: text) :
    occurrences needle text = 0 := by
  have nowhere : NotBefore needle (text ++ []) text.length := by
    intro position _ starts
    rw [List.append_nil] at starts
    exact absent (starts.isInfix.trans (List.drop_suffix _ _).isInfix)
  have counted := occurrences_append_eq_iff.mpr nowhere
  rwa [List.append_nil] at counted

/-- A needle counts itself. -/
theorem one_le_occurrences (nonempty : needle ≠ []) (after : Text) :
    1 ≤ occurrences needle (needle ++ after) := by
  cases needle with
  | nil =>
      exact absurd rfl nonempty
  | cons head tail =>
      have starts : head :: tail <+: head :: (tail ++ after) :=
        List.prefix_append (head :: tail) after
      rw [List.cons_append, occurrences, if_pos starts]
      omega

/-- When no occurrence runs across the end of the first part, none runs across
the end of what is left of it. -/
theorem occurrences_append_of_tail {front middle right : Text}
    (apart :
      occurrences needle (front ++ (middle ++ right)) =
        occurrences needle (front ++ middle) + occurrences needle right) :
    occurrences needle (middle ++ right) =
      occurrences needle middle + occurrences needle right := by
  have joined := @occurrences_add_le_add needle front middle right
  have parts := @occurrences_add_le needle middle right
  omega

/-- An occurrence of the needle begins at the byte offset. -/
def StartsAt (needle text : Text) (offset : Nat) : Prop :=
  ∃ before after, text = before ++ (needle ++ after) ∧
    byteLen before = offset

/-- The byte offsets at which the needle starts, the first character of the
text being at `offset`; occurrences may overlap. -/
def placesFrom (needle : Text) : Nat → Text → List Nat
  | _, [] => []
  | offset, head :: tail =>
      if needle <+: head :: tail then
        offset :: placesFrom needle (offset + head.utf8Size) tail
      else
        placesFrom needle (offset + head.utf8Size) tail

theorem placesFrom_of_notBefore {before after : Text} (offset : Nat)
    (nowhere : NotBefore needle (before ++ after) before.length) :
    placesFrom needle offset (before ++ after) =
      placesFrom needle (offset + byteLen before) after := by
  induction before generalizing offset with
  | nil =>
      rfl
  | cons head tail inductionHypothesis =>
      have notHere : ¬ needle <+: head :: (tail ++ after) :=
        nowhere 0 (Nat.succ_pos _)
      have notLater : NotBefore needle (tail ++ after) tail.length := by
        intro position inside
        exact nowhere (position + 1) (Nat.succ_lt_succ inside)
      rw [List.cons_append, placesFrom, if_neg notHere,
        inductionHypothesis _ notLater, byteLen_cons, Nat.add_assoc]

theorem placesFrom_of_absent {text : Text} (offset : Nat)
    (absent : ¬ needle <:+: text) : placesFrom needle offset text = [] := by
  have nowhere : NotBefore needle (text ++ []) text.length := by
    intro position _ starts
    rw [List.append_nil] at starts
    exact absent (starts.isInfix.trans (List.drop_suffix _ _).isInfix)
  have skipped := placesFrom_of_notBefore offset nowhere
  rwa [List.append_nil] at skipped

theorem mem_placesFrom (nonempty : needle ≠ []) {text : Text}
    {offset place : Nat} :
    place ∈ placesFrom needle offset text ↔
      ∃ before after, text = before ++ (needle ++ after) ∧
        offset + byteLen before = place := by
  induction text generalizing offset with
  | nil =>
      constructor
      · intro listed
        cases listed
      · rintro ⟨before, after, parts, _⟩
        have empty := (List.append_eq_nil_iff.mp parts.symm).2
        exact absurd (List.append_eq_nil_iff.mp empty).1 nonempty
  | cons head tail inductionHypothesis =>
      have later :
          (∃ before after, tail = before ++ (needle ++ after) ∧
              offset + head.utf8Size + byteLen before = place) ↔
            ∃ before after, before ≠ [] ∧
              head :: tail = before ++ (needle ++ after) ∧
              offset + byteLen before = place := by
        constructor
        · rintro ⟨before, after, parts, length⟩
          refine ⟨head :: before, after, List.cons_ne_nil _ _, ?_, ?_⟩
          · rw [parts, List.cons_append]
          · rw [byteLen_cons, ← Nat.add_assoc, length]
        · rintro ⟨before, after, behind, parts, length⟩
          cases before with
          | nil =>
              exact absurd rfl behind
          | cons first before =>
              rw [List.cons_append, List.cons.injEq] at parts
              obtain ⟨rfl, parts⟩ := parts
              refine ⟨before, after, parts, ?_⟩
              rw [← length, byteLen_cons, Nat.add_assoc]
      by_cases here : needle <+: head :: tail
      · obtain ⟨after, parts⟩ := here
        rw [placesFrom, if_pos ⟨after, parts⟩, List.mem_cons,
          inductionHypothesis, later]
        constructor
        · rintro (rfl | ⟨before, after, _, found⟩)
          · exact ⟨[], after, parts.symm, rfl⟩
          · exact ⟨before, after, found⟩
        · rintro ⟨before, after, found, length⟩
          by_cases front : before = []
          · left
            rw [← length, front, byteLen_nil, Nat.add_zero]
          · right
            exact ⟨before, after, front, found, length⟩
      · rw [placesFrom, if_neg here, inductionHypothesis, later]
        constructor
        · rintro ⟨before, after, _, found⟩
          exact ⟨before, after, found⟩
        · rintro ⟨before, after, found, length⟩
          refine ⟨before, after, ?_, found, length⟩
          intro front
          rw [front, List.nil_append] at found
          exact here ⟨after, found.symm⟩

theorem mem_places (nonempty : needle ≠ []) {text : Text} {place : Nat} :
    place ∈ placesFrom needle 0 text ↔ StartsAt needle text place := by
  rw [mem_placesFrom nonempty]
  simp only [Nat.zero_add, StartsAt]

theorem pairwise_placesFrom (nonempty : needle ≠ []) (offset : Nat)
    (text : Text) :
    (placesFrom needle offset text).Pairwise (· < ·) := by
  induction text generalizing offset with
  | nil =>
      exact List.Pairwise.nil
  | cons head tail inductionHypothesis =>
      rw [placesFrom]
      split
      · refine List.Pairwise.cons ?_ (inductionHypothesis _)
        intro place listed
        obtain ⟨before, after, _, length⟩ := (mem_placesFrom nonempty).mp listed
        have positive := head.utf8Size_pos
        omega
      · exact inductionHypothesis _

end Utf8
