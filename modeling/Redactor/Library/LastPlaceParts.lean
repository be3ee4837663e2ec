import Mathlib.Data.List.Sort
import Mathlib.Order.Basic
import Redactor.Library.LastPlace

/-!
# Selections part by part

Items lie in places that follow one another, and items of different places do
not clash.  What is selected in one place is then the selection of the items
that lie there.
-/

namespace LastPlace

section Sorting

variable {α : Type} {precedes : α → α → Prop} [DecidableRel precedes]

/-- An item that is not part of the list leaves the part as it is. -/
theorem filter_orderedInsert_of_not (part : α → Bool) {item : α}
    (outside : part item = false) (items : List α) :
    (items.orderedInsert precedes item).filter part = items.filter part := by
  induction items with
  | nil =>
      simp [outside]
  | cons head tail inductionHypothesis =>
      rw [List.orderedInsert_cons]
      split
      · rw [List.filter_cons_of_neg (by simp [outside])]
      · simp only [List.filter_cons, inductionHypothesis]

variable [IsTrans α precedes]

/-- An item that comes before all of the part is inserted in front. -/
theorem filter_orderedInsert_of_pos (part : α → Bool) {item : α}
    (inside : part item = true) {items : List α}
    (sorted : items.Pairwise precedes) :
    (items.orderedInsert precedes item).filter part =
      (items.filter part).orderedInsert precedes item := by
  induction items with
  | nil =>
      simp [inside]
  | cons head tail inductionHypothesis =>
      have later := List.pairwise_cons.mp sorted
      rw [List.orderedInsert_cons]
      split
      · rename_i first
        rw [List.filter_cons_of_pos inside]
        symm
        cases kept : (head :: tail).filter part with
        | nil =>
            rfl
        | cons front others =>
            apply List.orderedInsert_cons_of_le
            have member : front ∈ (head :: tail).filter part := by
              rw [kept]
              exact List.mem_cons_self
            rcases List.mem_cons.mp (List.mem_of_mem_filter member) with
              same | further
            · rw [same]
              exact first
            · exact IsTrans.trans _ _ _ first (later.1 front further)
      · rename_i notFirst
        by_cases kept : part head = true
        · rw [List.filter_cons_of_pos kept, List.filter_cons_of_pos kept,
            inductionHypothesis later.2,
            List.orderedInsert_of_not_le precedes _ notFirst]
        · rw [List.filter_cons_of_neg kept, List.filter_cons_of_neg kept,
            inductionHypothesis later.2]

variable [Std.Total precedes]

/-- A part of the sorted list is the sorted part of the list. -/
theorem filter_insertionSort (part : α → Bool) (items : List α) :
    (items.insertionSort precedes).filter part =
      (items.filter part).insertionSort precedes := by
  induction items with
  | nil =>
      rfl
  | cons head tail inductionHypothesis =>
      have sorted := List.pairwise_insertionSort precedes tail
      rw [List.insertionSort_cons]
      by_cases kept : part head = true
      · rw [filter_orderedInsert_of_pos part kept sorted,
          inductionHypothesis, List.filter_cons_of_pos kept,
          List.insertionSort_cons]
      · rw [filter_orderedInsert_of_not part (Bool.eq_false_iff.mpr kept),
          inductionHypothesis, List.filter_cons_of_neg kept]

end Sorting

section Selecting

variable {α κ : Type} [PartialOrder κ] [DecidableEq κ]
  {clash better : α → α → Bool} {place : α → κ}

/-- A place that has been left is not come back to. -/
theorem filter_of_left {held item : α} {rest : List α} {here : κ}
    (onward :
      (held :: item :: rest).Pairwise fun left right =>
        place left ≤ place right)
    (inside : place held = here) (next : ¬ place item = here) :
    (item :: rest).filter (place · = here) = [] := by
  have left : ∀ other ∈ item :: rest, ¬ place other = here := by
    intro other member isHere
    have fromThere : place item ≤ place other := by
      rcases List.mem_cons.mp member with same | later
      · rw [same]
      · exact (List.pairwise_cons.mp onward.of_cons).1 other later
    have toThere := (List.pairwise_cons.mp onward).1 item List.mem_cons_self
    rw [inside] at toThere
    rw [isHere] at fromThere
    exact next (le_antisymm fromThere toThere)
  simpa using left

theorem filter_selectFrom {held : α} {rest : List α} (here : κ)
    (onward :
      (held :: rest).Pairwise fun left right => place left ≤ place right)
    (apart :
      ∀ left ∈ held :: rest, ∀ right ∈ held :: rest,
        clash left right = true → place left = place right) :
    (selectFrom clash better held rest).filter (place · = here) =
      if place held = here then
        selectFrom clash better held (rest.filter (place · = here))
      else
        select clash better (rest.filter (place · = here)) := by
  induction rest generalizing held with
  | nil =>
      by_cases inside : place held = here
      · simp [selectFrom, inside]
      · simp [selectFrom, select, inside]
  | cons item rest inductionHypothesis =>
      have skipped :
          List.Sublist (held :: rest) (held :: item :: rest) :=
        (List.sublist_cons_self item rest).cons_cons held
      have fromHeld :=
        inductionHypothesis (onward.sublist skipped)
          fun left first right second =>
            apart left (skipped.subset first) right (skipped.subset second)
      have fromItem :=
        inductionHypothesis onward.of_cons
          fun left first right second =>
            apart left (List.mem_cons_of_mem held first) right
              (List.mem_cons_of_mem held second)
      by_cases clashes : clash held item = true
      · have together :=
          apart held List.mem_cons_self item (by simp) clashes
        by_cases preferred : better held item = true
        · have taken :
              selectFrom clash better held (item :: rest) =
                selectFrom clash better item rest := by
            simp [selectFrom, clashes, preferred]
          rw [taken, fromItem, together]
          by_cases inside : place item = here
          · simp [selectFrom, inside, clashes, preferred]
          · simp [inside]
        · have dropped :
              selectFrom clash better held (item :: rest) =
                selectFrom clash better held rest := by
            simp [selectFrom, clashes, preferred]
          rw [dropped, fromHeld, together]
          by_cases inside : place item = here
          · simp [selectFrom, inside, clashes, preferred]
          · simp [inside]
      · have opened :
            selectFrom clash better held (item :: rest) =
              held :: selectFrom clash better item rest := by
          simp [selectFrom, clashes]
        rw [opened]
        by_cases inside : place held = here
        · rw [List.filter_cons_of_pos (by simpa using inside), fromItem,
            if_pos inside]
          by_cases next : place item = here
          · simp [selectFrom, next, clashes]
          · have none := filter_of_left onward inside next
            have noneBehind : rest.filter (place · = here) = [] := by
              simpa [next] using none
            rw [none, noneBehind]
            simp [selectFrom, select, next]
        · rw [List.filter_cons_of_neg (by simpa using inside), fromItem,
            if_neg inside]
          by_cases next : place item = here
          · simp [select, next]
          · simp [next]

/-- The selection in one place is that of the items there. -/
theorem filter_select {items : List α} (here : κ)
    (onward : items.Pairwise fun left right => place left ≤ place right)
    (apart :
      ∀ left ∈ items, ∀ right ∈ items,
        clash left right = true → place left = place right) :
    (select clash better items).filter (place · = here) =
      select clash better (items.filter (place · = here)) := by
  cases items with
  | nil =>
      rfl
  | cons head tail =>
      have fromHead :=
        @filter_selectFrom _ _ _ _ clash better place head tail here onward
          apart
      rw [select, fromHead]
      by_cases inside : place head = here
      · simp [select, inside]
      · simp [inside]

end Selecting

end LastPlace
