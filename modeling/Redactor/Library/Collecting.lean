import Mathlib.Data.List.Basic

/-!
# Collecting what is new

The items of a list whose keys have not been seen, each key once.  What is
collected has new keys only, and afterwards every key of the list is known.
-/

namespace Collecting

variable {α κ : Type*} [DecidableEq κ] (key : α → κ)

/-- The items with new keys; `known` are the keys seen so far. -/
def collectNew : List κ → List α → List α
  | _, [] => []
  | known, item :: items =>
      if key item ∈ known then
        collectNew known items
      else
        item :: collectNew (key item :: known) items

variable {key} {known : List κ} {items : List α}

theorem mem_of_mem_collectNew {item : α}
    (collected : item ∈ collectNew key known items) : item ∈ items := by
  induction items generalizing known with
  | nil =>
      cases collected
  | cons head tail inductionHypothesis =>
      rw [collectNew] at collected
      split at collected
      · exact List.mem_cons_of_mem head (inductionHypothesis collected)
      · rcases List.mem_cons.mp collected with rfl | later
        · exact List.mem_cons_self
        · exact List.mem_cons_of_mem head (inductionHypothesis later)

/-- What is collected has no known key. -/
theorem key_not_mem_of_mem_collectNew {item : α}
    (collected : item ∈ collectNew key known items) : key item ∉ known := by
  induction items generalizing known with
  | nil =>
      cases collected
  | cons head tail inductionHypothesis =>
      rw [collectNew] at collected
      split at collected
      · exact inductionHypothesis collected
      · rename_i fresh
        rcases List.mem_cons.mp collected with rfl | later
        · exact fresh
        · exact fun seen =>
            inductionHypothesis later (List.mem_cons_of_mem _ seen)

/-- No key is collected twice. -/
theorem nodup_keys_collectNew :
    ((collectNew key known items).map key).Nodup := by
  induction items generalizing known with
  | nil =>
      exact List.nodup_nil
  | cons head tail inductionHypothesis =>
      rw [collectNew]
      split
      · exact inductionHypothesis
      · rw [List.map_cons, List.nodup_cons]
        refine ⟨?_, inductionHypothesis⟩
        intro again
        obtain ⟨item, collected, same⟩ := List.mem_map.mp again
        apply key_not_mem_of_mem_collectNew collected
        rw [same]
        exact List.mem_cons_self

/-- Every key is known, or has been collected. -/
theorem key_mem_of_mem {item : α} (member : item ∈ items) :
    key item ∈ known ∨ ∃ collected ∈ collectNew key known items,
      key collected = key item := by
  induction items generalizing known with
  | nil =>
      cases member
  | cons head tail inductionHypothesis =>
      rw [collectNew]
      rcases List.mem_cons.mp member with rfl | later
      · split
        · rename_i seen
          exact Or.inl seen
        · exact Or.inr ⟨item, List.mem_cons_self, rfl⟩
      · split
        · exact inductionHypothesis later
        · rcases @inductionHypothesis (key head :: known) later with
            seen | ⟨collected, listed, same⟩
          · rcases List.mem_cons.mp seen with isHead | earlier
            · exact Or.inr ⟨head, List.mem_cons_self, isHead.symm⟩
            · exact Or.inl earlier
          · exact Or.inr ⟨collected, List.mem_cons_of_mem head listed, same⟩

/-- Nothing is collected where all keys are known. -/
theorem collectNew_eq_nil (seen : ∀ item ∈ items, key item ∈ known) :
    collectNew key known items = [] := by
  apply List.eq_nil_iff_forall_not_mem.mpr
  intro item collected
  exact key_not_mem_of_mem_collectNew collected
    (seen item (mem_of_mem_collectNew collected))

end Collecting
