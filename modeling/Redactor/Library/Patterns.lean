import Mathlib.Data.List.Forall2
import Mathlib.Data.Multiset.MapFold
import Mathlib.Logic.Relator

/-!
# Patterns of repetition

Two lists have one pattern when each repeats an element exactly where the other
does.  The elements that stand at the same places are then partners, one to
one.  Lists without repetition whose elements are partners agree up to order,
as far as partners agree.
-/

namespace Patterns

open Relator

variable {α β : Type*}

/-- The two elements stand at the same place of the two lists. -/
def Abreast (left : List α) (right : List β) (a : α) (b : β) : Prop :=
  (a, b) ∈ left.zip right

/-- Each list repeats an element where the other one does. -/
structure SamePattern (left : List α) (right : List β) : Prop where
  length : left.length = right.length
  repeats :
    ∀ a b c d, Abreast left right a b → Abreast left right c d →
      (a = c ↔ b = d)

theorem SamePattern.biUnique {left : List α} {right : List β}
    (same : SamePattern left right) : BiUnique (Abreast left right) := by
  constructor
  · intro a c b here there
    exact (same.repeats a b c b here there).mpr rfl
  · intro a b d here there
    exact (same.repeats a b a d here there).mp rfl

section Abreast

theorem forall₂_iff_abreast {partners : α → β → Prop} {left : List α}
    {right : List β} :
    List.Forall₂ partners left right ↔
      left.length = right.length ∧
        ∀ a b, Abreast left right a b → partners a b :=
  List.forall₂_iff_zip

theorem abreast_append {left left' : List α} {right right' : List β}
    (length : left.length = right.length) {a : α} {b : β} :
    Abreast (left ++ left') (right ++ right') a b ↔
      Abreast left right a b ∨ Abreast left' right' a b := by
  unfold Abreast
  rw [List.zip_append length, List.mem_append]

theorem abreast_self {items : List α} {a b : α} :
    Abreast items items a b ↔ a ∈ items ∧ a = b := by
  unfold Abreast
  rw [List.zip_eq_zipWith, List.zipWith_self]
  simp only [List.mem_map, Prod.mk.injEq]
  constructor
  · rintro ⟨item, member, rfl, rfl⟩
    exact ⟨member, rfl⟩
  · rintro ⟨member, rfl⟩
    exact ⟨a, member, rfl, rfl⟩

theorem abreast_map {γ δ : Type*} {left : List α} {right : List β}
    {f : α → γ} {g : β → δ} {c : γ} {d : δ} :
    Abreast (left.map f) (right.map g) c d ↔
      ∃ a b, Abreast left right a b ∧ f a = c ∧ g b = d := by
  unfold Abreast
  rw [List.zip_map, List.mem_map]
  simp only [Prod.exists, Prod.map_apply, Prod.mk.injEq]

/-- Lists whose elements are partners one to one have one pattern. -/
theorem samePattern_of_forall₂ {partners : α → β → Prop}
    (biUnique : BiUnique partners) {left : List α} {right : List β}
    (related : List.Forall₂ partners left right) :
    SamePattern left right where
  length := related.length_eq
  repeats := by
    intro a b c d here there
    have pair := (forall₂_iff_abreast.mp related).2
    constructor
    · rintro rfl
      exact biUnique.2 (pair _ _ here) (pair _ _ there)
    · rintro rfl
      exact biUnique.1 (pair _ _ here) (pair _ _ there)

theorem exists_left_of_forall₂ {partners : α → β → Prop} {left : List α}
    {right : List β} (related : List.Forall₂ partners left right) {b : β}
    (member : b ∈ right) : ∃ a ∈ left, partners a b := by
  obtain ⟨index, bound, rfl⟩ := List.mem_iff_getElem.mp member
  have within : index < left.length := by
    rw [related.length_eq]
    exact bound
  exact ⟨_, List.getElem_mem within, related.get within bound⟩

/-- Lists with partners in one list are partners of each other. -/
theorem forall₂_of_common {γ : Type*} {partners : α → γ → Prop}
    {partners' : β → γ → Prop} {left : List α} {right : List β}
    {common : List γ} (related : List.Forall₂ partners left common)
    (related' : List.Forall₂ partners' right common) :
    List.Forall₂ (fun a b => ∃ c, partners a c ∧ partners' b c) left
      right := by
  induction related generalizing right with
  | nil =>
      cases related'
      exact .nil
  | cons pair _ inductionHypothesis =>
      cases related' with
      | cons pair' rest =>
          exact .cons ⟨_, pair, pair'⟩ (inductionHypothesis rest)

theorem map_eq_map_iff_forall₂ {γ : Type*} {f : α → γ} {g : β → γ}
    {left : List α} {right : List β} :
    left.map f = right.map g ↔
      List.Forall₂ (fun a b => f a = g b) left right := by
  rw [← List.forall₂_eq_eq_eq, List.forall₂_map_left_iff,
    List.forall₂_map_right_iff]

/-- Chunks of the same lengths keep the elements abreast. -/
theorem forall₂_of_chunks {γ δ : Type*} {chunk : γ → List α}
    {chunk' : δ → List β} {partners : α → β → Prop} {left : List γ}
    {right : List δ}
    (lengths :
      List.Forall₂ (fun l r => (chunk l).length = (chunk' r).length) left
        right)
    (abreast :
      ∀ a b, Abreast (left.flatMap chunk) (right.flatMap chunk') a b →
        partners a b) :
    List.Forall₂ (fun l r => List.Forall₂ partners (chunk l) (chunk' r))
      left right := by
  induction lengths with
  | nil =>
      exact .nil
  | @cons l r left right length _ inductionHypothesis =>
      simp only [List.flatMap_cons, abreast_append length] at abreast
      refine .cons ?_ (inductionHypothesis ?_)
      · rw [forall₂_iff_abreast]
        exact ⟨length, fun a b here => abreast a b (Or.inl here)⟩
      · intro a b later
        exact abreast a b (Or.inr later)

end Abreast

section Partners

variable {partners : α → β → Prop}

/-- Lists without repetition in which every element has its only partner in
the other list. -/
theorem rel_of_partners (biUnique : BiUnique partners) {left : List α}
    {right : List β} (leftNodup : left.Nodup) (rightNodup : right.Nodup)
    (forward : ∀ a ∈ left, ∃ b ∈ right, partners a b)
    (backward : ∀ b ∈ right, ∃ a ∈ left, partners a b) :
    Multiset.Rel partners (left : Multiset α) (right : Multiset β) := by
  induction left generalizing right with
  | nil =>
      have empty : right = [] := by
        refine List.eq_nil_iff_forall_not_mem.mpr ?_
        intro b member
        obtain ⟨a, absent, _⟩ := backward b member
        exact absurd absent List.not_mem_nil
      rw [empty]
      exact .zero
  | cons head tail inductionHypothesis =>
      obtain ⟨headNew, tailNodup⟩ := List.nodup_cons.mp leftNodup
      obtain ⟨partner, member, paired⟩ := forward head List.mem_cons_self
      obtain ⟨before, after, rfl⟩ := List.append_of_mem member
      have moved :
          (before ++ partner :: after).Perm (partner :: (before ++ after)) :=
        List.perm_middle
      obtain ⟨partnerNew, restNodup⟩ :=
        List.nodup_cons.mp (moved.nodup_iff.mp rightNodup)
      rw [Multiset.coe_eq_coe.mpr moved]
      refine .cons paired (inductionHypothesis tailNodup restNodup ?_ ?_)
      · intro a later
        obtain ⟨b, inRight, isPartner⟩ :=
          forward a (List.mem_cons_of_mem _ later)
        rcases List.mem_cons.mp (moved.mem_iff.mp inRight) with same | rest
        · rw [same] at isPartner
          rw [biUnique.1 isPartner paired] at later
          exact absurd later headNew
        · exact ⟨b, rest, isPartner⟩
      · intro b rest
        obtain ⟨a, inLeft, isPartner⟩ :=
          backward b (moved.mem_iff.mpr (List.mem_cons_of_mem _ rest))
        rcases List.mem_cons.mp inLeft with same | later
        · rw [same] at isPartner
          rw [biUnique.2 isPartner paired] at rest
          exact absurd rest partnerNew
        · exact ⟨a, later, isPartner⟩

/-- What partners have in common, the lists have in common up to order. -/
theorem perm_map_of_rel {γ : Type*} {left : List α} {right : List β}
    (related : Multiset.Rel partners (left : Multiset α) (right : Multiset β))
    {f : α → γ} {g : β → γ} (agree : ∀ a b, partners a b → f a = g b) :
    (left.map f).Perm (right.map g) := by
  have same :
      Multiset.Rel Eq (Multiset.map f left) (Multiset.map g right) :=
    Multiset.rel_map.mpr (related.mono fun a _ b _ paired => agree a b paired)
  rw [Multiset.rel_eq, Multiset.map_coe, Multiset.map_coe] at same
  exact Multiset.coe_eq_coe.mp same

/-- Elements of lists that are equal up to order are equal when they agree in a
field without repetition. -/
theorem eq_of_perm_map {γ δ : Type*} {left : List α} {right : List β}
    {f : α → γ} {g : β → γ} (field : γ → δ)
    (nodup : (right.map (field ∘ g)).Nodup)
    (permuted : (left.map f).Perm (right.map g)) {a : α} {b : β}
    (inLeft : a ∈ left) (inRight : b ∈ right)
    (agree : field (f a) = field (g b)) :
    f a = g b := by
  obtain ⟨c, member, same⟩ :=
    List.mem_map.mp (permuted.mem_iff.mp (List.mem_map_of_mem inLeft))
  have itself : c = b := by
    refine List.inj_on_of_nodup_map nodup member inRight ?_
    rw [Function.comp, Function.comp, same, agree]
  rw [← same, itself]

end Partners

end Patterns
