import Mathlib.Data.List.Chain
import Redactor.Library.LastPlace

/-!
# Whole selections through the last place

`LastPlace` says of single items whether they are selected.  This module is
about the selected list: its length, what becomes of it when it is read again,
and which orders of the items lead to the same list.
-/

namespace LastPlace

section Lists

variable {α : Type} (clash better : α → α → Bool)

/-- The item that has the last place after a list has been read. -/
def holder : List α → Option α
  | [] => none
  | first :: rest => some (holderFrom clash better first rest)

/-- How many items are dropped when their turn comes. -/
def droppedFrom (held : α) : List α → Nat
  | [] => 0
  | item :: rest =>
      if clash held item then
        if better held item then
          droppedFrom item rest
        else
          droppedFrom held rest + 1
      else
        droppedFrom item rest

def dropped : List α → Nat
  | [] => 0
  | first :: rest => droppedFrom clash better first rest

/-- How often an item takes the last place from another one. -/
def replacedFrom (held : α) : List α → Nat
  | [] => 0
  | item :: rest =>
      if clash held item then
        if better held item then
          replacedFrom item rest + 1
        else
          replacedFrom held rest
      else
        replacedFrom item rest

def replaced : List α → Nat
  | [] => 0
  | first :: rest => replacedFrom clash better first rest

/-- Whenever an item comes up, it stands in this relation to the item that has
the last place. -/
def EachTurn (relation : α → α → Prop) (items : List α) : Prop :=
  ∀ before item after, items = before ++ item :: after →
    ∀ held ∈ holder clash better before, relation held item

/-- No item that comes up is preferred to the item in the last place with
which it clashes. -/
def ReplacesNone (items : List α) : Prop :=
  EachTurn clash better
    (fun held item => clash held item = true → better held item = false) items

variable {clash better}

/-- Items are selected in their order, each at most once. -/
theorem selectFrom_sublist (held : α) (rest : List α) :
    (selectFrom clash better held rest).Sublist (held :: rest) := by
  induction rest generalizing held with
  | nil =>
      exact List.Sublist.refl _
  | cons item rest inductionHypothesis =>
      unfold selectFrom
      by_cases clashes : clash held item = true
      · by_cases preferred : better held item = true
        · simp only [clashes, preferred, if_true]
          exact (inductionHypothesis item).cons held
        · simp only [clashes, preferred, if_true]
          have skipped : (held :: rest).Sublist (held :: item :: rest) :=
            (List.sublist_cons_self item rest).cons_cons held
          exact (inductionHypothesis held).trans skipped
      · simp only [clashes]
        exact (inductionHypothesis item).cons_cons held

theorem select_sublist (items : List α) :
    (select clash better items).Sublist items := by
  cases items with
  | nil =>
      exact List.Sublist.refl _
  | cons first rest =>
      exact selectFrom_sublist first rest

theorem length_selectFrom (held : α) (rest : List α) :
    (selectFrom clash better held rest).length +
        droppedFrom clash better held rest +
        replacedFrom clash better held rest =
      rest.length + 1 := by
  induction rest generalizing held with
  | nil =>
      rfl
  | cons item rest inductionHypothesis =>
      unfold selectFrom droppedFrom replacedFrom
      have fromHeld := inductionHypothesis held
      have fromItem := inductionHypothesis item
      by_cases clashes : clash held item = true
      · by_cases preferred : better held item = true
        · simp only [clashes, preferred, if_true, List.length_cons]
          omega
        · simp only [clashes, preferred, if_true, List.length_cons,
            Bool.false_eq_true, if_false]
          omega
      · simp only [clashes, List.length_cons, Bool.false_eq_true, if_false]
        omega

/-- An item is selected, dropped or replaced. -/
theorem length_select (items : List α) :
    (select clash better items).length + dropped clash better items +
        replaced clash better items =
      items.length := by
  cases items with
  | nil =>
      rfl
  | cons first rest =>
      exact length_selectFrom first rest

/-- Who has the last place after two items. -/
def winner (clash better : α → α → Bool) (first second : α) : α :=
  if clash first second && !better first second then first else second

theorem holder_cons_cons (first second : α) (rest : List α) :
    holder clash better (first :: second :: rest) =
      holder clash better (winner clash better first second :: rest) := by
  simp only [holder, holderFrom, winner]
  split <;> rfl

theorem eachTurn_singleton (relation : α → α → Prop) (first : α) :
    EachTurn clash better relation [first] := by
  intro before item after shape held has
  match before with
  | [] =>
      cases has
  | head :: tail =>
      simp at shape

/-- Reading on from whoever has the last place after two items. -/
theorem eachTurn_winner {relation : α → α → Prop} {first second : α}
    {rest : List α} :
    EachTurn clash better relation (first :: second :: rest) ↔
      relation first second ∧
        EachTurn clash better relation
          (winner clash better first second :: rest) := by
  constructor
  · intro turns
    refine ⟨turns [first] second rest rfl first rfl, ?_⟩
    intro before item after shape held has
    cases before with
    | nil =>
        cases has
    | cons head tail =>
        obtain ⟨rfl, sameTail⟩ := List.cons.inj shape
        apply turns (first :: second :: tail) item after
          (by rw [sameTail]; rfl) held
        rw [holder_cons_cons]
        exact has
  · rintro ⟨related, later⟩ before item after shape held has
    match before with
    | [] =>
        cases has
    | [head] =>
        obtain ⟨rfl, sameTail⟩ := List.cons.inj shape
        obtain ⟨rfl, _⟩ := List.cons.inj sameTail
        cases has
        exact related
    | head :: next :: tail =>
        obtain ⟨rfl, sameRest⟩ := List.cons.inj shape
        obtain ⟨rfl, sameTail⟩ := List.cons.inj sameRest
        rw [holder_cons_cons] at has
        exact
          later (winner clash better first second :: tail) item after
            (by rw [sameTail]; rfl) held has

theorem eachTurn_cons_cons {relation : α → α → Prop} {first second : α}
    {rest : List α} :
    EachTurn clash better relation (first :: second :: rest) ↔
      relation first second ∧
      (if clash first second && !better first second then
        EachTurn clash better relation (first :: rest)
      else
        EachTurn clash better relation (second :: rest)) := by
  rw [eachTurn_winner, winner]
  split <;> rfl

theorem replacedFrom_eq_zero_iff {held : α} {rest : List α} :
    replacedFrom clash better held rest = 0 ↔
      ReplacesNone clash better (held :: rest) := by
  induction rest generalizing held with
  | nil =>
      exact ⟨fun _ => eachTurn_singleton _ held, fun _ => rfl⟩
  | cons item rest inductionHypothesis =>
      unfold ReplacesNone at inductionHypothesis ⊢
      rw [eachTurn_cons_cons]
      unfold replacedFrom
      by_cases clashes : clash held item = true
      · by_cases preferred : better held item = true
        · simp [clashes, preferred]
        · simp only [clashes, preferred, if_true, Bool.false_eq_true,
            if_false, Bool.not_false, Bool.and_true]
          rw [inductionHypothesis]
          simp
      · simp only [clashes, Bool.false_eq_true, if_false, Bool.false_and]
        rw [inductionHypothesis]
        simp

/-- The selected and the dropped items are all exactly when none is
replaced. -/
theorem length_select_add_dropped_iff (items : List α) :
    (select clash better items).length + dropped clash better items =
        items.length ↔
      ReplacesNone clash better items := by
  have counted := @length_select _ clash better items
  cases items with
  | nil =>
      simp [select, dropped, ReplacesNone, EachTurn]
  | cons first rest =>
      rw [← replacedFrom_eq_zero_iff]
      simp only [replaced] at counted
      omega

theorem selectFrom_eq_self {held : α} {rest : List α}
    (apart : (held :: rest).IsChain (clash · · = false)) :
    selectFrom clash better held rest = held :: rest := by
  induction rest generalizing held with
  | nil =>
      rfl
  | cons item rest inductionHypothesis =>
      obtain ⟨separate, later⟩ := List.isChain_cons_cons.mp apart
      simp only [selectFrom, separate, Bool.false_eq_true, if_false]
      rw [inductionHypothesis later]

/-- Nothing happens to items of which no two in sequence clash. -/
theorem select_eq_self {items : List α}
    (apart : items.IsChain (clash · · = false)) :
    select clash better items = items := by
  cases items with
  | nil =>
      rfl
  | cons first rest =>
      exact selectFrom_eq_self apart

theorem dropped_eq_zero {items : List α}
    (apart : items.IsChain (clash · · = false)) :
    dropped clash better items = 0 := by
  have counted := @length_select _ clash better items
  rw [select_eq_self apart] at counted
  omega

/-- It makes no difference which of the two comes first. -/
def Interchangeable (clash better : α → α → Bool) (left right : α) : Prop :=
  ∀ rest,
    select clash better (left :: right :: rest) =
        select clash better (right :: left :: rest) ∧
      ∀ held,
        selectFrom clash better held (left :: right :: rest) =
          selectFrom clash better held (right :: left :: rest)

theorem selectFrom_cons_congr {item : α} {rest others : List α}
    (same :
      ∀ held, selectFrom clash better held rest =
        selectFrom clash better held others)
    (held : α) :
    selectFrom clash better held (item :: rest) =
      selectFrom clash better held (item :: others) := by
  simp only [selectFrom, same]

/-- An item passes those in front of it with which it can change places. -/
theorem selectFrom_forward {front rest : List α} {item : α}
    (passes :
      ∀ other ∈ front, Interchangeable clash better other item)
    (held : α) :
    selectFrom clash better held (front ++ item :: rest) =
      selectFrom clash better held (item :: (front ++ rest)) := by
  induction front generalizing held with
  | nil =>
      rfl
  | cons head tail inductionHypothesis =>
      have moved :=
        @selectFrom_cons_congr _ clash better head _ _
          (inductionHypothesis fun other member =>
            passes other (List.mem_cons_of_mem head member))
          held
      have swapped := (passes head List.mem_cons_self (tail ++ rest)).2 held
      exact moved.trans swapped

theorem select_forward {front rest : List α} {item : α}
    (passes :
      ∀ other ∈ front, Interchangeable clash better other item) :
    select clash better (front ++ item :: rest) =
      select clash better (item :: (front ++ rest)) := by
  cases front with
  | nil =>
      rfl
  | cons head tail =>
      have moved :=
        @selectFrom_forward _ clash better tail rest item
          (fun other member =>
            passes other (List.mem_cons_of_mem head member)) head
      have swapped := (passes head List.mem_cons_self (tail ++ rest)).1
      exact moved.trans swapped

section Sorted

variable {precedes : α → α → Prop}

/-- The items in front of one that may come first are tied with it. -/
theorem tied_of_front {front rest others : List α} {item : α}
    (sorted : (front ++ item :: rest).Pairwise precedes)
    (first : (item :: others).Pairwise precedes)
    (permuted : (front ++ rest).Perm others) :
    ∀ other ∈ front, precedes other item ∧ precedes item other := by
  intro other member
  have before :=
    (List.pairwise_append.mp sorted).2.2 other member item
      List.mem_cons_self
  have after :=
    (List.pairwise_cons.mp first).1 other
      (permuted.subset (List.mem_append_left rest member))
  exact ⟨before, after⟩

/-- Two sorted orders of the same items begin with the same item up to ties,
and go on with sorted orders of the same items. -/
theorem exists_front {left others : List α} {item : α}
    (sorted : left.Pairwise precedes)
    (first : (item :: others).Pairwise precedes)
    (permuted : left.Perm (item :: others)) :
    ∃ front rest, left = front ++ item :: rest ∧
      (front ++ rest).Pairwise precedes ∧ (front ++ rest).Perm others ∧
      ∀ other ∈ front, precedes other item ∧ precedes item other := by
  have member : item ∈ left := permuted.mem_iff.mpr List.mem_cons_self
  obtain ⟨front, rest, shape⟩ := List.append_of_mem member
  rw [shape] at sorted permuted
  have remaining : (front ++ rest).Perm others :=
    (List.perm_middle.symm.trans permuted).cons_inv
  have kept : (front ++ rest).Sublist (front ++ item :: rest) :=
    (List.Sublist.refl front).append (List.sublist_cons_self item rest)
  exact ⟨front, rest, shape, sorted.sublist kept, remaining,
    tied_of_front sorted first remaining⟩

/-- When tied items are interchangeable, the first item of one order passes
all those in front of it in the other. -/
theorem exists_interchangeable_front {left others : List α} {item : α}
    (interchange :
      ∀ one ∈ item :: others, ∀ other ∈ item :: others,
        precedes one other → precedes other one →
        Interchangeable clash better one other)
    (sorted : left.Pairwise precedes)
    (first : (item :: others).Pairwise precedes)
    (permuted : left.Perm (item :: others)) :
    ∃ front rest, left = front ++ item :: rest ∧
      (front ++ rest).Pairwise precedes ∧ (front ++ rest).Perm others ∧
      ∀ other ∈ front, Interchangeable clash better other item := by
  obtain ⟨front, rest, shape, sortedRest, remaining, tied⟩ :=
    exists_front sorted first permuted
  refine ⟨front, rest, shape, sortedRest, remaining, ?_⟩
  intro other member
  have listed : other ∈ item :: others :=
    List.mem_cons_of_mem item
      (remaining.subset (List.mem_append_left rest member))
  exact interchange other listed item List.mem_cons_self
    (tied other member).1 (tied other member).2

/-- Sorted orders that differ in tied items lead to the same selection. -/
theorem selectFrom_eq_of_perm {left right : List α}
    (interchange :
      ∀ one ∈ right, ∀ other ∈ right,
        precedes one other → precedes other one →
        Interchangeable clash better one other)
    (sortedLeft : left.Pairwise precedes)
    (sortedRight : right.Pairwise precedes) (permuted : left.Perm right)
    (held : α) :
    selectFrom clash better held left =
      selectFrom clash better held right := by
  induction right generalizing left held with
  | nil =>
      rw [permuted.eq_nil]
  | cons item others inductionHypothesis =>
      obtain ⟨front, rest, shape, sorted, remaining, passes⟩ :=
        exists_interchangeable_front interchange sortedLeft sortedRight
          permuted
      have forward :=
        @selectFrom_forward _ clash better front rest item passes held
      have continued :=
        inductionHypothesis
          (fun one first other second =>
            interchange one (List.mem_cons_of_mem item first) other
              (List.mem_cons_of_mem item second))
          sorted (List.pairwise_cons.mp sortedRight).2 remaining
      rw [shape, forward]
      exact selectFrom_cons_congr continued held

theorem select_eq_of_perm {left right : List α}
    (interchange :
      ∀ one ∈ right, ∀ other ∈ right,
        precedes one other → precedes other one →
        Interchangeable clash better one other)
    (sortedLeft : left.Pairwise precedes)
    (sortedRight : right.Pairwise precedes) (permuted : left.Perm right) :
    select clash better left = select clash better right := by
  cases right with
  | nil =>
      rw [permuted.eq_nil]
  | cons item others =>
      obtain ⟨front, rest, shape, sorted, remaining, passes⟩ :=
        exists_interchangeable_front interchange sortedLeft sortedRight
          permuted
      have forward := @select_forward _ clash better front rest item passes
      rw [shape, forward]
      exact
        selectFrom_eq_of_perm
          (fun one first other second =>
            interchange one (List.mem_cons_of_mem item first) other
              (List.mem_cons_of_mem item second))
          sorted (List.pairwise_cons.mp sortedRight).2 remaining item

end Sorted

/-- Only the images of the items matter when they decide what is selected. -/
theorem map_selectFrom {β : Type} {image : α → β}
    {clashImages betterImages : β → β → Bool}
    (clashes :
      ∀ left right, clash left right =
        clashImages (image left) (image right))
    (betters :
      ∀ left right, better left right =
        betterImages (image left) (image right))
    (held : α) (rest : List α) :
    (selectFrom clash better held rest).map image =
      selectFrom clashImages betterImages (image held) (rest.map image) := by
  induction rest generalizing held with
  | nil =>
      rfl
  | cons item rest inductionHypothesis =>
      simp only [List.map_cons, selectFrom, clashes, betters]
      split
      · split
        · exact inductionHypothesis item
        · exact inductionHypothesis held
      · rw [List.map_cons, inductionHypothesis]

theorem map_select {β : Type} {image : α → β}
    {clashImages betterImages : β → β → Bool}
    (clashes :
      ∀ left right, clash left right =
        clashImages (image left) (image right))
    (betters :
      ∀ left right, better left right =
        betterImages (image left) (image right))
    (items : List α) :
    (select clash better items).map image =
      select clashImages betterImages (items.map image) := by
  cases items with
  | nil =>
      rfl
  | cons first rest =>
      exact map_selectFrom clashes betters first rest

end Lists

/-! ## Spans -/

section Spans

variable {α τ : Type} [LinearOrder τ] {start finish : α → τ}
  {better : α → α → Bool}

/-- No two neighbours of a selection overlap. -/
theorem isChain_selectFrom {previous held : α} {rest : List α}
    (sorted : (previous :: held :: rest).Pairwise (start · ≤ start ·))
    (apart : overlap start finish previous held = false) :
    (previous ::
        selectFrom (overlap start finish) better held rest).IsChain
      (overlap start finish · · = false) := by
  induction rest generalizing previous held with
  | nil =>
      simpa [selectFrom] using apart
  | cons item rest inductionHypothesis =>
      have fromPrevious := List.pairwise_cons.mp sorted
      have fromHeld := List.pairwise_cons.mp fromPrevious.2
      have withoutHeld : (previous :: item :: rest).Pairwise
          (start · ≤ start ·) :=
        sorted.sublist
          ((List.sublist_cons_self held (item :: rest)).cons_cons previous)
      have withoutItem : (previous :: held :: rest).Pairwise
          (start · ≤ start ·) :=
        sorted.sublist
          (((List.sublist_cons_self item rest).cons_cons held).cons_cons
            previous)
      unfold selectFrom
      by_cases overlapping : overlap start finish held item = true
      · by_cases preferred : better held item = true
        · simp only [overlapping, preferred, if_true]
          apply inductionHypothesis withoutHeld
          -- `previous` ended before `held` began, or `held` could not
          -- overlap `item`
          apply Bool.eq_false_iff.mpr
          intro meets
          have meetsItem := overlap_eq_true.mp meets
          have heldMeets := overlap_eq_true.mp overlapping
          have begun := fromHeld.1 item List.mem_cons_self
          have earlier := fromPrevious.1 held List.mem_cons_self
          have meetsHeld : overlap start finish previous held = true :=
            overlap_eq_true.mpr
              ⟨lt_of_le_of_lt (le_trans earlier begun) heldMeets.2,
                lt_of_le_of_lt begun meetsItem.2⟩
          rw [apart] at meetsHeld
          cases meetsHeld
        · simp only [overlapping, preferred, if_true]
          exact inductionHypothesis withoutItem apart
      · have separate := Bool.eq_false_iff.mpr overlapping
        simp only [separate]
        exact List.IsChain.cons_cons apart
          (inductionHypothesis fromPrevious.2 separate)

theorem isChain_select {items : List α}
    (sorted : items.Pairwise (start · ≤ start ·)) :
    (select (overlap start finish) better items).IsChain
      (overlap start finish · · = false) := by
  cases items with
  | nil =>
      exact List.IsChain.nil
  | cons first rest =>
      -- the first selected item has nothing before it; an item before all
      -- others that is apart from it is not at hand, so the run starts here
      induction rest generalizing first with
      | nil =>
          exact List.IsChain.singleton first
      | cons item rest inductionHypothesis =>
          have fromFirst := List.pairwise_cons.mp sorted
          have withoutItem : (first :: rest).Pairwise
              (start · ≤ start ·) :=
            sorted.sublist ((List.sublist_cons_self item rest).cons_cons first)
          unfold select selectFrom
          by_cases overlapping : overlap start finish first item = true
          · by_cases preferred : better first item = true
            · simp only [overlapping, preferred, if_true]
              exact inductionHypothesis item fromFirst.2
            · simp only [overlapping, preferred, if_true]
              exact inductionHypothesis first withoutItem
          · have separate := Bool.eq_false_iff.mpr overlapping
            simp only [separate]
            exact isChain_selectFrom sorted separate

/-- Whenever an empty item comes up, the item in the last place is empty too or
begins before it. -/
def NoneBehind (start finish : α → τ) (better : α → α → Bool)
    (items : List α) : Prop :=
  EachTurn (overlap start finish) better
    (fun held item =>
      finish item ≤ start item → start held = start item →
        finish held ≤ start held)
    items

/-- Nothing takes the place of an empty item. -/
theorem exists_cons_selectFrom {held : α} {rest : List α}
    (sorted : (held :: rest).Pairwise (start · ≤ start ·)) :
    ∃ first tail,
      selectFrom (overlap start finish) better held rest = first :: tail ∧
      start held ≤ start first ∧
      (finish held ≤ start held → first = held) := by
  induction rest generalizing held with
  | nil =>
      exact ⟨held, [], rfl, le_refl _, fun _ => rfl⟩
  | cons item rest inductionHypothesis =>
      have fromHeld := List.pairwise_cons.mp sorted
      have begun := fromHeld.1 item List.mem_cons_self
      have withoutItem : (held :: rest).Pairwise (start · ≤ start ·) :=
        sorted.sublist ((List.sublist_cons_self item rest).cons_cons held)
      unfold selectFrom
      by_cases overlapping : overlap start finish held item = true
      · have meets := overlap_eq_true.mp overlapping
        by_cases preferred : better held item = true
        · simp only [overlapping, preferred, if_true]
          obtain ⟨first, tail, selected, later, _⟩ :=
            inductionHypothesis fromHeld.2
          refine ⟨first, tail, selected, le_trans begun later, ?_⟩
          intro empty
          exact absurd (lt_of_lt_of_le meets.2 empty) (not_lt_of_ge begun)
        · simp only [overlapping, preferred, if_true]
          exact inductionHypothesis withoutItem
      · simp only [overlapping]
        exact ⟨held, _, rfl, le_refl _, fun _ => rfl⟩

/-- An item that begins behind another one and does not overlap it begins
behind its end too, unless it is empty and stands at its begin. -/
theorem ends_before_of_apart {held item : α}
    (separate : overlap start finish held item = false)
    (begun : start held ≤ start item) (forward : start item ≤ finish item)
    (notBehind :
      finish item ≤ start item → start held = start item →
        finish held ≤ start held) :
    finish held ≤ start item := by
  by_contra reaches
  have inside : start item < finish held := lt_of_not_ge reaches
  have ended : finish item ≤ start held := by
    by_contra begins
    have meets : overlap start finish held item = true :=
      overlap_eq_true.mpr ⟨lt_of_not_ge begins, inside⟩
    rw [separate] at meets
    cases meets
  have empty : finish item ≤ start item := le_trans ended begun
  have together : start held = start item :=
    le_antisymm begun (le_trans forward ended)
  have heldEmpty := notBehind empty together
  rw [together] at heldEmpty
  exact absurd inside (not_lt_of_ge heldEmpty)

/-- Neighbours of the selection follow one another exactly when no empty item
comes up behind the begin of the item in the last place. -/
theorem isChain_selectFrom_iff {held : α} {rest : List α}
    (forward : ∀ item ∈ held :: rest, start item ≤ finish item)
    (sorted : (held :: rest).Pairwise (start · ≤ start ·)) :
    (selectFrom (overlap start finish) better held rest).IsChain
        (finish · ≤ start ·) ↔
      NoneBehind start finish better (held :: rest) := by
  induction rest generalizing held with
  | nil =>
      exact iff_of_true (List.IsChain.singleton held)
        (eachTurn_singleton _ held)
  | cons item rest inductionHypothesis =>
      have fromHeld := List.pairwise_cons.mp sorted
      have begun := fromHeld.1 item List.mem_cons_self
      have itemForward := forward item (by simp)
      have withoutItem : (held :: rest).Pairwise (start · ≤ start ·) :=
        sorted.sublist ((List.sublist_cons_self item rest).cons_cons held)
      have ofItem :=
        @inductionHypothesis item
          (fun other member => forward other (List.mem_cons_of_mem held member))
          fromHeld.2
      have ofHeld :=
        @inductionHypothesis held
          (fun other member =>
            forward other
              (by
                rcases List.mem_cons.mp member with itself | later
                · simp [itself]
                · simp [later]))
          withoutItem
      unfold NoneBehind at ofItem ofHeld ⊢
      rw [eachTurn_cons_cons]
      unfold selectFrom
      by_cases overlapping : overlap start finish held item = true
      · -- an item that overlaps the one held at its begin is not empty
        have meets := overlap_eq_true.mp overlapping
        have notBehind :
            finish item ≤ start item → start held = start item →
              finish held ≤ start held := by
          intro empty together
          exact absurd (lt_of_lt_of_le meets.1 empty)
            (not_lt_of_ge (le_of_eq together.symm))
        by_cases preferred : better held item = true
        · simp only [overlapping, preferred, if_true, Bool.not_true,
            Bool.and_false, Bool.false_eq_true, if_false]
          rw [ofItem]
          exact (and_iff_right notBehind).symm
        · simp only [overlapping, preferred, if_true, Bool.not_false,
            Bool.and_true, Bool.false_eq_true, if_false]
          rw [ofHeld]
          exact (and_iff_right notBehind).symm
      · have separate := Bool.eq_false_iff.mpr overlapping
        simp only [separate, Bool.false_eq_true, if_false, Bool.false_and]
        rw [← ofItem]
        obtain ⟨first, tail, selected, later, itself⟩ :=
          @exists_cons_selectFrom _ _ _ start finish better item rest
            fromHeld.2
        rw [selected, List.isChain_cons_cons]
        apply and_congr_left
        intro _
        constructor
        · intro followed empty together
          rw [itself empty, ← together] at followed
          exact followed
        · intro notBehind
          exact
            le_trans (ends_before_of_apart separate begun itemForward notBehind)
              later

theorem isChain_select_iff {items : List α}
    (forward : ∀ item ∈ items, start item ≤ finish item)
    (sorted : items.Pairwise (start · ≤ start ·)) :
    (select (overlap start finish) better items).IsChain
        (finish · ≤ start ·) ↔
      NoneBehind start finish better items := by
  cases items with
  | nil =>
      simp [select, NoneBehind, EachTurn]
  | cons first rest =>
      exact isChain_selectFrom_iff forward sorted

end Spans

end LastPlace
