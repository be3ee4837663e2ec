import Mathlib.Data.List.Basic
import Mathlib.Order.Lattice

/-!
# One-pass selection through the last place

A list is read once.  An item that clashes with the item last selected either
takes its place or is dropped; an item that does not clash is selected after
it.  The first part of the module says which items are selected.  The second
part reads items as spans of a linear order and says when an item is left
without any selected item that overlaps it.
-/

namespace LastPlace

section Selection

variable {α : Type} (clash better : α → α → Bool)

/-- What is selected when `held` has the last place and `rest` is to come. -/
def selectFrom (held : α) : List α → List α
  | [] => [held]
  | item :: rest =>
      if clash held item then
        if better held item then
          selectFrom item rest
        else
          selectFrom held rest
      else
        held :: selectFrom item rest

def select : List α → List α
  | [] => []
  | item :: rest => selectFrom clash better item rest

/-- The item that has the last place after a list has been read. -/
def holderFrom (held : α) : List α → α
  | [] => held
  | item :: rest =>
      if clash held item && !better held item then
        holderFrom held rest
      else
        holderFrom item rest

/-- An item that has the last place is never replaced. -/
def keeps (held : α) : List α → Bool
  | [] => true
  | item :: rest =>
      if clash held item then
        !better held item && keeps held rest
      else
        true

/-- An item gets the last place when its turn comes. -/
def takes : List α → α → Bool
  | [], _ => true
  | first :: rest, item =>
      let held := holderFrom clash better first rest
      !clash held item || better held item

variable {clash better}

theorem mem_of_mem_selectFrom {held item : α} {rest : List α}
    (selected : item ∈ selectFrom clash better held rest) :
    item ∈ held :: rest := by
  induction rest generalizing held with
  | nil =>
      simpa [selectFrom] using selected
  | cons head tail inductionHypothesis =>
      unfold selectFrom at selected
      by_cases clashes : clash held head = true
      · by_cases replaced : better held head = true
        · simp only [clashes, replaced, if_true] at selected
          exact List.mem_cons_of_mem held (inductionHypothesis selected)
        · simp only [clashes, replaced, if_true] at selected
          have earlier := inductionHypothesis selected
          simp only [List.mem_cons] at earlier ⊢
          tauto
      · simp only [clashes] at selected
        rcases List.mem_cons.mp selected with itself | later
        · simp [itself]
        · exact List.mem_cons_of_mem held (inductionHypothesis later)

theorem mem_of_mem_select {item : α} {items : List α}
    (selected : item ∈ select clash better items) :
    item ∈ items := by
  cases items with
  | nil =>
      simp [select] at selected
  | cons head tail =>
      exact mem_of_mem_selectFrom selected

theorem mem_selectFrom_of_keeps {held : α} {rest : List α}
    (kept : keeps clash better held rest = true) :
    held ∈ selectFrom clash better held rest := by
  induction rest with
  | nil =>
      simp [selectFrom]
  | cons head tail inductionHypothesis =>
      unfold keeps at kept
      unfold selectFrom
      by_cases clashes : clash held head = true
      · simp only [clashes, if_true, Bool.and_eq_true,
          Bool.not_eq_true'] at kept
        have unreplaced := kept.1
        simp only [clashes, unreplaced, if_true]
        exact inductionHypothesis kept.2
      · simp [clashes]

/-- Selecting goes on from whoever has the last place. -/
theorem selectFrom_append_mem {held item : α} {before after : List α}
    (later :
      item ∈ selectFrom clash better
        (holderFrom clash better held before) after) :
    item ∈ selectFrom clash better held (before ++ after) := by
  induction before generalizing held with
  | nil =>
      exact later
  | cons head tail inductionHypothesis =>
      unfold holderFrom at later
      simp only [List.cons_append]
      unfold selectFrom
      by_cases clashes : clash held head = true
      · by_cases replaced : better held head = true
        · simp only [clashes, replaced, Bool.not_true, Bool.and_false,
            if_true] at later ⊢
          exact inductionHypothesis later
        · simp only [clashes, replaced, Bool.not_false, Bool.and_true,
            if_true] at later ⊢
          exact inductionHypothesis later
      · simp only [clashes, Bool.false_and] at later ⊢
        exact List.mem_cons_of_mem held (inductionHypothesis later)

/-- A selected item got the last place in its turn and kept it. -/
theorem mem_selectFrom_iff {held item : α} {rest : List α} :
    item ∈ selectFrom clash better held rest ↔
      (item = held ∧ keeps clash better held rest = true) ∨
      ∃ before after, rest = before ++ item :: after ∧
        takes clash better (held :: before) item = true ∧
        keeps clash better item after = true := by
  constructor
  · intro selected
    induction rest generalizing held with
    | nil =>
        left
        simpa [selectFrom, keeps] using selected
    | cons head tail inductionHypothesis =>
        unfold selectFrom at selected
        by_cases clashes : clash held head = true
        · by_cases replaced : better held head = true
          · simp only [clashes, replaced, if_true] at selected
            right
            rcases inductionHypothesis selected with
              ⟨itself, kept⟩ | ⟨before, after, shape, taken, kept⟩
            · exact ⟨[], tail, by rw [itself]; rfl,
                by simp [takes, holderFrom, itself, replaced],
                by rw [itself]; exact kept⟩
            · refine ⟨head :: before, after, by rw [shape]; rfl, ?_, kept⟩
              simpa [takes, holderFrom, clashes, replaced] using taken
          · simp only [clashes, replaced, if_true] at selected
            rcases inductionHypothesis selected with
              ⟨itself, kept⟩ | ⟨before, after, shape, taken, kept⟩
            · left
              exact ⟨itself, by simp [keeps, clashes, replaced, kept]⟩
            · right
              refine ⟨head :: before, after, by rw [shape]; rfl, ?_, kept⟩
              simpa [takes, holderFrom, clashes, replaced] using taken
        · simp only [clashes] at selected
          rcases List.mem_cons.mp selected with itself | later
          · left
            exact ⟨itself, by simp [keeps, clashes]⟩
          · right
            rcases inductionHypothesis later with
              ⟨itself, kept⟩ | ⟨before, after, shape, taken, kept⟩
            · exact ⟨[], tail, by rw [itself]; rfl,
                by simp [takes, holderFrom, itself, clashes],
                by rw [itself]; exact kept⟩
            · refine ⟨head :: before, after, by rw [shape]; rfl, ?_, kept⟩
              simpa [takes, holderFrom, clashes] using taken
  · intro placed
    rcases placed with ⟨itself, kept⟩ | ⟨before, after, shape, taken, kept⟩
    · rw [itself]
      exact mem_selectFrom_of_keeps kept
    · rw [shape]
      apply selectFrom_append_mem
      have present := mem_selectFrom_of_keeps kept
      simp only [takes, Bool.or_eq_true, Bool.not_eq_true'] at taken
      unfold selectFrom
      rcases taken with apart | preferred
      · simp only [apart]
        exact List.mem_cons_of_mem _ present
      · by_cases clashes :
            clash (holderFrom clash better held before) item = true
        · simpa only [clashes, preferred, if_true] using present
        · simp only [clashes]
          exact List.mem_cons_of_mem _ present

theorem mem_select_iff {item : α} {items : List α} :
    item ∈ select clash better items ↔
      ∃ before after, items = before ++ item :: after ∧
        takes clash better before item = true ∧
        keeps clash better item after = true := by
  cases items with
  | nil =>
      simp [select]
  | cons head tail =>
      rw [select, mem_selectFrom_iff]
      constructor
      · intro placed
        rcases placed with
          ⟨itself, kept⟩ | ⟨before, after, shape, taken, kept⟩
        · exact ⟨[], tail, by rw [itself]; rfl, rfl, by rw [itself]; exact kept⟩
        · exact ⟨head :: before, after, by rw [shape]; rfl, taken, kept⟩
      · intro placed
        obtain ⟨before, after, shape, taken, kept⟩ := placed
        cases before with
        | nil =>
            obtain ⟨sameHead, sameTail⟩ := List.cons.inj shape
            left
            exact ⟨sameHead.symm, by rw [sameHead, sameTail]; exact kept⟩
        | cons first others =>
            obtain ⟨sameHead, sameTail⟩ := List.cons.inj shape
            right
            exact ⟨others, after, sameTail, by rw [sameHead]; exact taken, kept⟩

theorem holderFrom_mem (held : α) (rest : List α) :
    holderFrom clash better held rest ∈ held :: rest := by
  induction rest generalizing held with
  | nil =>
      simp [holderFrom]
  | cons head tail inductionHypothesis =>
      unfold holderFrom
      by_cases dropped : (clash held head && !better held head) = true
      · simp only [dropped, if_true]
        have earlier := inductionHypothesis held
        simp only [List.mem_cons] at earlier ⊢
        tauto
      · simp only [dropped]
        exact List.mem_cons_of_mem held (inductionHypothesis head)

theorem takes_of_forall {before : List α} {item : α}
    (yields :
      ∀ earlier ∈ before, clash earlier item = true →
        better earlier item = true) :
    takes clash better before item = true := by
  cases before with
  | nil =>
      rfl
  | cons head tail =>
      have present := @holderFrom_mem _ clash better head tail
      have given := yields _ present
      simp only [takes, Bool.or_eq_true, Bool.not_eq_true']
      by_cases clashes :
          clash (holderFrom clash better head tail) item = true
      · exact Or.inr (given clashes)
      · exact Or.inl (Bool.eq_false_iff.mpr clashes)

theorem keeps_of_forall {held : α} {after : List α}
    (resists :
      ∀ later ∈ after, clash held later = true →
        better held later = false) :
    keeps clash better held after = true := by
  induction after with
  | nil =>
      rfl
  | cons head tail inductionHypothesis =>
      have kept :=
        inductionHypothesis fun later member =>
          resists later (List.mem_cons_of_mem head member)
      have resisted := resists head List.mem_cons_self
      unfold keeps
      by_cases clashes : clash held head = true
      · simp [clashes, resisted clashes, kept]
      · simp [clashes]

end Selection

/-! ## Spans -/

section Spans

variable {α τ : Type} [LinearOrder τ] (start finish : α → τ)

/-- Two half-open spans have a point in common. -/
def overlap (left right : α) : Bool :=
  decide (start left < finish right) && decide (start right < finish left)

/-- Nobody takes the last place after an item of the current run has ended.
`group` holds the items of the run other than `held`. -/
def strandsNoneFrom (better : α → α → Bool) (group : List α) (held : α) :
    List α → Bool
  | [] => true
  | item :: rest =>
      if overlap start finish held item then
        if better held item then
          group.all (overlap start finish · item) &&
            strandsNoneFrom better (held :: group) item rest
        else
          strandsNoneFrom better (item :: group) held rest
      else
        strandsNoneFrom better [] item rest

def strandsNone (better : α → α → Bool) : List α → Bool
  | [] => true
  | item :: rest => strandsNoneFrom start finish better [] item rest

/-- Spans that are not empty, in the order of their first points. -/
def Ordered (items : List α) : Prop :=
  (∀ item ∈ items, start item < finish item) ∧
    items.Pairwise (start · ≤ start ·)

variable {start finish} {better : α → α → Bool}

theorem overlap_eq_true {left right : α} :
    overlap start finish left right = true ↔
      start left < finish right ∧ start right < finish left := by
  simp [overlap]

theorem overlap_comm (left right : α) :
    overlap start finish left right = overlap start finish right left := by
  simp only [overlap, Bool.and_comm]

theorem Ordered.tail {head : α} {tail : List α}
    (ordered : Ordered start finish (head :: tail)) :
    Ordered start finish tail :=
  ⟨fun item member => ordered.1 item (List.mem_cons_of_mem head member),
    (List.pairwise_cons.mp ordered.2).2⟩

/-- The list that is left when the second item has been dropped. -/
theorem Ordered.skip {first second : α} {tail : List α}
    (ordered : Ordered start finish (first :: second :: tail)) :
    Ordered start finish (first :: tail) := by
  have kept : List.Sublist (first :: tail) (first :: second :: tail) :=
    (List.sublist_cons_self second tail).cons_cons first
  exact ⟨fun item member => ordered.1 item (kept.subset member),
    ordered.2.sublist kept⟩

theorem Ordered.head_le {head item : α} {tail : List α}
    (ordered : Ordered start finish (head :: tail))
    (member : item ∈ head :: tail) :
    start head ≤ start item := by
  rcases List.mem_cons.mp member with itself | later
  · rw [itself]
  · exact (List.pairwise_cons.mp ordered.2).1 item later

/-- What comes after an item that the held one does not reach is out of its
reach as well. -/
theorem Ordered.finish_le_of_apart {held item : α} {rest : List α}
    (ordered : Ordered start finish (held :: item :: rest))
    (apart : overlap start finish held item = false)
    {later : α} (member : later ∈ item :: rest) :
    finish held ≤ start later := by
  have fromHeld :=
    ordered.head_le (List.mem_cons_of_mem held List.mem_cons_self)
  have proper := ordered.1 item (by simp)
  have reached : start held < finish item := lt_of_le_of_lt fromHeld proper
  have ended : finish held ≤ start item := by
    by_contra below
    have overlapping :=
      overlap_eq_true.mpr ⟨reached, lt_of_not_ge below⟩
    rw [apart] at overlapping
    cases overlapping
  exact le_trans ended (ordered.tail.head_le member)

/-- Selected spans follow one another without overlapping. -/
theorem pairwise_selectFrom {held : α} {rest : List α}
    (ordered : Ordered start finish (held :: rest)) :
    (selectFrom (overlap start finish) better held rest).Pairwise
      (finish · ≤ start ·) := by
  induction rest generalizing held with
  | nil =>
      simp [selectFrom]
  | cons item rest inductionHypothesis =>
      unfold selectFrom
      by_cases overlapping : overlap start finish held item = true
      · by_cases replaced : better held item = true
        · simp only [overlapping, replaced, if_true]
          exact inductionHypothesis ordered.tail
        · simp only [overlapping, replaced, if_true]
          exact inductionHypothesis ordered.skip
      · have apart := Bool.eq_false_iff.mpr overlapping
        simp only [apart]
        apply List.pairwise_cons.mpr
        constructor
        · intro later selected
          exact ordered.finish_le_of_apart apart
            (mem_of_mem_selectFrom selected)
        · exact inductionHypothesis ordered.tail

theorem pairwise_select {items : List α}
    (ordered : Ordered start finish items) :
    (select (overlap start finish) better items).Pairwise
      (finish · ≤ start ·) := by
  cases items with
  | nil =>
      simp [select]
  | cons head tail =>
      exact pairwise_selectFrom ordered

/-- Every item overlaps a selected one. -/
def TouchesAll (start finish : α → τ) (items selected : List α) : Prop :=
  ∀ item ∈ items, ∃ kept ∈ selected, overlap start finish item kept = true

theorem TouchesAll.of_subset {items others selected : List α}
    (touches : TouchesAll start finish items selected)
    (subset : ∀ item ∈ others, item ∈ items) :
    TouchesAll start finish others selected :=
  fun item member => touches item (subset item member)

/-- When `item` has taken the last place, a member that ended before it is out
of reach from here on. -/
theorem group_all_of_touchesAll {group : List α} {item : α} {rest : List α}
    (ordered : Ordered start finish (item :: rest))
    (begun : ∀ member ∈ group, start member ≤ start item)
    (touches :
      TouchesAll start finish group
        (selectFrom (overlap start finish) better item rest)) :
    group.all (overlap start finish · item) = true := by
  apply List.all_eq_true.mpr
  intro member present
  obtain ⟨kept, selected, meets⟩ := touches member present
  have meetsBounds := overlap_eq_true.mp meets
  have later := ordered.head_le (mem_of_mem_selectFrom selected)
  have before := begun member present
  have proper := ordered.1 item List.mem_cons_self
  exact overlap_eq_true.mpr
    ⟨lt_of_le_of_lt before proper, lt_of_le_of_lt later meetsBounds.2⟩

/-- A run that has ended is touched by its last item, and has no part in the
runs after it. -/
theorem touchesAll_opened {group : List α} {held item : α}
    {rest selected : List α}
    (ordered : Ordered start finish (held :: item :: rest))
    (apart : overlap start finish held item = false)
    (grouped : ∀ member ∈ group, overlap start finish member held = true) :
    TouchesAll start finish (held :: (group ++ item :: rest))
        (held :: selected) ↔
      TouchesAll start finish (item :: rest) selected := by
  have proper := ordered.1 held List.mem_cons_self
  constructor
  · intro touches other member
    obtain ⟨kept, present, meets⟩ := touches other (by simp_all)
    rcases List.mem_cons.mp present with same | later
    · have ended := ordered.finish_le_of_apart apart member
      rw [same] at meets
      exact absurd (overlap_eq_true.mp meets).1 (not_lt_of_ge ended)
    · exact ⟨kept, later, meets⟩
  · intro touches other member
    rcases List.mem_cons.mp member with same | inner
    · rw [same]
      exact ⟨held, List.mem_cons_self,
        overlap_eq_true.mpr ⟨proper, proper⟩⟩
    · rcases List.mem_append.mp inner with earlier | later
      · exact ⟨held, List.mem_cons_self, grouped other earlier⟩
      · obtain ⟨kept, present, meets⟩ := touches other later
        exact ⟨kept, List.mem_cons_of_mem held present, meets⟩

theorem touchesAll_selectFrom_iff {group : List α} {held : α}
    {rest : List α}
    (ordered : Ordered start finish (held :: rest))
    (grouped : ∀ member ∈ group, overlap start finish member held = true)
    (begun : ∀ member ∈ group, ∀ item ∈ rest, start member ≤ start item) :
    TouchesAll start finish (held :: (group ++ rest))
        (selectFrom (overlap start finish) better held rest) ↔
      strandsNoneFrom start finish better group held rest = true := by
  induction rest generalizing group held with
  | nil =>
      have proper := ordered.1 held List.mem_cons_self
      simp only [selectFrom, strandsNoneFrom, List.append_nil, iff_true]
      intro item member
      apply Exists.intro held
      refine ⟨List.mem_cons_self, ?_⟩
      rcases List.mem_cons.mp member with same | earlier
      · rw [same]
        exact overlap_eq_true.mpr ⟨proper, proper⟩
      · exact grouped item earlier
  | cons item rest inductionHypothesis =>
      unfold selectFrom strandsNoneFrom
      have begunLater :
          ∀ member ∈ group, ∀ later ∈ rest, start member ≤ start later :=
        fun member present later coming =>
          begun member present later (List.mem_cons_of_mem item coming)
      by_cases overlapping : overlap start finish held item = true
      · by_cases replaced : better held item = true
        · -- `item` takes the place of `held`
          simp only [overlapping, replaced, if_true, Bool.and_eq_true]
          have continued
              (reached : group.all (overlap start finish · item) = true) :=
            @inductionHypothesis (held :: group) item ordered.tail
              (by
                have touched := List.all_eq_true.mp reached
                simpa [overlapping] using touched)
              (by
                intro member present later coming
                rcases List.mem_cons.mp present with same | earlier
                · rw [same]
                  exact ordered.head_le (by simp [coming])
                · exact begunLater member earlier later coming)
          constructor
          · intro touches
            have reached :=
              group_all_of_touchesAll ordered.tail
                (fun member present =>
                  begun member present item List.mem_cons_self)
                (touches.of_subset (by simp_all))
            exact ⟨reached,
              (continued reached).mp (touches.of_subset (by simp; tauto))⟩
          · intro strandsNone
            have touches := (continued strandsNone.1).mpr strandsNone.2
            exact touches.of_subset (by simp; tauto)
        · -- `item` is dropped
          simp only [overlapping, replaced, if_true, Bool.false_eq_true,
            if_false]
          have continued :=
            @inductionHypothesis (item :: group) held ordered.skip
              (by
                have reached : overlap start finish item held = true := by
                  rw [overlap_comm]
                  exact overlapping
                simpa [reached] using grouped)
              (by
                intro member present later coming
                rcases List.mem_cons.mp present with same | earlier
                · rw [same]
                  exact ordered.tail.head_le (by simp [coming])
                · exact begunLater member earlier later coming)
          rw [← continued]
          constructor
          · intro touches
            exact touches.of_subset (by simp; tauto)
          · intro touches
            exact touches.of_subset (by simp; tauto)
      · -- `item` opens a new run
        have apart := Bool.eq_false_iff.mpr overlapping
        simp only [apart, Bool.false_eq_true, if_false]
        rw [touchesAll_opened ordered apart grouped]
        have continued :=
          @inductionHypothesis [] item ordered.tail (by simp) (by simp)
        simpa using continued

/-- Every item overlaps a selected one exactly when none is stranded. -/
theorem touchesAll_select_iff {items : List α}
    (ordered : Ordered start finish items) :
    TouchesAll start finish items
        (select (overlap start finish) better items) ↔
      strandsNone start finish better items = true := by
  cases items with
  | nil =>
      simp [TouchesAll, strandsNone]
  | cons head tail =>
      have fromHead :=
        @touchesAll_selectFrom_iff α τ _ start finish better [] head tail
          ordered (by simp) (by simp)
      simpa [select, strandsNone] using fromHead

end Spans

end LastPlace
