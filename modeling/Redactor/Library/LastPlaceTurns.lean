import Redactor.Library.LastPlaceRuns

/-!
# Who has the last place when a turn comes

An item gets the last place against the item that has it then.  The item that
has it in the end got it once and has not been replaced since.
-/

namespace LastPlace

variable {α : Type} {clash better : α → α → Bool}

theorem takes_iff_holder {before : List α} {item : α} :
    takes clash better before item = true ↔
      ∀ held, holder clash better before = some held →
        clash held item = true → better held item = true := by
  cases before with
  | nil =>
      simp [takes, holder]
  | cons first rest =>
      simp only [takes, holder, Option.some.injEq, forall_eq',
        Bool.or_eq_true, Bool.not_eq_true']
      cases clash (holderFrom clash better first rest) item <;> simp

/-- An item that has got the last place is the first one to be held against
those that follow. -/
theorem holder_append_cons {before rest : List α} {item : α}
    (taken : takes clash better before item = true) :
    holder clash better (before ++ item :: rest) =
      some (holderFrom clash better item rest) := by
  cases before with
  | nil =>
      rfl
  | cons first before =>
      simp only [List.cons_append, holder, Option.some.injEq]
      simp only [takes, Bool.or_eq_true, Bool.not_eq_true'] at taken
      induction before generalizing first with
      | nil =>
          simp only [List.nil_append, holderFrom]
          simp only [holderFrom] at taken
          rcases taken with apart | preferred
          · simp [apart]
          · simp [preferred]
      | cons second before inductionHypothesis =>
          simp only [List.cons_append, holderFrom] at taken ⊢
          split
          · rename_i dropped
            simp only [dropped, if_true] at taken
            exact inductionHypothesis first taken
          · rename_i passed
            simp only [passed] at taken
            exact inductionHypothesis second taken

/-- What clashes with an item and is not preferred to it leaves it in the last
place. -/
def Stays (clash better : α → α → Bool) (held : α) (rest : List α) : Prop :=
  ∀ later ∈ rest, clash held later = true ∧ better held later = false

theorem holderFrom_of_stays {held : α} {rest : List α}
    (stays : Stays clash better held rest) :
    holderFrom clash better held rest = held := by
  induction rest with
  | nil =>
      rfl
  | cons head tail inductionHypothesis =>
      obtain ⟨clashes, resists⟩ := stays head List.mem_cons_self
      simp only [holderFrom, clashes, resists, Bool.not_false, Bool.and_self,
        if_true]
      exact inductionHypothesis fun later member =>
        stays later (List.mem_cons_of_mem head member)

theorem exists_split_of_holderFrom {first : α} {rest : List α} :
    Stays clash better (holderFrom clash better first rest) rest ∧
        holderFrom clash better first rest = first ∨
      ∃ before after,
        rest = before ++ holderFrom clash better first rest :: after ∧
        takes clash better (first :: before)
          (holderFrom clash better first rest) = true ∧
        Stays clash better (holderFrom clash better first rest) after := by
  induction rest generalizing first with
  | nil =>
      exact Or.inl ⟨by simp [Stays], rfl⟩
  | cons item rest inductionHypothesis =>
      unfold holderFrom
      split
      · rename_i dropped
        rcases @inductionHypothesis first with
          ⟨stays, same⟩ | ⟨before, after, shape, taken, stays⟩
        · refine Or.inl ⟨?_, same⟩
          rw [same] at stays ⊢
          simp only [Bool.and_eq_true, Bool.not_eq_true'] at dropped
          intro later member
          rcases List.mem_cons.mp member with isItem | further
          · rw [isItem]
            exact dropped
          · exact stays later further
        · refine Or.inr
            ⟨item :: before, after, by rw [List.cons_append, ← shape], ?_,
              stays⟩
          simp only [takes, holderFrom, dropped, if_true] at taken ⊢
          exact taken
      · rename_i passed
        right
        rcases @inductionHypothesis item with
          ⟨stays, same⟩ | ⟨before, after, shape, taken, stays⟩
        · rw [same] at stays ⊢
          refine ⟨[], rest, rfl, ?_, stays⟩
          simp only [Bool.and_eq_true, Bool.not_eq_true', not_and,
            Bool.not_eq_false] at passed
          simp only [takes, holderFrom, Bool.or_eq_true, Bool.not_eq_true']
          cases clashes : clash first item with
          | false => exact Or.inl rfl
          | true => exact Or.inr (passed clashes)
        · refine ⟨item :: before, after, by rw [List.cons_append, ← shape],
            ?_, stays⟩
          simp only [takes, holderFrom, passed] at taken ⊢
          exact taken

/-- The item in the last place got it and stayed there. -/
theorem exists_split_of_holder {items : List α} {held : α}
    (isHolder : holder clash better items = some held) :
    ∃ before rest, items = before ++ held :: rest ∧
      takes clash better before held = true ∧
      Stays clash better held rest := by
  cases items with
  | nil =>
      cases isHolder
  | cons first rest =>
      cases isHolder
      rcases @exists_split_of_holderFrom α clash better first rest with
        ⟨stays, same⟩ | ⟨before, after, shape, taken, stays⟩
      · exact ⟨[], rest, by rw [same]; rfl, rfl, stays⟩
      · exact ⟨first :: before, after, by rw [List.cons_append, ← shape],
          taken, stays⟩

theorem mem_of_holder {read : List α} {held : α}
    (isHolder : holder clash better read = some held) : held ∈ read := by
  obtain ⟨front, rest, split, _⟩ := exists_split_of_holder isHolder
  rw [split]
  exact List.mem_append_right front List.mem_cons_self

/-- An item is replaced by the first one that it clashes with and that is
preferred to it, unless the chain of clashes breaks before. -/
theorem keeps_iff {held : α} {after : List α} :
    keeps clash better held after = true ↔
      ∀ before later rest, after = before ++ later :: rest →
        (∀ other ∈ before, clash held other = true) →
        clash held later = true → better held later = false := by
  induction after with
  | nil =>
      simp [keeps]
  | cons head tail inductionHypothesis =>
      unfold keeps
      by_cases clashes : clash held head = true
      · simp only [clashes, if_true, Bool.and_eq_true, Bool.not_eq_true',
          inductionHypothesis]
        constructor
        · rintro ⟨resists, kept⟩ before later rest shape reached meets
          cases before with
          | nil =>
              obtain ⟨rfl, _⟩ := List.cons.inj shape
              exact resists
          | cons first before =>
              obtain ⟨_, sameTail⟩ := List.cons.inj shape
              exact kept before later rest sameTail
                (fun other member =>
                  reached other (List.mem_cons_of_mem first member))
                meets
        · intro kept
          refine ⟨kept [] head tail rfl (by simp) clashes, ?_⟩
          intro before later rest shape reached meets
          apply kept (head :: before) later rest (by rw [shape]; rfl) _ meets
          intro other member
          rcases List.mem_cons.mp member with isHead | further
          · rw [isHead]
            exact clashes
          · exact reached other further
      · simp only [clashes, Bool.false_eq_true, if_false, true_iff]
        intro before later rest shape reached meets
        cases before with
        | nil =>
            obtain ⟨rfl, _⟩ := List.cons.inj shape
            exact absurd meets clashes
        | cons first before =>
            obtain ⟨rfl, _⟩ := List.cons.inj shape
            exact absurd (reached _ List.mem_cons_self) clashes

end LastPlace
