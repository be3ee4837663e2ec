import Mathlib.Data.List.Basic
import Mathlib.Tactic.Tauto

/-!
# Fallible computations

Rules for computations in `Except`: how a sequence that succeeded is taken
apart, and what a loop over a list that may fail has established when it comes
to its end.
-/

namespace Fallible

variable {α β γ ε : Type}

@[simp]
theorem ok_bind (value : α) (next : α → Except ε β) :
    (Except.ok value >>= next) = next value := rfl

@[simp]
theorem error_bind (failure : ε) (next : α → Except ε β) :
    (Except.error failure >>= next) = .error failure := rfl

/-- A successful sequence has a successful first part. -/
theorem bind_eq_ok {action : Except ε α} {next : α → Except ε β}
    {result : β} :
    (action >>= next) = .ok result ↔
      ∃ value, action = .ok value ∧ next value = .ok result := by
  cases action with
  | error failure =>
      simp
  | ok value =>
      simp

/-- A sequence fails in its first part or in the rest. -/
theorem bind_eq_error {action : Except ε α} {next : α → Except ε β}
    {failure : ε} :
    (action >>= next) = .error failure ↔
      action = .error failure ∨
        ∃ value, action = .ok value ∧ next value = .error failure := by
  cases action with
  | error other =>
      simp [error_bind]
  | ok value =>
      simp [ok_bind]

/-- A check before the rest. -/
theorem check_bind_eq_ok {check : Except ε Unit} {next : Unit → Except ε β}
    {result : β} :
    (check >>= next) = .ok result ↔
      check = .ok () ∧ next () = .ok result := by
  cases check with
  | error failure =>
      simp
  | ok _ =>
      simp

/-- A guarded failure that was passed. -/
theorem ite_error_eq_ok {condition : Prop} [Decidable condition]
    {failure : ε} {action : Except ε α} {result : α} :
    (if condition then .error failure else action) = .ok result ↔
      ¬ condition ∧ action = .ok result := by
  by_cases holds : condition <;> simp [holds]

/-- A computation whose value passes a test has succeeded. -/
theorem exists_ok_of_any {computed : Option (Except ε α)} {test : α → Bool}
    (passes : computed.any (fun result => result.toOption.any test) = true) :
    ∃ value, computed = some (.ok value) ∧ test value = true := by
  obtain ⟨result, isResult, tested⟩ := (Option.any_eq_true _ _).mp passes
  cases result with
  | error failure =>
      cases tested
  | ok value =>
      exact ⟨value, isResult, tested⟩

/-- One round of a successful loop. -/
theorem foldlM_cons_eq_ok {step : β → α → Except ε β} {head : α}
    {tail : List α} {state result : β} :
    (head :: tail).foldlM step state = .ok result ↔
      ∃ middle, step state head = .ok middle ∧
        tail.foldlM step middle = .ok result := by
  rw [List.foldlM_cons, bind_eq_ok]

/-- A loop of checks passes when every check does. -/
theorem forM_eq_ok {check : α → Except ε Unit} {items : List α} :
    forM items check = .ok () ↔ ∀ item ∈ items, check item = .ok () := by
  induction items with
  | nil =>
      simp [pure, Except.pure]
  | cons head tail inductionHypothesis =>
      rw [List.forM_cons, bind_eq_ok, List.forall_mem_cons,
        ← inductionHypothesis]
      exact ⟨fun ⟨_, passed, rest⟩ => ⟨passed, rest⟩,
        fun ⟨passed, rest⟩ => ⟨(), passed, rest⟩⟩

/-- Every item of a list that was mapped has its result. -/
theorem mem_of_mapM_eq_ok {action : α → Except ε β} {items : List α}
    {results : List β} (done : items.mapM action = .ok results) :
    ∀ item ∈ items, ∃ result ∈ results, action item = .ok result := by
  induction items generalizing results with
  | nil =>
      simp
  | cons head tail inductionHypothesis =>
      rw [List.mapM_cons] at done
      obtain ⟨first, firstDone, rest⟩ := bind_eq_ok.mp done
      obtain ⟨others, othersDone, shape⟩ := bind_eq_ok.mp rest
      cases shape
      intro item member
      rcases List.mem_cons.mp member with here | later
      · rw [here]
        exact ⟨first, List.mem_cons_self, firstDone⟩
      · obtain ⟨result, inside, isResult⟩ :=
          inductionHypothesis othersDone item later
        exact ⟨result, List.mem_cons_of_mem first inside, isResult⟩

/-- A list that was mapped by an action whose results are known. -/
theorem eq_map_of_mapM_eq_ok {action : α → Except ε β} {result : α → β}
    (known : ∀ item value, action item = .ok value → value = result item)
    {items : List α} {results : List β}
    (done : items.mapM action = .ok results) :
    results = items.map result := by
  induction items generalizing results with
  | nil =>
      cases done
      rfl
  | cons head tail inductionHypothesis =>
      rw [List.mapM_cons] at done
      obtain ⟨first, here, later⟩ := bind_eq_ok.mp done
      obtain ⟨rest, there, last⟩ := bind_eq_ok.mp later
      cases last
      rw [known head first here, inductionHypothesis there, List.map_cons]

theorem mapM_eq_ok_map {action : α → Except ε β} {result : α → β}
    {items : List α}
    (each : ∀ item ∈ items, action item = .ok (result item)) :
    items.mapM action = .ok (items.map result) := by
  induction items with
  | nil =>
      rfl
  | cons head tail inductionHypothesis =>
      rw [List.mapM_cons, each head List.mem_cons_self, ok_bind,
        inductionHypothesis fun item member =>
          each item (List.mem_cons_of_mem head member),
        ok_bind]
      rfl

theorem foldl_invariant {step : β → α → β} (invariant : β → Prop)
    (preserved : ∀ state item, invariant state → invariant (step state item))
    {items : List α} {state : β} (initially : invariant state) :
    invariant (items.foldl step state) := by
  induction items generalizing state with
  | nil =>
      exact initially
  | cons head tail inductionHypothesis =>
      exact inductionHypothesis (preserved state head initially)

/-- The same when the rounds of the listed items alone preserve it. -/
theorem foldl_mem_invariant {step : β → α → β} (invariant : β → Prop)
    {items : List α}
    (preserved :
      ∀ state, ∀ item ∈ items, invariant state → invariant (step state item))
    {state : β} (initially : invariant state) :
    invariant (items.foldl step state) := by
  induction items generalizing state with
  | nil =>
      exact initially
  | cons head tail inductionHypothesis =>
      exact inductionHypothesis
        (fun before item member =>
          preserved before item (List.mem_cons_of_mem head member))
        (preserved state head List.mem_cons_self initially)

/-- Every item is admitted when its turn comes. -/
def Admitted (admits : β → α → Prop) (next : β → α → β) :
    β → List α → Prop
  | _, [] => True
  | state, head :: tail =>
      admits state head ∧ Admitted admits next (next state head) tail

/-- A loop whose rounds succeed exactly on admitted items. -/
theorem foldlM_eq_ok_iff {step : β → α → Except ε β}
    {admits : β → α → Prop} {next : β → α → β}
    (round : ∀ before item after,
      step before item = .ok after ↔
        admits before item ∧ after = next before item)
    {items : List α} {state result : β} :
    items.foldlM step state = .ok result ↔
      Admitted admits next state items ∧
        result = items.foldl next state := by
  induction items generalizing state with
  | nil =>
      simp [Admitted, pure, Except.pure, eq_comm]
  | cons head tail inductionHypothesis =>
      simp only [foldlM_cons_eq_ok, round, Admitted, List.foldl_cons,
        inductionHypothesis]
      constructor
      · rintro ⟨middle, ⟨admitted, rfl⟩, rest, shape⟩
        exact ⟨⟨admitted, rest⟩, shape⟩
      · rintro ⟨⟨admitted, rest⟩, shape⟩
        exact ⟨_, ⟨admitted, rfl⟩, rest, shape⟩

section Admitted

variable {next : β → α → β} {items : List α} {state : β}

theorem admitted_and {first second : β → α → Prop} :
    Admitted (fun state item => first state item ∧ second state item) next
        state items ↔
      Admitted first next state items ∧ Admitted second next state items := by
  induction items generalizing state with
  | nil =>
      simp [Admitted]
  | cons head tail inductionHypothesis =>
      simp only [Admitted, inductionHypothesis]
      tauto

theorem admitted_const {good : α → Prop} :
    Admitted (fun _ item => good item) next state items ↔
      ∀ item ∈ items, good item := by
  induction items generalizing state with
  | nil =>
      simp [Admitted]
  | cons head tail inductionHypothesis =>
      simp only [Admitted, inductionHypothesis, List.forall_mem_cons]

/-- A loop that collects the keys it has seen admits distinct new keys. -/
theorem admitted_distinct {κ : Type} (key : α → κ) (seen : β → List κ)
    (collects : ∀ state item, seen (next state item) = key item :: seen state) :
    Admitted (fun state item => key item ∉ seen state) next state items ↔
      (items.map key).Nodup ∧ ∀ item ∈ items, key item ∉ seen state := by
  induction items generalizing state with
  | nil =>
      simp [Admitted]
  | cons head tail inductionHypothesis =>
      simp only [Admitted, inductionHypothesis, collects,
        List.forall_mem_cons]
      simp only [List.map_cons, List.nodup_cons, List.mem_map, List.mem_cons,
        not_or, not_exists, not_and]
      constructor
      · rintro ⟨fresh, distinct, new⟩
        exact ⟨⟨fun item member => (new item member).1, distinct⟩, fresh,
          fun item member => (new item member).2⟩
      · rintro ⟨⟨unrepeated, distinct⟩, fresh, new⟩
        exact ⟨fresh, distinct,
          fun item member => ⟨unrepeated item member, new item member⟩⟩

/-- A part of the state that gains the key of every item. -/
theorem foldl_collects {κ : Type} (key : α → κ) (seen : β → List κ)
    (collects : ∀ state item, seen (next state item) = key item :: seen state) :
    seen (items.foldl next state) = (items.map key).reverse ++ seen state := by
  induction items generalizing state with
  | nil =>
      simp
  | cons head tail inductionHypothesis =>
      simp [inductionHypothesis, collects]

end Admitted

end Fallible
