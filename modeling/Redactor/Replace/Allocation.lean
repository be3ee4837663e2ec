import Redactor.Replace.Processor

/-!
# What an allocation does to the state

One inversion lemma says all that `allocationFor` can do.  From it follow the
invariants of the state: keys and allocations agree, an allocation that exists
is never taken back, tokens stay distinct as long as a new token is new.
-/

namespace Redactor

open Utf8 Fallible

theorem increment_le {runtime : Runtime} {value result : Nat}
    (incremented : increment runtime value = some result) :
    result ≤ unsignedMax := by
  unfold increment at incremented
  split at incremented
  · cases incremented
    omega
  · split at incremented
    · cases incremented
    · cases incremented
      exact Nat.zero_le _

theorem increment_of_lt {runtime : Runtime} {value : Nat}
    (below : value < unsignedMax) :
    increment runtime value = some (value + 1) :=
  if_pos below

/-- An addition that does not abort is the addition of machine integers. -/
theorem increment_eq_mod {runtime : Runtime} {value result : Nat}
    (fits : value ≤ unsignedMax)
    (incremented : increment runtime value = some result) :
    result = (value + 1) % (unsignedMax + 1) := by
  unfold increment at incremented
  split at incremented
  · cases incremented
    rw [Nat.mod_eq_of_lt (by omega)]
  · split at incremented
    · cases incremented
    · cases incremented
      have atLimit : value = unsignedMax := by omega
      rw [atLimit, Nat.mod_self]

def Finding.key (finding : Finding) : FindingKind × Text :=
  (finding.kind, finding.matchText)

namespace SessionState

/-- The allocation of a key. -/
def allocation? (state : SessionState) (key : FindingKind × Text) :
    Option Allocation :=
  state.allocations[key]?

/-- How often a key has been replaced. -/
def occurrences (state : SessionState) (key : FindingKind × Text) : Nat :=
  ((state.allocation? key).map Allocation.occurrences).getD 0

/-- The state after the replacement of a finding that has an allocation. -/
def reuse (state : SessionState) (key : FindingKind × Text)
    (allocation : Allocation) (occurrences : Nat) : SessionState :=
  { state with
    allocations :=
      state.allocations.insert key { allocation with occurrences } }

/-- The allocation of a finding that has none. -/
def fresh (runtime : Runtime) (state : SessionState) (finding : Finding)
    (counter : Nat) : Allocation where
  token := formatToken runtime state.scopeId finding.kind counter
  kind := finding.kind
  original := finding.matchText
  replacementHint := displayHint runtime finding
  occurrences := 1

/-- The state after the replacement of a finding that had no allocation. -/
def allocate (runtime : Runtime) (state : SessionState) (finding : Finding)
    (counter : Nat) : SessionState :=
  { state with
    counters := state.counters.insert finding.kind counter
    allocations :=
      state.allocations.insert finding.key
        (state.fresh runtime finding counter) }

section Lookup

variable {runtime : Runtime} {state : SessionState} {finding : Finding}
  {key other : FindingKind × Text} {allocation : Allocation}
  {count counter : Nat}

@[simp]
theorem allocation?_reuse :
    (state.reuse key allocation count).allocation? other =
      if key = other then some { allocation with occurrences := count }
      else state.allocation? other := by
  simp only [allocation?, reuse, Std.TreeMap.getElem?_insert,
    allocationOrder_eq_iff]

@[simp]
theorem allocation?_allocate :
    (state.allocate runtime finding counter).allocation? other =
      if finding.key = other then some (state.fresh runtime finding counter)
      else state.allocation? other := by
  simp only [allocation?, allocate, Std.TreeMap.getElem?_insert,
    allocationOrder_eq_iff]

theorem allocation?_reuse_self :
    (state.reuse key allocation count).allocation? key =
      some { allocation with occurrences := count } := by
  rw [allocation?_reuse, if_pos rfl]

theorem allocation?_allocate_self :
    (state.allocate runtime finding counter).allocation? finding.key =
      some (state.fresh runtime finding counter) := by
  rw [allocation?_allocate, if_pos rfl]

@[simp]
theorem counter_reuse {kind : FindingKind} :
    (state.reuse key allocation count).counter kind = state.counter kind :=
  rfl

@[simp]
theorem counter_allocate {kind : FindingKind} :
    (state.allocate runtime finding counter).counter kind =
      if finding.kind = kind then counter else state.counter kind := by
  simp only [SessionState.counter, allocate, Std.TreeMap.getD_insert,
    Std.LawfulEqCmp.compare_eq_iff_eq]

end Lookup

end SessionState

/-- All that replacing a finding can do: reuse the allocation of its key, or
allocate the next token of its kind. -/
inductive AllocationStep (runtime : Runtime) (state : SessionState)
    (finding : Finding) : SessionState → Text → Option Text → Prop
  | reuse {allocation : Allocation} {count : Nat} :
      state.allocation? finding.key = some allocation →
      increment runtime allocation.occurrences = some count →
      AllocationStep runtime state finding
        (state.reuse finding.key allocation count) allocation.token
        allocation.replacementHint
  | allocate {counter : Nat} :
      state.allocation? finding.key = none →
      increment runtime (state.counter finding.kind) = some counter →
      AllocationStep runtime state finding
        (state.allocate runtime finding counter)
        (formatToken runtime state.scopeId finding.kind counter)
        (displayHint runtime finding)

section Step

variable {runtime : Runtime} {state next : SessionState} {finding : Finding}
  {token : Text} {hint : Option Text}

theorem allocationFor_eq_some :
    allocationFor runtime state finding = some (next, token, hint) ↔
      AllocationStep runtime state finding next token hint := by
  constructor
  · intro done
    unfold allocationFor at done
    simp only at done
    split at done
    · rename_i allocation found
      obtain ⟨count, incremented, done⟩ := Option.bind_eq_some_iff.mp done
      cases done
      exact .reuse found incremented
    · rename_i absent
      obtain ⟨counter, incremented, done⟩ := Option.bind_eq_some_iff.mp done
      cases done
      exact .allocate absent incremented
  · rintro (⟨found, incremented⟩ | ⟨absent, incremented⟩)
    · rw [SessionState.allocation?, Finding.key] at found
      simp only [allocationFor, found]
      rw [incremented]
      rfl
    · rw [SessionState.allocation?, Finding.key] at absent
      simp only [allocationFor, absent]
      rw [incremented]
      rfl

/-- The allocation that a replaced finding has from then on. -/
theorem AllocationStep.allocated
    (step : AllocationStep runtime state finding next token hint) :
    ∃ allocation, next.allocation? finding.key = some allocation ∧
      allocation.token = token := by
  cases step with
  | reuse found _ =>
      exact ⟨_, SessionState.allocation?_reuse_self, rfl⟩
  | allocate absent _ =>
      exact ⟨_, SessionState.allocation?_allocate_self, rfl⟩

/-- Only the key of the finding gets another allocation. -/
theorem AllocationStep.frame
    (step : AllocationStep runtime state finding next token hint)
    {key : FindingKind × Text} (other : finding.key ≠ key) :
    next.allocation? key = state.allocation? key := by
  cases step with
  | reuse _ _ =>
      simp [other]
  | allocate _ _ =>
      simp [other]

end Step

/-- The next state has the context and all allocations of the state, where only
the numbers of occurrences may differ. -/
structure SessionState.Extends (state next : SessionState) : Prop where
  scopeId : next.scopeId = state.scopeId
  externalId : next.externalId = state.externalId
  allocations :
    ∀ key allocation, state.allocation? key = some allocation →
      ∃ count,
        next.allocation? key =
          some { allocation with occurrences := count }

namespace SessionState.Extends

theorem refl (state : SessionState) : state.Extends state :=
  ⟨rfl, rfl, fun _ allocation found => ⟨allocation.occurrences, found⟩⟩

theorem trans {first second third : SessionState}
    (left : first.Extends second) (right : second.Extends third) :
    first.Extends third := by
  refine ⟨right.scopeId.trans left.scopeId,
    right.externalId.trans left.externalId, ?_⟩
  intro key allocation found
  obtain ⟨count, foundSecond⟩ := left.allocations key allocation found
  obtain ⟨count', foundThird⟩ := right.allocations key _ foundSecond
  exact ⟨count', foundThird⟩

end SessionState.Extends

theorem AllocationStep.extends {runtime : Runtime}
    {state next : SessionState} {finding : Finding} {token : Text}
    {hint : Option Text}
    (step : AllocationStep runtime state finding next token hint) :
    state.Extends next := by
  have context :
      next.scopeId = state.scopeId ∧ next.externalId = state.externalId := by
    cases step <;> exact ⟨rfl, rfl⟩
  refine ⟨context.1, context.2, ?_⟩
  intro key allocation found
  by_cases same : finding.key = key
  · subst same
    cases step with
    | reuse foundHere _ =>
        rw [foundHere] at found
        cases found
        exact ⟨_, SessionState.allocation?_reuse_self⟩
    | allocate absent _ =>
        rw [absent] at found
        cases found
  · exact ⟨allocation.occurrences, by rw [step.frame same, found]⟩

/-! ## Invariants -/

namespace SessionState

/-- Every allocation is of the kind and the original of its key. -/
def Keyed (state : SessionState) : Prop :=
  ∀ key allocation, state.allocation? key = some allocation →
    (allocation.kind, allocation.original) = key

/-- Different keys have different tokens. -/
def Distinct (state : SessionState) : Prop :=
  ∀ left right leftAllocation rightAllocation,
    state.allocation? left = some leftAllocation →
      state.allocation? right = some rightAllocation →
      leftAllocation.token = rightAllocation.token → left = right

/-- Every token parses, in the scope of the state and with the kind of its
key. -/
def Parsed (runtime : Runtime) (state : SessionState) : Prop :=
  ∀ key allocation, state.allocation? key = some allocation →
    ∃ counter,
      parseToken runtime allocation.token =
        .ok ⟨state.scopeId, key.1, counter⟩

/-- No token of a kind has a number above the counter of the kind. -/
def Counted (runtime : Runtime) (state : SessionState) : Prop :=
  ∀ key allocation parsed, state.allocation? key = some allocation →
    parseToken runtime allocation.token = .ok parsed →
    parsed.counter ≤ state.counter parsed.kind

/-- The token is not allocated. -/
def Unallocated (state : SessionState) (token : Text) : Prop :=
  ∀ key allocation, state.allocation? key = some allocation →
    allocation.token ≠ token

end SessionState

section Invariants

variable {runtime : Runtime} {state next : SessionState} {finding : Finding}
  {token : Text} {hint : Option Text}

theorem AllocationStep.keyed
    (step : AllocationStep runtime state finding next token hint)
    (keyed : state.Keyed) :
    next.Keyed := by
  intro key allocation found
  by_cases same : finding.key = key
  · subst same
    cases step with
    | @reuse before _ foundHere _ =>
        rw [SessionState.allocation?_reuse_self] at found
        cases found
        exact keyed finding.key before foundHere
    | allocate _ _ =>
        rw [SessionState.allocation?_allocate_self] at found
        cases found
        rfl
  · rw [step.frame same] at found
    exact keyed key allocation found

/-- Tokens in a proper scope parse, so new ones do. -/
theorem AllocationStep.parsed
    (step : AllocationStep runtime state finding next token hint)
    (scope : IsScope state.scopeId) (parsed : state.Parsed runtime) :
    next.Parsed runtime := by
  intro key allocation found
  rw [step.extends.scopeId]
  by_cases same : finding.key = key
  · subst same
    cases step with
    | @reuse before _ foundHere _ =>
        rw [SessionState.allocation?_reuse_self] at found
        cases found
        exact parsed finding.key before foundHere
    | allocate _ incremented =>
        rw [SessionState.allocation?_allocate_self] at found
        cases found
        exact ⟨_, parseToken_formatToken scope (increment_le incremented)⟩
  · rw [step.frame same] at found
    exact parsed key allocation found

/-- Distinctness is kept exactly by allocating tokens that are new. -/
theorem AllocationStep.distinct_iff
    (step : AllocationStep runtime state finding next token hint)
    (distinct : state.Distinct) :
    next.Distinct ↔
      (state.allocation? finding.key = none → state.Unallocated token) := by
  cases step with
  | @reuse allocation count foundHere _ =>
      simp only [foundHere, reduceCtorEq, false_implies, iff_true]
      -- the tokens are those of the state before
      have earlier :
          ∀ key allocation',
            (state.reuse finding.key allocation count).allocation? key =
                some allocation' →
              ∃ before, state.allocation? key = some before ∧
                before.token = allocation'.token := by
        intro key allocation' found
        rw [SessionState.allocation?_reuse] at found
        split at found
        · rename_i same
          subst same
          cases found
          exact ⟨allocation, foundHere, rfl⟩
        · exact ⟨allocation', found, rfl⟩
      intro left right leftAllocation rightAllocation foundLeft foundRight
        sameToken
      obtain ⟨leftBefore, leftFound, leftToken⟩ := earlier _ _ foundLeft
      obtain ⟨rightBefore, rightFound, rightToken⟩ := earlier _ _ foundRight
      exact distinct _ _ _ _ leftFound rightFound
        (by rw [leftToken, rightToken, sameToken])
  | @allocate counter absent _ =>
      simp only [absent, true_implies]
      have here :
          (state.allocate runtime finding counter).allocation? finding.key =
            some (state.fresh runtime finding counter) :=
        SessionState.allocation?_allocate_self
      have elsewhere :
          ∀ key, finding.key ≠ key →
            (state.allocate runtime finding counter).allocation? key =
              state.allocation? key := by
        intro key other
        simp [other]
      constructor
      · intro nextDistinct key allocation found sameToken
        have other : finding.key ≠ key := by
          rintro rfl
          rw [absent] at found
          cases found
        exact other
          (nextDistinct _ _ _ _ here ((elsewhere key other).trans found)
            sameToken.symm)
      · intro unallocated left right leftAllocation rightAllocation foundLeft
          foundRight sameToken
        by_cases leftHere : finding.key = left <;>
          by_cases rightHere : finding.key = right
        · exact leftHere.symm.trans rightHere
        · subst leftHere
          rw [here] at foundLeft
          cases foundLeft
          rw [elsewhere right rightHere] at foundRight
          exact (unallocated _ _ foundRight sameToken.symm).elim
        · subst rightHere
          rw [here] at foundRight
          cases foundRight
          rw [elsewhere left leftHere] at foundLeft
          exact (unallocated _ _ foundLeft sameToken).elim
        · rw [elsewhere left leftHere] at foundLeft
          rw [elsewhere right rightHere] at foundRight
          exact distinct _ _ _ _ foundLeft foundRight sameToken

/-- Below the limit the counters stay ahead of the tokens. -/
theorem AllocationStep.counted
    (step : AllocationStep runtime state finding next token hint)
    (scope : IsScope state.scopeId)
    (below : state.allocation? finding.key = none →
      state.counter finding.kind < unsignedMax)
    (counted : state.Counted runtime) :
    next.Counted runtime := by
  intro key allocation parsed found read
  cases step with
  | reuse foundHere _ =>
      rw [SessionState.allocation?_reuse] at found
      split at found
      · cases found
        exact counted _ _ parsed foundHere read
      · exact counted _ _ parsed found read
  | @allocate counter absent incremented =>
      rw [increment_of_lt (below absent)] at incremented
      cases incremented
      rw [SessionState.counter_allocate]
      rw [SessionState.allocation?_allocate] at found
      split at found
      · cases found
        rw [SessionState.fresh,
          parseToken_formatToken scope (below absent)] at read
        cases read
        simp
      · have bound := counted _ _ parsed found read
        split
        · rename_i sameKind
          rw [← sameKind] at bound
          omega
        · exact bound

/-- Below the limit the next token is new. -/
theorem SessionState.Counted.unallocated (counted : state.Counted runtime)
    (scope : IsScope state.scopeId) {kind : FindingKind}
    (below : state.counter kind < unsignedMax) :
    state.Unallocated
      (formatToken runtime state.scopeId kind (state.counter kind + 1)) := by
  intro key allocation found same
  have bound :=
    counted key allocation ⟨state.scopeId, kind, state.counter kind + 1⟩ found
      (by rw [same, parseToken_formatToken scope below])
  simp only at bound
  omega

/-- The number of occurrences of the finding's key goes up by one. -/
theorem AllocationStep.occurrences
    (step : AllocationStep runtime state finding next token hint)
    (key : FindingKind × Text)
    (fits : state.occurrences key ≤ unsignedMax) :
    next.occurrences key =
      (state.occurrences key + if finding.key = key then 1 else 0) %
        (unsignedMax + 1) := by
  by_cases same : finding.key = key
  · subst same
    rw [if_pos rfl]
    cases step with
    | @reuse allocation count foundHere incremented =>
        have here : state.occurrences finding.key = allocation.occurrences := by
          rw [SessionState.occurrences, foundHere]
          rfl
        rw [here] at fits ⊢
        rw [SessionState.occurrences, SessionState.allocation?_reuse_self]
        exact increment_eq_mod fits incremented
    | allocate absent _ =>
        simp [SessionState.occurrences, absent, SessionState.fresh,
          unsignedMax]
  · rw [if_neg same, Nat.add_zero, Nat.mod_eq_of_lt (by omega),
      SessionState.occurrences, step.frame same, SessionState.occurrences]

end Invariants

end Redactor
