import Redactor.Replace.Allocation

/-!
# From a prior session to the next one

Loading a session into a processor, replacing findings and building the next
session are three steps.  The loaded state has one allocation for each entry;
replacing extends it; the session that is built is valid when the state has
distinct tokens that parse, and it continues the prior session.
-/

namespace Redactor

open Utf8 Fallible

/-- The effect of a list of findings on the state. -/
def allocateAll (runtime : Runtime) :
    SessionState → List Finding → Option SessionState
  | state, [] => some state
  | state, finding :: findings => do
      let (state, _, _) ← allocationFor runtime state finding
      allocateAll runtime state findings

/-- How many findings have the key. -/
def countKey (key : FindingKind × Text) (findings : List Finding) : Nat :=
  findings.countP fun finding => finding.key = key

theorem countKey_cons (key : FindingKind × Text) {finding : Finding}
    {findings : List Finding} :
    countKey key (finding :: findings) =
      countKey key findings + if finding.key = key then 1 else 0 := by
  rw [countKey, countKey, List.countP_cons]
  simp only [decide_eq_true_eq]

section AllocateAll

variable {runtime : Runtime}

theorem allocateAll_cons {state result : SessionState} {finding : Finding}
    {findings : List Finding} :
    allocateAll runtime state (finding :: findings) = some result ↔
      ∃ next token hint,
        AllocationStep runtime state finding next token hint ∧
          allocateAll runtime next findings = some result := by
  rw [allocateAll, Option.bind_eq_bind, Option.bind_eq_some_iff]
  constructor
  · rintro ⟨⟨next, token, hint⟩, done, rest⟩
    exact ⟨next, token, hint, allocationFor_eq_some.mp done, rest⟩
  · rintro ⟨next, token, hint, step, rest⟩
    exact ⟨(next, token, hint), allocationFor_eq_some.mpr step, rest⟩

/-- What every replacement preserves holds after all of them. -/
theorem allocateAll_invariant (invariant : SessionState → Prop)
    (preserved : ∀ state finding next token hint, invariant state →
      AllocationStep runtime state finding next token hint → invariant next)
    {state result : SessionState} {findings : List Finding}
    (initially : invariant state)
    (done : allocateAll runtime state findings = some result) :
    invariant result := by
  induction findings generalizing state with
  | nil =>
      cases done
      exact initially
  | cons finding findings inductionHypothesis =>
      obtain ⟨next, token, hint, step, rest⟩ := allocateAll_cons.mp done
      exact inductionHypothesis (preserved _ _ _ _ _ initially step) rest

theorem allocateAll_extends {state result : SessionState}
    {findings : List Finding}
    (done : allocateAll runtime state findings = some result) :
    state.Extends result :=
  allocateAll_invariant state.Extends
    (fun _ _ _ _ _ extended step => extended.trans step.extends)
    (.refl state) done

theorem keyed_allocateAll {state result : SessionState}
    {findings : List Finding} (keyed : state.Keyed)
    (done : allocateAll runtime state findings = some result) :
    result.Keyed :=
  allocateAll_invariant SessionState.Keyed
    (fun _ _ _ _ _ before step => step.keyed before) keyed done

/-- The tokens of the state parse after any replacements, in a proper scope or
when nothing is replaced. -/
theorem parsed_allocateAll {state result : SessionState}
    {findings : List Finding} (parsed : state.Parsed runtime)
    (scope : IsScope state.scopeId ∨ findings = [])
    (done : allocateAll runtime state findings = some result) :
    result.Parsed runtime := by
  rcases scope with scope | rfl
  · refine (allocateAll_invariant
      (fun later => IsScope later.scopeId ∧ later.Parsed runtime)
      ?_ ⟨scope, parsed⟩ done).2
    rintro before finding next token hint ⟨proper, parsedBefore⟩ step
    refine ⟨?_, step.parsed proper parsedBefore⟩
    rw [step.extends.scopeId]
    exact proper
  · cases done
    exact parsed

/-- The number of occurrences grows with the findings of the key. -/
theorem allocateAll_occurrences {state result : SessionState}
    {findings : List Finding} (key : FindingKind × Text)
    (fits : state.occurrences key ≤ unsignedMax)
    (done : allocateAll runtime state findings = some result) :
    result.occurrences key =
      (state.occurrences key + countKey key findings) %
        (unsignedMax + 1) := by
  induction findings generalizing state with
  | nil =>
      cases done
      rw [countKey, List.countP_nil, Nat.add_zero, Nat.mod_eq_of_lt (by omega)]
  | cons finding findings inductionHypothesis =>
      obtain ⟨next, token, hint, step, rest⟩ := allocateAll_cons.mp done
      have here := step.occurrences key fits
      have bound : next.occurrences key ≤ unsignedMax := by
        rw [here]
        exact Nat.le_of_lt_succ (Nat.mod_lt _ (Nat.succ_pos _))
      rw [inductionHypothesis bound rest, here, Nat.mod_add_mod,
        countKey_cons, Nat.add_assoc,
        Nat.add_comm (countKey key findings)]

end AllocateAll

/-- The replacement does not abort, and the token it allocates is new. -/
def AllocationFits (runtime : Runtime) (state : SessionState)
    (finding : Finding) : Prop :=
  match state.allocation? finding.key with
  | some allocation =>
      ∃ count, increment runtime allocation.occurrences = some count
  | none =>
      ∃ counter,
        increment runtime (state.counter finding.kind) = some counter ∧
          state.Unallocated
            (formatToken runtime state.scopeId finding.kind counter)

/-- Every replacement fits the state it meets. -/
def AllocationsFit (runtime : Runtime) :
    SessionState → List Finding → Prop
  | _, [] => True
  | state, finding :: findings =>
      AllocationFits runtime state finding ∧
        ∀ next token hint,
          AllocationStep runtime state finding next token hint →
            AllocationsFit runtime next findings

/-- The number that the replacement increases: the occurrences of an
allocation, or the counter of a kind. -/
def SessionState.increased (state : SessionState) (finding : Finding) : Nat :=
  match state.allocation? finding.key with
  | some allocation => allocation.occurrences
  | none => state.counter finding.kind

/-- No replacement of the list meets a number that has reached the limit. -/
def StaysBelowLimit (runtime : Runtime) :
    SessionState → List Finding → Prop
  | _, [] => True
  | state, finding :: findings =>
      state.increased finding < unsignedMax ∧
        ∀ next ∈ (allocationFor runtime state finding).map Prod.fst,
          StaysBelowLimit runtime next findings

instance decidableStaysBelowLimit (runtime : Runtime) :
    (state : SessionState) → (findings : List Finding) →
      Decidable (StaysBelowLimit runtime state findings)
  | _, [] => .isTrue trivial
  | _, _ :: findings =>
      have : DecidablePred fun next => StaysBelowLimit runtime next findings :=
        fun next => decidableStaysBelowLimit runtime next findings
      inferInstanceAs (Decidable (_ ∧ _))

section Fits

variable {runtime : Runtime} {state : SessionState}

theorem allocationFits_iff {finding : Finding}
    (distinct : state.Distinct) :
    AllocationFits runtime state finding ↔
      ∃ next token hint,
        AllocationStep runtime state finding next token hint ∧
          next.Distinct := by
  unfold AllocationFits
  constructor
  · intro fits
    split at fits
    · rename_i allocation found
      obtain ⟨count, incremented⟩ := fits
      have step := AllocationStep.reuse found incremented
      refine ⟨_, _, _, step, (step.distinct_iff distinct).mpr ?_⟩
      intro absent
      rw [found] at absent
      cases absent
    · rename_i absent
      obtain ⟨counter, incremented, unallocated⟩ := fits
      have step := AllocationStep.allocate absent incremented
      exact ⟨_, _, _, step,
        (step.distinct_iff distinct).mpr fun _ => unallocated⟩
  · rintro ⟨next, token, hint, step, nextDistinct⟩
    have new := (step.distinct_iff distinct).mp nextDistinct
    cases step with
    | reuse found incremented =>
        rw [found]
        exact ⟨_, incremented⟩
    | allocate absent incremented =>
        rw [absent]
        exact ⟨_, incremented, new absent⟩

/-- An allocation is a function of the state and the finding. -/
theorem AllocationStep.unique {finding : Finding}
    {next next' : SessionState} {token token' : Text}
    {hint hint' : Option Text}
    (step : AllocationStep runtime state finding next token hint)
    (step' : AllocationStep runtime state finding next' token' hint') :
    next = next' ∧ token = token' ∧ hint = hint' := by
  have done := allocationFor_eq_some.mpr step
  rw [allocationFor_eq_some.mpr step'] at done
  cases done
  exact ⟨rfl, rfl, rfl⟩

/-- Distinct tokens after a list of findings. -/
theorem allocationsFit_iff {findings : List Finding}
    (distinct : state.Distinct) :
    AllocationsFit runtime state findings ↔
      ∃ result,
        allocateAll runtime state findings = some result ∧
          result.Distinct := by
  induction findings generalizing state with
  | nil =>
      simp [AllocationsFit, allocateAll, distinct]
  | cons finding findings inductionHypothesis =>
      rw [AllocationsFit, allocationFits_iff distinct]
      constructor
      · rintro ⟨⟨next, token, hint, step, nextDistinct⟩, later⟩
        obtain ⟨result, rest, resultDistinct⟩ :=
          (inductionHypothesis nextDistinct).mp (later _ _ _ step)
        exact ⟨result,
          allocateAll_cons.mpr ⟨next, token, hint, step, rest⟩,
          resultDistinct⟩
      · rintro ⟨result, done, resultDistinct⟩
        obtain ⟨next, token, hint, step, rest⟩ := allocateAll_cons.mp done
        have nextDistinct : next.Distinct := by
          -- tokens that collide once collide for ever
          have extended := allocateAll_extends rest
          intro left right leftAllocation rightAllocation foundLeft
            foundRight sameToken
          obtain ⟨_, laterLeft⟩ := extended.allocations _ _ foundLeft
          obtain ⟨_, laterRight⟩ := extended.allocations _ _ foundRight
          exact resultDistinct _ _ _ _ laterLeft laterRight sameToken
        refine ⟨⟨next, token, hint, step, nextDistinct⟩, ?_⟩
        intro next' token' hint' step'
        obtain ⟨rfl, _, _⟩ := step.unique step'
        exact (inductionHypothesis nextDistinct).mpr
          ⟨result, rest, resultDistinct⟩

theorem distinct_of_allocationsFit {result : SessionState}
    {findings : List Finding} (distinct : state.Distinct)
    (fit : AllocationsFit runtime state findings)
    (done : allocateAll runtime state findings = some result) :
    result.Distinct := by
  obtain ⟨other, again, otherDistinct⟩ := (allocationsFit_iff distinct).mp fit
  rw [done] at again
  cases again
  exact otherDistinct

theorem StaysBelowLimit.later {finding : Finding} {findings : List Finding}
    (below : StaysBelowLimit runtime state (finding :: findings))
    {next : SessionState} {token : Text} {hint : Option Text}
    (step : AllocationStep runtime state finding next token hint) :
    StaysBelowLimit runtime next findings := by
  refine below.2 next ?_
  rw [allocationFor_eq_some.mpr step]
  rfl

/-- Below the limit, and in a proper scope, every replacement fits. -/
theorem allocationsFit_of_staysBelowLimit {findings : List Finding}
    (scope : IsScope state.scopeId) (counted : state.Counted runtime)
    (below : StaysBelowLimit runtime state findings) :
    AllocationsFit runtime state findings := by
  induction findings generalizing state with
  | nil =>
      trivial
  | cons finding findings inductionHypothesis =>
      have here := below.1
      unfold SessionState.increased at here
      refine ⟨?_, fun next token hint step =>
        inductionHypothesis ?_ ?_ (below.later step)⟩
      · unfold AllocationFits
        cases found : state.allocation? finding.key with
        | some allocation =>
            rw [found] at here
            exact ⟨_, increment_of_lt here⟩
        | none =>
            rw [found] at here
            exact ⟨_, increment_of_lt here, counted.unallocated scope here⟩
      · rw [step.extends.scopeId]
        exact scope
      · refine step.counted scope (fun absent => ?_) counted
        rwa [absent] at here

end Fits

/-! ## Loading a prior session -/

def RestorationEntry.key (entry : RestorationEntry) : FindingKind × Text :=
  (entry.kind, entry.original)

/-- The state has one allocation for each entry of the session, and no
other. -/
def Loaded (prior : RedactionSession) (state : SessionState) : Prop :=
  ∀ key allocation,
    state.allocation? key = some allocation ↔
      ∃ entry ∈ prior.entries,
        entry.key = key ∧ allocation = .ofEntry entry

section Load

variable {runtime : Runtime}

/-- The state after one entry, whose token has been read. -/
def SessionState.load (state : SessionState) (entry : RestorationEntry)
    (counter : Nat) : SessionState :=
  { state with
    counters :=
      state.counters.insert entry.kind
        (max (state.counter entry.kind) counter)
    allocations := state.allocations.insert entry.key (.ofEntry entry) }

theorem SessionState.allocation?_load (state : SessionState)
    (entry : RestorationEntry) (counter : Nat) (key : FindingKind × Text) :
    (state.load entry counter).allocation? key =
      if entry.key = key then some (.ofEntry entry)
      else state.allocation? key := by
  simp only [load, allocation?, Std.TreeMap.getElem?_insert,
    allocationOrder_eq_iff]

theorem SessionState.counter_load (state : SessionState)
    (entry : RestorationEntry) (counter : Nat) (kind : FindingKind) :
    (state.load entry counter).counter kind =
      if entry.kind = kind then max (state.counter entry.kind) counter
      else state.counter kind := by
  simp only [load, SessionState.counter, Std.TreeMap.getD_insert,
    Std.LawfulEqCmp.compare_eq_iff_eq]

/-- No counter is lowered. -/
theorem SessionState.counter_le_load (state : SessionState)
    (entry : RestorationEntry) (counter : Nat) (kind : FindingKind) :
    state.counter kind ≤ (state.load entry counter).counter kind := by
  rw [counter_load]
  by_cases same : entry.kind = kind
  · rw [if_pos same, ← same]
    exact Nat.le_max_left _ _
  · rw [if_neg same]

theorem SessionState.le_counter_load (state : SessionState)
    (entry : RestorationEntry) (counter : Nat) :
    counter ≤ (state.load entry counter).counter entry.kind := by
  rw [counter_load, if_pos rfl]
  exact Nat.le_max_right _ _

theorem loadEntry_eq_load {scopeId : Text} {entry : RestorationEntry}
    {counter : Nat} (state : SessionState)
    (parsed :
      parseToken runtime entry.token = .ok ⟨scopeId, entry.kind, counter⟩) :
    ReplacementProcessor.loadEntry runtime state entry =
      .ok (state.load entry counter) := by
  rw [ReplacementProcessor.loadEntry, parsed, ok_bind]
  rfl

/-- A counter is the greatest number among the tokens of its kind. -/
theorem counter_le_iff_of_loadEntries {entries : List RestorationEntry}
    {state loaded : SessionState}
    (done :
      entries.foldlM (ReplacementProcessor.loadEntry runtime) state =
        .ok loaded)
    (kind : FindingKind) (bound : Nat) :
    loaded.counter kind ≤ bound ↔
      state.counter kind ≤ bound ∧
        ∀ entry ∈ entries, ∀ parsed,
          parseToken runtime entry.token = .ok parsed → parsed.kind = kind →
            parsed.counter ≤ bound := by
  induction entries generalizing state with
  | nil =>
      cases done
      simp
  | cons head tail inductionHypothesis =>
      obtain ⟨next, first, rest⟩ := foldlM_cons_eq_ok.mp done
      obtain ⟨parsed, read, last⟩ := bind_eq_ok.mp first
      cases last
      rw [inductionHypothesis rest]
      simp only [SessionState.counter, Std.TreeMap.getD_insert,
        Std.LawfulEqCmp.compare_eq_iff_eq, List.mem_cons, forall_eq_or_imp,
        read, Except.ok.injEq, forall_eq']
      by_cases same : parsed.kind = kind
      · subst same
        simp only [if_pos, Nat.max_le, forall_const, and_assoc]
      · simp only [same, if_false, false_implies, true_and]

/-- Loading keeps the context, adds the entries and raises the counters. -/
private theorem loadEntries_spec {scopeId : Text}
    {entries : List RestorationEntry} (state : SessionState)
    (parsed : ∀ entry ∈ entries, ∃ counter,
      parseToken runtime entry.token = .ok ⟨scopeId, entry.kind, counter⟩)
    (distinct : (entries.map RestorationEntry.key).Nodup) :
    ∃ loaded,
      entries.foldlM (ReplacementProcessor.loadEntry runtime) state =
          .ok loaded ∧
        loaded.scopeId = state.scopeId ∧
        loaded.externalId = state.externalId ∧
        (∀ key allocation,
          loaded.allocation? key = some allocation ↔
            (∃ entry ∈ entries, entry.key = key ∧
              allocation = .ofEntry entry) ∨
            (state.allocation? key = some allocation ∧
              ∀ entry ∈ entries, entry.key ≠ key)) ∧
        (∀ kind, state.counter kind ≤ loaded.counter kind) ∧
        ∀ entry ∈ entries, ∀ counter,
          parseToken runtime entry.token =
              .ok ⟨scopeId, entry.kind, counter⟩ →
            counter ≤ loaded.counter entry.kind := by
  induction entries generalizing state with
  | nil =>
      exact ⟨state, rfl, rfl, rfl, by simp, fun _ => Nat.le_refl _, by simp⟩
  | cons head tail inductionHypothesis =>
      obtain ⟨counter, headParsed⟩ := parsed head (by simp)
      rw [List.map_cons, List.nodup_cons] at distinct
      have first := loadEntry_eq_load state headParsed
      obtain ⟨loaded, rest, scope, external, allocations, raised, bounds⟩ :=
        inductionHypothesis (state.load head counter)
          (fun entry member => parsed entry (List.mem_cons_of_mem _ member))
          distinct.2
      refine ⟨loaded, foldlM_cons_eq_ok.mpr ⟨_, first, rest⟩, scope,
        external, ?_, ?_, ?_⟩
      · intro key allocation
        rw [allocations, SessionState.allocation?_load]
        by_cases same : head.key = key
        · -- the keys are distinct, so that no later entry has this one
          have absent : ∀ entry ∈ tail, entry.key ≠ key := by
            intro entry member equal
            apply distinct.1
            rw [same, ← equal]
            exact List.mem_map_of_mem member
          rw [if_pos same]
          constructor
          · intro placed
            rcases placed with later | here
            · obtain ⟨entry, member, equal, _⟩ := later
              exact absurd equal (absent entry member)
            · exact Or.inl ⟨head, List.mem_cons_self, same,
                (Option.some.inj here.1).symm⟩
          · intro placed
            rcases placed with listed | elsewhere
            · obtain ⟨entry, member, equal, isEntry⟩ := listed
              rcases List.mem_cons.mp member with itself | later
              · exact Or.inr ⟨by rw [isEntry, itself], absent⟩
              · exact absurd equal (absent entry later)
            · exact absurd same (elsewhere.2 head List.mem_cons_self)
        · simp [same]
      · intro kind
        exact (state.counter_le_load head counter kind).trans (raised kind)
      · intro entry member value read
        rcases List.mem_cons.mp member with here | later
        · rw [here, headParsed] at read
          cases read
          rw [here]
          exact (state.le_counter_load head counter).trans (raised head.kind)
        · exact bounds entry later value read

/-- A valid prior session, with a compatible identifier, is loaded. -/
theorem withPriorSession_of_valid {prior : RedactionSession}
    (valid : ValidSession runtime prior) {externalId : Option Text}
    (compatible : ∀ expected existing, externalId = some expected →
      prior.externalId = some existing → existing = expected)
    (scopeId : Text) :
    ∃ state,
      ReplacementProcessor.withPriorSession runtime (some prior) externalId
          scopeId = .ok { state } ∧
        state.scopeId = prior.scopeId ∧
        state.externalId = externalId.or prior.externalId ∧
        Loaded prior state ∧ state.Counted runtime := by
  have accepted :
      validatePriorSession runtime prior externalId = .ok () :=
    validatePriorSession_eq_ok.mpr ⟨valid, compatible⟩
  obtain ⟨state, loaded, scope, external, allocations, _, bounds⟩ :=
    loadEntries_spec
      { scopeId := prior.scopeId
        externalId := externalId.or prior.externalId }
      valid.parsed valid.mappings
  have emptyBefore :
      ∀ key, SessionState.allocation?
        { scopeId := prior.scopeId
          externalId := externalId.or prior.externalId } key = none := by
    intro key
    exact Std.TreeMap.getElem?_emptyc
  have isLoaded : Loaded prior state := by
    intro key allocation
    rw [allocations, emptyBefore]
    simp
  refine ⟨state, ?_, scope, external, isLoaded, ?_⟩
  · simp only [ReplacementProcessor.withPriorSession, accepted, ok_bind,
      loaded]
  · intro key allocation parsed found read
    obtain ⟨entry, member, _, rfl⟩ := (isLoaded key allocation).mp found
    obtain ⟨counter, entryRead⟩ := valid.parsed entry member
    have same := read
    rw [Allocation.ofEntry, entryRead] at same
    cases same
    exact bounds entry member counter entryRead

/-- Whatever prior session was accepted has been loaded. -/
theorem of_withPriorSession_eq_ok {prior : RedactionSession}
    {externalId : Option Text} {scopeId : Text}
    {processor : ReplacementProcessor}
    (accepted :
      ReplacementProcessor.withPriorSession runtime (some prior) externalId
        scopeId = .ok processor) :
    ValidSession runtime prior ∧ processor.appliedReplacements = [] ∧
      processor.state.scopeId = prior.scopeId ∧
      processor.state.externalId = externalId.or prior.externalId ∧
      Loaded prior processor.state ∧ processor.state.Counted runtime := by
  have checked :
      validatePriorSession runtime prior externalId = .ok () := by
    rw [ReplacementProcessor.withPriorSession] at accepted
    exact (check_bind_eq_ok.mp accepted).1
  obtain ⟨valid, compatible⟩ := validatePriorSession_eq_ok.mp checked
  obtain ⟨state, again, facts⟩ :=
    withPriorSession_of_valid valid compatible scopeId
  rw [accepted] at again
  cases again
  exact ⟨valid, rfl, facts⟩

theorem counter_le_iff_of_withPriorSession {prior : RedactionSession}
    {externalId : Option Text} {scopeId : Text}
    {processor : ReplacementProcessor}
    (accepted :
      ReplacementProcessor.withPriorSession runtime (some prior) externalId
        scopeId = .ok processor)
    (kind : FindingKind) (bound : Nat) :
    processor.state.counter kind ≤ bound ↔
      ∀ entry ∈ prior.entries, ∀ parsed,
        parseToken runtime entry.token = .ok parsed → parsed.kind = kind →
          parsed.counter ≤ bound := by
  rw [ReplacementProcessor.withPriorSession] at accepted
  obtain ⟨_, rest⟩ := check_bind_eq_ok.mp accepted
  obtain ⟨state, loaded, last⟩ := bind_eq_ok.mp rest
  cases last
  rw [counter_le_iff_of_loadEntries loaded kind bound]
  simp [SessionState.counter]

/-- A loaded valid session satisfies the invariants of the state. -/
theorem Loaded.invariants {prior : RedactionSession} {state : SessionState}
    (loaded : Loaded prior state) (valid : ValidSession runtime prior)
    (scope : state.scopeId = prior.scopeId) :
    state.Keyed ∧ state.Distinct ∧ state.Parsed runtime := by
  refine ⟨?_, ?_, ?_⟩
  · intro key allocation found
    obtain ⟨entry, _, same, rfl⟩ := (loaded key allocation).mp found
    exact same
  · intro left right leftAllocation rightAllocation foundLeft foundRight
      sameToken
    obtain ⟨first, firstMember, rfl, rfl⟩ :=
      (loaded left leftAllocation).mp foundLeft
    obtain ⟨second, secondMember, rfl, rfl⟩ :=
      (loaded right rightAllocation).mp foundRight
    rw [List.inj_on_of_nodup_map valid.tokens firstMember secondMember
      sameToken]
  · intro key allocation found
    obtain ⟨entry, member, rfl, rfl⟩ := (loaded key allocation).mp found
    rw [scope]
    exact valid.parsed entry member

/-- What holds of every state that a redaction starts from. -/
structure SessionState.Sound (runtime : Runtime) (state : SessionState) :
    Prop where
  keyed : state.Keyed
  distinct : state.Distinct
  parsed : state.Parsed runtime
  bounded : ∀ kind, state.counter kind ≤ unsignedMax

theorem sound_of_withPriorSession {prior : Option RedactionSession}
    {externalId : Option Text} {scopeId : Text}
    {processor : ReplacementProcessor}
    (accepted :
      ReplacementProcessor.withPriorSession runtime prior externalId
        scopeId = .ok processor) :
    processor.state.Sound runtime ∧ processor.appliedReplacements = [] := by
  cases prior with
  | none =>
      rw [← Except.ok.inj accepted]
      have empty (key : FindingKind × Text) :
          SessionState.allocation? { scopeId, externalId } key = none :=
        Std.TreeMap.getElem?_emptyc
      refine ⟨⟨?_, ?_, ?_, fun _ => Nat.zero_le _⟩, rfl⟩
      · intro key allocation found
        cases (empty key).symm.trans found
      · intro left right leftAllocation rightAllocation found
        cases (empty left).symm.trans found
      · intro key allocation found
        cases (empty key).symm.trans found
  | some session =>
      obtain ⟨valid, nothing, scope, _, loaded, _⟩ :=
        of_withPriorSession_eq_ok accepted
      obtain ⟨keyed, distinct, parsed⟩ := loaded.invariants valid scope
      refine ⟨⟨keyed, distinct, parsed, ?_⟩, nothing⟩
      intro kind
      refine (counter_le_iff_of_withPriorSession accepted kind _).mpr ?_
      intro entry _ parsed read _
      exact (of_parseToken_eq_ok read).2.1

end Load

end Redactor
