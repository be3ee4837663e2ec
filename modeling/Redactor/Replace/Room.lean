import Redactor.Replace.Closure
import Redactor.Replace.Issued

/-!
# Room for later findings

Two numbers grow while findings are replaced: the occurrences of the key that
is found, and the counter of a kind when a key of it is new.  Whether one of
them reaches the limit of machine integers is settled by where they start and
by how many findings, or how many new keys, there are.
-/

namespace Redactor

open Utf8 Fallible

/-- The findings of every key, and the new keys of every kind, fit behind the
numbers that the state has reached. -/
structure SessionState.HasRoom (state : SessionState)
    (findings : List Finding) : Prop where
  occurrences :
    ∀ finding ∈ findings,
      state.occurrences finding.key + countKey finding.key findings ≤
        unsignedMax
  counters :
    ∀ kind,
      state.counter kind + (state.newKeys findings kind).card ≤ unsignedMax

section Room

variable {runtime : Runtime} {state next : SessionState} {finding : Finding}
  {findings : List Finding}

/-- The occurrences that are needed by the findings of a list are needed one
after the other. -/
theorem occurrences_room_iff {next : SessionState}
    (here : next.occurrences finding.key =
      state.occurrences finding.key + 1)
    (elsewhere : ∀ key, finding.key ≠ key →
      next.occurrences key = state.occurrences key) :
    (∀ other ∈ finding :: findings,
        state.occurrences other.key +
          countKey other.key (finding :: findings) ≤ unsignedMax) ↔
      state.occurrences finding.key < unsignedMax ∧
        ∀ other ∈ findings,
          next.occurrences other.key + countKey other.key findings ≤
            unsignedMax := by
  have same (other : Finding) :
      state.occurrences other.key +
          countKey other.key (finding :: findings) =
        next.occurrences other.key + countKey other.key findings := by
    rw [countKey_cons]
    by_cases sameKey : finding.key = other.key
    · rw [if_pos sameKey, ← sameKey, here]
      omega
    · rw [if_neg sameKey, elsewhere other.key sameKey]
      omega
  simp only [List.mem_cons, forall_eq_or_imp, same]
  constructor
  · rintro ⟨first, later⟩
    rw [here] at first
    exact ⟨by omega, later⟩
  · rintro ⟨first, later⟩
    refine ⟨?_, later⟩
    by_cases again : ∃ other ∈ findings, other.key = finding.key
    · obtain ⟨other, member, sameKey⟩ := again
      have bound := later other member
      rwa [sameKey] at bound
    · have none : countKey finding.key findings = 0 := by
        rw [countKey, List.countP_eq_zero]
        intro other member sameKey
        exact again ⟨other, member, by simpa using sameKey⟩
      rw [here, none]
      omega

theorem hasRoom_reuse_iff {allocation : Allocation}
    (found : state.allocation? finding.key = some allocation) :
    state.HasRoom (finding :: findings) ↔
      allocation.occurrences < unsignedMax ∧
        (state.reuse finding.key allocation
          (allocation.occurrences + 1)).HasRoom findings := by
  have before :
      state.occurrences finding.key = allocation.occurrences := by
    rw [SessionState.occurrences, found]
    rfl
  have here :
      (state.reuse finding.key allocation
          (allocation.occurrences + 1)).occurrences finding.key =
        state.occurrences finding.key + 1 := by
    rw [before, SessionState.occurrences,
      SessionState.allocation?_reuse_self]
    rfl
  have elsewhere (key : FindingKind × Text) (other : finding.key ≠ key) :
      (state.reuse finding.key allocation
          (allocation.occurrences + 1)).occurrences key =
        state.occurrences key := by
    rw [SessionState.occurrences, SessionState.allocation?_reuse,
      if_neg other, SessionState.occurrences]
  have room := @occurrences_room_iff state finding findings _ here elsewhere
  rw [before] at room
  constructor
  · rintro ⟨occurrences, counters⟩
    obtain ⟨below, later⟩ := room.mp occurrences
    refine ⟨below, later, ?_⟩
    intro kind
    rw [SessionState.newKeys_reuse found]
    exact counters kind
  · rintro ⟨below, later, counters⟩
    refine ⟨room.mpr ⟨below, later⟩, ?_⟩
    intro kind
    rw [← SessionState.newKeys_reuse found]
    exact counters kind

theorem hasRoom_allocate_iff
    (absent : state.allocation? finding.key = none) :
    state.HasRoom (finding :: findings) ↔
      state.counter finding.kind < unsignedMax ∧
        (state.allocate runtime finding
          (state.counter finding.kind + 1)).HasRoom findings := by
  have before : state.occurrences finding.key = 0 := by
    rw [SessionState.occurrences, absent]
    rfl
  have here :
      (state.allocate runtime finding
          (state.counter finding.kind + 1)).occurrences finding.key =
        state.occurrences finding.key + 1 := by
    rw [before, SessionState.occurrences,
      SessionState.allocation?_allocate_self]
    rfl
  have elsewhere (key : FindingKind × Text) (other : finding.key ≠ key) :
      (state.allocate runtime finding
          (state.counter finding.kind + 1)).occurrences key =
        state.occurrences key := by
    rw [SessionState.occurrences, SessionState.allocation?_allocate,
      if_neg other, SessionState.occurrences]
  have room := @occurrences_room_iff state finding findings _ here elsewhere
  have card :=
    @SessionState.card_newKeys_allocate runtime state finding findings
      (state.counter finding.kind + 1) absent
  constructor
  · rintro ⟨occurrences, counters⟩
    have bound := counters finding.kind
    refine ⟨by omega, (room.mp occurrences).2, ?_⟩
    intro kind
    rw [SessionState.counter_allocate]
    by_cases same : finding.kind = kind
    · rw [if_pos same, ← same]
      omega
    · rw [if_neg same, SessionState.newKeys_allocate_of_ne same]
      exact counters kind
  · rintro ⟨below, later, counters⟩
    have positive : 0 < unsignedMax := by decide
    refine ⟨room.mpr ⟨by omega, later⟩, ?_⟩
    intro kind
    have bound := counters kind
    rw [SessionState.counter_allocate] at bound
    by_cases same : finding.kind = kind
    · rw [if_pos same, ← same] at bound
      rw [← same]
      omega
    · rwa [if_neg same, SessionState.newKeys_allocate_of_ne same] at bound

theorem staysBelowLimit_cons_iff {token : Text} {hint : Option Text}
    (step : AllocationStep runtime state finding next token hint) :
    StaysBelowLimit runtime state (finding :: findings) ↔
      state.increased finding < unsignedMax ∧
        StaysBelowLimit runtime next findings := by
  rw [StaysBelowLimit, allocationFor_eq_some.mpr step]
  simp

/-- No number reaches the limit if and only if there is room for the
findings. -/
theorem staysBelowLimit_iff_hasRoom
    (bounded : ∀ kind, state.counter kind ≤ unsignedMax) :
    StaysBelowLimit runtime state findings ↔ state.HasRoom findings := by
  induction findings generalizing state with
  | nil =>
      apply iff_of_true trivial
      refine ⟨by simp, ?_⟩
      intro kind
      exact bounded kind
  | cons finding findings inductionHypothesis =>
      cases found : state.allocation? finding.key with
      | some allocation =>
          have increased :
              state.increased finding = allocation.occurrences := by
            rw [SessionState.increased, found]
          rw [hasRoom_reuse_iff found]
          by_cases below : allocation.occurrences < unsignedMax
          · have step :=
              AllocationStep.reuse found
                (@increment_of_lt runtime _ below)
            rw [staysBelowLimit_cons_iff step, increased,
              inductionHypothesis (step.bounded bounded)]
          · refine iff_of_false ?_ fun room => below room.1
            rintro ⟨here, _⟩
            rw [increased] at here
            exact below here
      | none =>
          have increased :
              state.increased finding = state.counter finding.kind := by
            rw [SessionState.increased, found]
          rw [@hasRoom_allocate_iff runtime _ _ _ found]
          by_cases below : state.counter finding.kind < unsignedMax
          · have step :=
              AllocationStep.allocate found
                (@increment_of_lt runtime _ below)
            rw [staysBelowLimit_cons_iff step, increased,
              inductionHypothesis (step.bounded bounded)]
          · refine iff_of_false ?_ fun room => below room.1
            rintro ⟨here, _⟩
            rw [increased] at here
            exact below here

theorem hasRoom_perm {reordered : List Finding}
    (perm : reordered.Perm findings) (room : state.HasRoom findings) :
    state.HasRoom reordered where
  occurrences := by
    intro finding member
    rw [countKey, perm.countP_eq]
    exact room.occurrences finding (perm.mem_iff.mp member)
  counters := by
    intro kind
    rw [SessionState.newKeys_perm perm]
    exact room.counters kind

/-- The order of the findings does not matter for the limit. -/
theorem StaysBelowLimit.perm {reordered : List Finding}
    (below : StaysBelowLimit runtime state findings)
    (perm : reordered.Perm findings)
    (bounded : ∀ kind, state.counter kind ≤ unsignedMax) :
    StaysBelowLimit runtime state reordered :=
  (staysBelowLimit_iff_hasRoom bounded).mpr
    (hasRoom_perm perm ((staysBelowLimit_iff_hasRoom bounded).mp below))

/-- What is left of the run after some findings, and that no counter has been
lowered. -/
theorem StaysBelowLimit.after {earlier later : List Finding}
    {middle : SessionState}
    (below : StaysBelowLimit runtime state (earlier ++ later))
    (done : allocateAll runtime state earlier = some middle) :
    StaysBelowLimit runtime middle later ∧
      ∀ kind, state.counter kind ≤ middle.counter kind := by
  induction earlier generalizing state with
  | nil =>
      cases done
      exact ⟨below, fun _ => Nat.le_refl _⟩
  | cons finding earlier inductionHypothesis =>
      obtain ⟨next, token, hint, step, rest⟩ := allocateAll_cons.mp done
      rw [List.cons_append] at below
      obtain ⟨stays, raised⟩ := inductionHypothesis (below.later step) rest
      refine ⟨stays, fun kind => Nat.le_trans ?_ (raised kind)⟩
      have here := below.1
      cases step with
      | reuse _ _ =>
          exact Nat.le_refl _
      | allocate absent incremented =>
          rw [SessionState.increased, absent] at here
          rw [increment_of_lt here] at incremented
          cases incremented
          rw [SessionState.counter_allocate]
          by_cases same : finding.kind = kind
          · rw [if_pos same, same]
            exact Nat.le_succ _
          · rw [if_neg same]

/-- A run below the limit does not abort. -/
theorem StaysBelowLimit.completes
    (below : StaysBelowLimit runtime state findings) :
    ∃ result, allocateAll runtime state findings = some result := by
  induction findings generalizing state with
  | nil =>
      exact ⟨state, rfl⟩
  | cons finding findings inductionHypothesis =>
      have here := below.1
      rw [SessionState.increased] at here
      cases found : state.allocation? finding.key with
      | some allocation =>
          rw [found] at here
          have step :=
            AllocationStep.reuse found (@increment_of_lt runtime _ here)
          obtain ⟨result, rest⟩ := inductionHypothesis (below.later step)
          exact ⟨result, allocateAll_cons.mpr ⟨_, _, _, step, rest⟩⟩
      | none =>
          rw [found] at here
          have step :=
            AllocationStep.allocate found (@increment_of_lt runtime _ here)
          obtain ⟨result, rest⟩ := inductionHypothesis (below.later step)
          exact ⟨result, allocateAll_cons.mpr ⟨_, _, _, step, rest⟩⟩

end Room

/-! ## The prior session and the findings -/

/-- The keys of a kind that are found and have no entry. -/
def RedactionSession.newKeys (session : RedactionSession)
    (findings : List Finding) (kind : FindingKind) :
    Finset (FindingKind × Text) :=
  {key ∈ (findings.map Finding.key).toFinset |
    key.1 = kind ∧ ∀ entry ∈ session.entries, entry.key ≠ key}

/-- The findings of every entry fit behind its occurrences, and the new keys
of every kind behind the greatest number of its tokens; and neither are more
than a machine integer can count. -/
structure RedactionSession.LeavesRoom (runtime : Runtime)
    (session : RedactionSession) (findings : List Finding) : Prop where
  replaced :
    ∀ finding ∈ findings, countKey finding.key findings ≤ unsignedMax
  reused :
    ∀ finding ∈ findings, ∀ entry ∈ session.entries,
      entry.key = finding.key →
        entry.occurrences + countKey finding.key findings ≤ unsignedMax
  allocated : ∀ kind, (session.newKeys findings kind).card ≤ unsignedMax
  numbered :
    ∀ entry ∈ session.entries, ∀ parsed,
      parseToken runtime entry.token = .ok parsed →
        parsed.counter + (session.newKeys findings parsed.kind).card ≤
          unsignedMax

/-- A token that is allocated on the way repeats the kind and the number of a
token of the prior session. -/
def RepeatsImported (runtime : Runtime) (prior : RedactionSession)
    (state : SessionState) (findings : List Finding) : Prop :=
  ∃ earlier finding later middle counter,
    findings = earlier ++ finding :: later ∧
      allocateAll runtime state earlier = some middle ∧
      middle.allocation? finding.key = none ∧
      increment runtime (middle.counter finding.kind) = some counter ∧
      ∃ entry ∈ prior.entries, ∃ parsed,
        parseToken runtime entry.token = .ok parsed ∧
          parsed.kind = finding.kind ∧ parsed.counter = counter

section Prior

variable {runtime : Runtime} {prior : RedactionSession}
  {externalId : Option Text} {scopeId : Text}
  {processor : ReplacementProcessor} {findings : List Finding}

theorem Loaded.newKeys {state : SessionState}
    (loaded : Loaded prior state) (kind : FindingKind) :
    state.newKeys findings kind = prior.newKeys findings kind := by
  ext key
  have absent :
      state.allocation? key = none ↔
        ∀ entry ∈ prior.entries, entry.key ≠ key := by
    rw [Option.eq_none_iff_forall_not_mem]
    constructor
    · intro none entry member same
      exact none (.ofEntry entry)
        ((loaded key _).mpr ⟨entry, member, same, rfl⟩)
    · intro none allocation found
      obtain ⟨entry, member, same, _⟩ := (loaded key allocation).mp found
      exact none entry member same
  rw [SessionState.mem_newKeys, absent, RedactionSession.newKeys,
    Finset.mem_filter, List.mem_toFinset]

theorem hasRoom_iff_leavesRoom
    (accepted :
      ReplacementProcessor.withPriorSession runtime (some prior) externalId
        scopeId = .ok processor) :
    processor.state.HasRoom findings ↔ prior.LeavesRoom runtime findings := by
  obtain ⟨_, _, _, _, loaded, _⟩ := of_withPriorSession_eq_ok accepted
  have counters (kind : FindingKind) :
      processor.state.counter kind +
            (processor.state.newKeys findings kind).card ≤ unsignedMax ↔
        (prior.newKeys findings kind).card ≤ unsignedMax ∧
          ∀ entry ∈ prior.entries, ∀ parsed,
            parseToken runtime entry.token = .ok parsed →
              parsed.kind = kind →
                parsed.counter + (prior.newKeys findings kind).card ≤
                  unsignedMax := by
    have bound :=
      counter_le_iff_of_withPriorSession accepted kind
        (unsignedMax - (prior.newKeys findings kind).card)
    rw [loaded.newKeys]
    constructor
    · intro fits
      refine ⟨by omega, fun entry member parsed read same => ?_⟩
      have below := bound.mp (by omega) entry member parsed read same
      omega
    · rintro ⟨few, fits⟩
      have below :=
        bound.mpr fun entry member parsed read same => by
          have fit := fits entry member parsed read same
          omega
      omega
  constructor
  · rintro ⟨occurrences, numbers⟩
    refine ⟨?_, ?_, fun kind => ((counters kind).mp (numbers kind)).1, ?_⟩
    · intro finding member
      have bound := occurrences finding member
      omega
    · intro finding member entry entryMember same
      have bound := occurrences finding member
      have found :=
        (loaded finding.key (.ofEntry entry)).mpr
          ⟨entry, entryMember, same, rfl⟩
      rw [SessionState.occurrences, found] at bound
      exact bound
    · intro entry member parsed read
      exact ((counters parsed.kind).mp (numbers parsed.kind)).2 entry member
        parsed read rfl
  · intro room
    refine ⟨?_, ?_⟩
    · intro finding member
      cases found : processor.state.allocation? finding.key with
      | none =>
          have bound := room.replaced finding member
          rw [SessionState.occurrences, found]
          simpa using bound
      | some allocation =>
          obtain ⟨entry, entryMember, same, isEntry⟩ :=
            (loaded finding.key allocation).mp found
          have bound := room.reused finding member entry entryMember same
          rw [SessionState.occurrences, found, isEntry]
          exact bound
    · intro kind
      apply (counters kind).mpr
      refine ⟨room.allocated kind, ?_⟩
      rintro entry member parsed read rfl
      exact room.numbered entry member parsed read

theorem not_repeatsImported
    (accepted :
      ReplacementProcessor.withPriorSession runtime (some prior) externalId
        scopeId = .ok processor)
    (below : StaysBelowLimit runtime processor.state findings) :
    ¬ RepeatsImported runtime prior processor.state findings := by
  rintro ⟨earlier, finding, later, middle, counter, rfl, done, absent,
    incremented, entry, member, parsed, read, sameKind, sameCounter⟩
  obtain ⟨stays, raised⟩ := below.after done
  have here := stays.1
  rw [SessionState.increased, absent] at here
  simp only at here
  rw [increment_of_lt here] at incremented
  have imported :=
    (counter_le_iff_of_withPriorSession accepted finding.kind _).mp
      (Nat.le_refl _) entry member parsed read sameKind
  have further := raised finding.kind
  have next := Option.some.inj incremented
  omega

/-- The additions of all allocations stay within the machine integers, none of
them aborts and no token of the prior session is repeated, if and only if the
prior session leaves room for the findings. -/
theorem allocation_arithmetic_iff (runtime : Runtime)
    (prior : RedactionSession) (externalId : Option Text) (scopeId : Text)
    (processor : ReplacementProcessor)
    (accepted :
      ReplacementProcessor.withPriorSession runtime (some prior) externalId
        scopeId = .ok processor)
    (findings : List Finding) :
    (StaysBelowLimit runtime processor.state findings ∧
        (∃ result,
          allocateAll runtime processor.state findings = some result) ∧
        ¬ RepeatsImported runtime prior processor.state findings) ↔
      prior.LeavesRoom runtime findings := by
  have bounded := (sound_of_withPriorSession accepted).1.bounded
  rw [← hasRoom_iff_leavesRoom accepted,
    ← @staysBelowLimit_iff_hasRoom runtime _ _ bounded]
  constructor
  · rintro ⟨below, _⟩
    exact below
  · intro below
    exact ⟨below, below.completes, not_repeatsImported accepted below⟩

/-- Where the prior session leaves room, every replacement fits. -/
theorem allocationsFit_of_leavesRoom
    (accepted :
      ReplacementProcessor.withPriorSession runtime (some prior) externalId
        scopeId = .ok processor)
    (scope : IsScope processor.state.scopeId)
    (room : prior.LeavesRoom runtime findings) :
    AllocationsFit runtime processor.state findings := by
  obtain ⟨_, _, _, _, _, counted⟩ := of_withPriorSession_eq_ok accepted
  have bounded := (sound_of_withPriorSession accepted).1.bounded
  have hasRoom := (hasRoom_iff_leavesRoom accepted).mpr room
  exact
    allocationsFit_of_staysBelowLimit scope counted
      ((staysBelowLimit_iff_hasRoom bounded).mpr hasRoom)

/-- With room left, a session stays acceptable when its identifier is kept and
its scope is a proper one. -/
theorem staysAcceptable_of_leavesRoom {fragments : List Fragment}
    (accepted :
      ReplacementProcessor.withPriorSession runtime (some prior) externalId
        scopeId = .ok processor)
    (machineCounts :
      ∀ entry ∈ prior.entries, entry.occurrences ≤ unsignedMax)
    (kept : externalId = none ∨ externalId = prior.externalId)
    (noColon : ':' ∉ prior.scopeId)
    (room :
      prior.LeavesRoom runtime (fragments.flatMap Fragment.findings)) :
    StaysAcceptable runtime prior externalId processor fragments := by
  obtain ⟨valid, _, sameScope, _⟩ := of_withPriorSession_eq_ok accepted
  have scope : IsScope processor.state.scopeId := by
    rw [sameScope]
    exact ⟨valid.scopeId, noColon⟩
  refine ⟨kept, .inl noColon,
    allocationsFit_of_leavesRoom accepted scope room, ?_⟩
  intro entry member
  have total :
      entry.occurrences +
          countKey entry.key (fragments.flatMap Fragment.findings) ≤
        unsignedMax := by
    by_cases found :
        ∃ finding ∈ fragments.flatMap Fragment.findings,
          entry.key = finding.key
    · obtain ⟨finding, listed, same⟩ := found
      have bound := room.reused finding listed entry member same
      rwa [same]
    · have none :
          countKey entry.key (fragments.flatMap Fragment.findings) = 0 := by
        rw [countKey, List.countP_eq_zero]
        intro finding listed same
        exact found ⟨finding, listed, by simpa [eq_comm] using same⟩
      rw [none]
      exact machineCounts entry member
  rw [Nat.mod_eq_of_lt (Nat.lt_succ_of_le total)]
  exact Nat.le_add_right _ _

end Prior

/-- The digest of the address token with the greatest number in the scope
`ab`. -/
def sampleLimitRuntime (overflowChecks : Bool) : Runtime :=
  { sampleRuntime.withDigest (lit "v2:ab:EMAIL:18446744073709551615")
      (lit "7f4906b3325c174941e681dc13da77dc" ++
        lit "ed39df2a5b0b8ae244423f7d11407638")
      (by decide +kernel) (by decide +kernel) with
    overflowChecks }

/-- A session with the greatest and with the least number that a token can
have. -/
def sampleLimitSession : RedactionSession :=
  { emptySession (lit "ab") with
    entries :=
      [⟨lit "[[RDX:v2:ab:EMAIL:18446744073709551615:7f4906b3]]", .email,
          lit "a@a.fr", none, 1⟩,
        ⟨sampleToken 1, .email, lit "b@b.fr", none, 1⟩] }

/-- Another address than that of the sample finding. -/
def sampleOtherFinding : Finding :=
  { sampleFinding with matchText := lit "u@v.w" }

/-- The session is accepted.  One new address aborts a build with overflow
checks; without them the counter wraps around, and a second new address gets
the number of a known token. -/
theorem greatest_number_overflows :
    validatePriorSession (sampleLimitRuntime true) sampleLimitSession none =
        .ok () ∧
      ∃ processor,
        ReplacementProcessor.withPriorSession (sampleLimitRuntime true)
            (some sampleLimitSession) none [] = .ok processor ∧
          (allocateAll (sampleLimitRuntime true) processor.state
            [sampleFinding]).isNone = true ∧
          RepeatsImported (sampleLimitRuntime false) sampleLimitSession
            processor.state
            [sampleFinding, sampleOtherFinding] := by
  refine ⟨by decide +kernel, _, rfl, by decide +kernel, ?_⟩
  refine ⟨[sampleFinding], sampleOtherFinding, [], _, 1, rfl, rfl,
    by decide +kernel, by decide +kernel, ?_⟩
  refine ⟨⟨sampleToken 1, .email, lit "b@b.fr", none, 1⟩, ?_,
    ⟨lit "ab", .email, 1⟩, by decide +kernel, rfl, rfl⟩
  simp [sampleLimitSession]

/-- One new address fits behind the tokens of a session. -/
theorem allocation_arithmetic_sample :
    ∃ processor,
      ReplacementProcessor.withPriorSession sampleRuntime
          (some (sampleSession [])) none [] = .ok processor ∧
        (∃ result,
          allocateAll sampleRuntime processor.state [sampleFinding] =
            some result) ∧
        (sampleSession []).LeavesRoom sampleRuntime [sampleFinding] := by
  have continued :
      ∃ processor,
        ReplacementProcessor.withPriorSession sampleRuntime
            (some (sampleSession [])) none [] = .ok processor ∧
          StaysBelowLimit sampleRuntime processor.state [sampleFinding] :=
    ⟨_, rfl, by decide +kernel⟩
  obtain ⟨processor, accepted, below⟩ := continued
  have completes := below.completes
  exact ⟨processor, accepted, completes,
    (allocation_arithmetic_iff sampleRuntime (sampleSession []) none []
      processor accepted [sampleFinding]).mp
      ⟨below, completes, not_repeatsImported accepted below⟩⟩

end Redactor
