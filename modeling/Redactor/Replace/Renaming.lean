import Redactor.Library.Patterns
import Redactor.Replace.History

/-!
# Runs with the same pattern

Two runs that replace findings of the same kinds, with the same repetitions, go
through states that differ by a renaming of the originals: the tokens, their
numbers and the numbers of occurrences are the same.  Only the display hints
are made from the originals.
-/

namespace Redactor

open Utf8 Fallible Patterns Relator

/-- The hint that a new allocation of the key gets. -/
def keyHint (runtime : Runtime) (key : FindingKind × Text) : Option Text :=
  displayHint runtime
    { kind := key.1
      source := .rule
      matchText := key.2
      normalizedKey := []
      confidence := 0
      start := 0
      finish := 0 }

theorem keyHint_key (runtime : Runtime) (finding : Finding) :
    keyHint runtime finding.key = displayHint runtime finding :=
  rfl

/-- One original in place of another; kinds are kept. -/
structure IsRenaming
    (renames : FindingKind × Text → FindingKind × Text → Prop) : Prop where
  biUnique : BiUnique renames
  kinds : ∀ key other, renames key other → key.1 = other.1

/-- The allocations of a key and of the key that stands for it. -/
structure Allocation.Renamed (runtime : Runtime)
    (key other : FindingKind × Text) (left right : Allocation) : Prop where
  token : left.token = right.token
  kind : left.kind = right.kind
  occurrences : left.occurrences = right.occurrences
  hint :
    key = other ∧ left.replacementHint = right.replacementHint ∨
      left.replacementHint = keyHint runtime key ∧
        right.replacementHint = keyHint runtime other

/-- The hints agree exactly when those made from the keys do. -/
theorem Allocation.Renamed.hint_iff {runtime : Runtime}
    {key other : FindingKind × Text} {left right : Allocation}
    (renamed : Allocation.Renamed runtime key other left right) :
    left.replacementHint = right.replacementHint ↔
      keyHint runtime key = keyHint runtime other := by
  rcases renamed.hint with ⟨sameKey, sameHint⟩ | ⟨fromKey, fromOther⟩
  · rw [sameKey]
    exact iff_of_true sameHint rfl
  · rw [fromKey, fromOther]

section States

variable (runtime : Runtime)
  (renames : FindingKind × Text → FindingKind × Text → Prop)

structure SessionState.Renamed (left right : SessionState) : Prop where
  scopeId : left.scopeId = right.scopeId
  counters : ∀ kind, left.counter kind = right.counter kind
  matched :
    ∀ key other, renames key other →
      Option.Rel (Allocation.Renamed runtime key other)
        (left.allocation? key) (right.allocation? other)
  leftKnown :
    ∀ key allocation, left.allocation? key = some allocation →
      ∃ other, renames key other
  rightKnown :
    ∀ other allocation, right.allocation? other = some allocation →
      ∃ key, renames key other

end States

section Step

variable {runtime : Runtime}
  {renames : FindingKind × Text → FindingKind × Text → Prop}
  {left right left' right' : SessionState} {finding other : Finding}
  {token token' : Text} {hint hint' : Option Text}

theorem SessionState.Renamed.found_iff
    (renamed : left.Renamed runtime renames right)
    {key key' : FindingKind × Text} (pair : renames key key') :
    (∃ allocation, left.allocation? key = some allocation) ↔
      ∃ allocation, right.allocation? key' = some allocation := by
  have matched := renamed.matched key key' pair
  generalize left.allocation? key = found at matched ⊢
  generalize right.allocation? key' = found' at matched ⊢
  cases matched <;> simp

/-- The allocations away from the finding are untouched on both sides. -/
theorem SessionState.Renamed.step (renamed : left.Renamed runtime renames right)
    (isRenaming : IsRenaming renames)
    (paired : renames finding.key other.key)
    (leftStep : AllocationStep runtime left finding left' token hint)
    (rightStep : AllocationStep runtime right other right' token' hint')
    (counters : ∀ kind, left'.counter kind = right'.counter kind)
    (here :
      Option.Rel (Allocation.Renamed runtime finding.key other.key)
        (left'.allocation? finding.key) (right'.allocation? other.key)) :
    left'.Renamed runtime renames right' where
  scopeId := by
    rw [leftStep.extends.scopeId, rightStep.extends.scopeId]
    exact renamed.scopeId
  counters := counters
  matched := by
    intro key key' pair
    by_cases same : finding.key = key
    · subst same
      rw [← isRenaming.biUnique.2 paired pair]
      exact here
    · have otherwise : other.key ≠ key' := by
        intro same'
        rw [← same'] at pair
        exact same (isRenaming.biUnique.1 paired pair)
      rw [leftStep.frame same, rightStep.frame otherwise]
      exact renamed.matched key key' pair
  leftKnown := by
    intro key allocation found
    by_cases same : finding.key = key
    · exact ⟨other.key, same ▸ paired⟩
    · rw [leftStep.frame same] at found
      exact renamed.leftKnown key allocation found
  rightKnown := by
    intro key allocation found
    by_cases same : other.key = key
    · exact ⟨finding.key, same ▸ paired⟩
    · rw [rightStep.frame same] at found
      exact renamed.rightKnown key allocation found

theorem SessionState.Renamed.reuse
    (renamed : left.Renamed runtime renames right)
    (isRenaming : IsRenaming renames)
    (paired : renames finding.key other.key)
    {allocation allocation' : Allocation} {count count' : Nat}
    (found : left.allocation? finding.key = some allocation)
    (incremented : increment runtime allocation.occurrences = some count)
    (found' : right.allocation? other.key = some allocation')
    (incremented' : increment runtime allocation'.occurrences = some count') :
    (left.reuse finding.key allocation count).Renamed runtime renames
      (right.reuse other.key allocation' count') := by
  have matched := renamed.matched _ _ paired
  rw [found, found'] at matched
  cases matched with
  | some before =>
      have sameCount : count = count' := by
        rw [before.occurrences, incremented'] at incremented
        exact (Option.some.inj incremented).symm
      refine renamed.step isRenaming paired (.reuse found incremented)
        (.reuse found' incremented') renamed.counters ?_
      rw [SessionState.allocation?_reuse_self,
        SessionState.allocation?_reuse_self]
      exact .some
        { token := before.token
          kind := before.kind
          occurrences := sameCount
          hint := before.hint }

theorem SessionState.Renamed.allocate
    (renamed : left.Renamed runtime renames right)
    (isRenaming : IsRenaming renames)
    (paired : renames finding.key other.key) {counter counter' : Nat}
    (absent : left.allocation? finding.key = none)
    (incremented :
      increment runtime (left.counter finding.kind) = some counter)
    (absent' : right.allocation? other.key = none)
    (incremented' :
      increment runtime (right.counter other.kind) = some counter') :
    (left.allocate runtime finding counter).Renamed runtime renames
      (right.allocate runtime other counter') := by
  have sameKind : finding.kind = other.kind :=
    isRenaming.kinds _ _ paired
  have sameCounter : counter = counter' := by
    rw [renamed.counters, sameKind, incremented'] at incremented
    exact (Option.some.inj incremented).symm
  subst sameCounter
  refine renamed.step isRenaming paired (.allocate absent incremented)
    (.allocate absent' incremented') ?_ ?_
  · intro kind
    simp only [SessionState.counter_allocate, sameKind,
      renamed.counters kind]
  · rw [SessionState.allocation?_allocate_self,
      SessionState.allocation?_allocate_self]
    exact .some
      { token := by
          simp only [SessionState.fresh, renamed.scopeId, sameKind]
        kind := sameKind
        occurrences := rfl
        hint := Or.inr ⟨rfl, rfl⟩ }

/-- Both sides reuse an allocation, or both make a new one. -/
theorem AllocationStep.renamed (isRenaming : IsRenaming renames)
    (renamed : left.Renamed runtime renames right)
    (paired : renames finding.key other.key)
    (leftStep : AllocationStep runtime left finding left' token hint)
    (rightStep : AllocationStep runtime right other right' token' hint') :
    left'.Renamed runtime renames right' := by
  have matched := renamed.matched _ _ paired
  cases leftStep with
  | reuse found incremented =>
      cases rightStep with
      | reuse found' incremented' =>
          exact renamed.reuse isRenaming paired found incremented found'
            incremented'
      | allocate absent _ =>
          rw [found, absent] at matched
          cases matched
  | allocate absent incremented =>
      cases rightStep with
      | reuse found _ =>
          rw [absent, found] at matched
          cases matched
      | allocate absent' incremented' =>
          exact renamed.allocate isRenaming paired absent incremented absent'
            incremented'

theorem allocateAll_renamed (isRenaming : IsRenaming renames)
    {findings others : List Finding}
    (paired :
      List.Forall₂ (fun finding other => renames finding.key other.key)
        findings others)
    (renamed : left.Renamed runtime renames right)
    (leftDone : allocateAll runtime left findings = some left')
    (rightDone : allocateAll runtime right others = some right') :
    left'.Renamed runtime renames right' := by
  induction paired generalizing left right with
  | nil =>
      cases leftDone
      cases rightDone
      exact renamed
  | cons pair _ inductionHypothesis =>
      obtain ⟨leftNext, _, _, leftStep, leftRest⟩ :=
        allocateAll_cons.mp leftDone
      obtain ⟨rightNext, _, _, rightStep, rightRest⟩ :=
        allocateAll_cons.mp rightDone
      exact inductionHypothesis
        (leftStep.renamed isRenaming renamed pair rightStep) leftRest
        rightRest

end Step

/-! ## Sessions -/

section Sessions

variable (runtime : Runtime)
  (renames : FindingKind × Text → FindingKind × Text → Prop)

structure RestorationEntry.Renamed (left right : RestorationEntry) :
    Prop where
  key : renames left.key right.key
  allocation :
    Allocation.Renamed runtime left.key right.key (.ofEntry left)
      (.ofEntry right)

/-- The entries of the sessions are partners, in any order. -/
structure RedactionSession.Renamed (left right : RedactionSession) :
    Prop where
  scopeId : left.scopeId = right.scopeId
  entries :
    Multiset.Rel (RestorationEntry.Renamed runtime renames)
      (left.entries : Multiset RestorationEntry)
      (right.entries : Multiset RestorationEntry)

end Sessions

section Session

variable {runtime : Runtime}
  {renames : FindingKind × Text → FindingKind × Text → Prop}

theorem RedactionSession.renamed_self {session : RedactionSession}
    (kept : ∀ entry ∈ session.entries, renames entry.key entry.key) :
    session.Renamed runtime renames session where
  scopeId := rfl
  entries := by
    refine Multiset.rel_refl_of_refl_on ?_
    intro entry member
    exact
      { key := kept entry member
        allocation :=
          { token := rfl
            kind := rfl
            occurrences := rfl
            hint := Or.inl ⟨rfl, rfl⟩ } }

section Partners

variable {left right : RedactionSession}

theorem RedactionSession.Renamed.right_of_left
    (renamed : left.Renamed runtime renames right) {entry : RestorationEntry}
    (member : entry ∈ left.entries) :
    ∃ partner ∈ right.entries,
      RestorationEntry.Renamed runtime renames entry partner :=
  Multiset.exists_mem_of_rel_of_mem renamed.entries member

theorem RedactionSession.Renamed.left_of_right
    (renamed : left.Renamed runtime renames right) {entry : RestorationEntry}
    (member : entry ∈ right.entries) :
    ∃ partner ∈ left.entries,
      RestorationEntry.Renamed runtime renames partner entry :=
  Multiset.exists_mem_of_rel_of_mem (Multiset.rel_flip.mpr renamed.entries)
    member

/-- The states that go on from the sessions; the counters depend on the tokens
only. -/
theorem RedactionSession.Renamed.loaded
    (renamed : left.Renamed runtime renames right)
    (isRenaming : IsRenaming renames) {leftState rightState : SessionState}
    (leftLoaded : Loaded left leftState)
    (rightLoaded : Loaded right rightState)
    (scopeId : leftState.scopeId = rightState.scopeId)
    (counters : ∀ kind, leftState.counter kind = rightState.counter kind) :
    leftState.Renamed runtime renames rightState where
  scopeId := scopeId
  counters := counters
  matched := by
    intro key other pair
    cases found : leftState.allocation? key with
    | some allocation =>
        obtain ⟨entry, member, rfl, rfl⟩ := (leftLoaded _ _).mp found
        obtain ⟨partner, inRight, isPartner⟩ := renamed.right_of_left member
        have sameKey := isRenaming.biUnique.2 isPartner.key pair
        subst sameKey
        rw [(rightLoaded _ _).mpr ⟨partner, inRight, rfl, rfl⟩]
        exact .some isPartner.allocation
    | none =>
        cases found' : rightState.allocation? other with
        | none =>
            exact .none
        | some allocation =>
            obtain ⟨entry, member, rfl, rfl⟩ := (rightLoaded _ _).mp found'
            obtain ⟨partner, inLeft, isPartner⟩ :=
              renamed.left_of_right member
            have sameKey := isRenaming.biUnique.1 isPartner.key pair
            subst sameKey
            rw [(leftLoaded _ _).mpr ⟨partner, inLeft, rfl, rfl⟩] at found
            cases found
  leftKnown := by
    intro key allocation found
    obtain ⟨entry, member, rfl, _⟩ := (leftLoaded _ _).mp found
    obtain ⟨partner, _, isPartner⟩ := renamed.right_of_left member
    exact ⟨partner.key, isPartner.key⟩
  rightKnown := by
    intro key allocation found
    obtain ⟨entry, member, rfl, _⟩ := (rightLoaded _ _).mp found
    obtain ⟨partner, _, isPartner⟩ := renamed.left_of_right member
    exact ⟨partner.key, isPartner.key⟩

end Partners

namespace ReplacementProcessor

variable {left right : ReplacementProcessor}

theorem nodup_entries_key {processor : ReplacementProcessor}
    (keyed : processor.state.Keyed) :
    (processor.entries.map RestorationEntry.key).Nodup := by
  refine (nodup_map_entries RestorationEntry.key).mpr ?_
  intro key other allocation allocation' found found' same
  rw [← keyed key allocation found, ← keyed other allocation' found']
  exact same

theorem toEntry_renamed (leftKeyed : left.state.Keyed)
    (rightKeyed : right.state.Keyed)
    (renamed : left.state.Renamed runtime renames right.state)
    {key other : FindingKind × Text} (pair : renames key other)
    {allocation allocation' : Allocation}
    (found : left.state.allocation? key = some allocation)
    (found' : right.state.allocation? other = some allocation') :
    RestorationEntry.Renamed runtime renames allocation.toEntry
      allocation'.toEntry := by
  have matched := renamed.matched key other pair
  rw [found, found'] at matched
  have leftKey : allocation.toEntry.key = key := leftKeyed key _ found
  have rightKey : allocation'.toEntry.key = other :=
    rightKeyed other _ found'
  cases matched with
  | some alike =>
      constructor
      · rw [leftKey, rightKey]
        exact pair
      · rw [leftKey, rightKey]
        exact alike

/-- The partner of an entry is the entry of the key that stands for its key. -/
theorem entries_renamed (isRenaming : IsRenaming renames)
    (leftKeyed : left.state.Keyed) (rightKeyed : right.state.Keyed)
    (renamed : left.state.Renamed runtime renames right.state) :
    Multiset.Rel (RestorationEntry.Renamed runtime renames)
      (left.entries : Multiset RestorationEntry)
      (right.entries : Multiset RestorationEntry) := by
  have leftKeys := nodup_entries_key leftKeyed
  have rightKeys := nodup_entries_key rightKeyed
  -- an entry is known by its key, so partners are unique
  let partners (entry other : RestorationEntry) : Prop :=
    entry ∈ left.entries ∧ other ∈ right.entries ∧
      RestorationEntry.Renamed runtime renames entry other
  have biUnique : BiUnique partners := by
    constructor
    · rintro entry other entry' ⟨member, _, pair⟩ ⟨member', _, pair'⟩
      exact List.inj_on_of_nodup_map leftKeys member member'
        (isRenaming.biUnique.1 pair.key pair'.key)
    · rintro entry other other' ⟨_, member, pair⟩ ⟨_, member', pair'⟩
      exact List.inj_on_of_nodup_map rightKeys member member'
        (isRenaming.biUnique.2 pair.key pair'.key)
  have related :
      Multiset.Rel partners (left.entries : Multiset RestorationEntry)
        (right.entries : Multiset RestorationEntry) := by
    refine rel_of_partners biUnique leftKeys.of_map rightKeys.of_map ?_ ?_
    · intro entry member
      obtain ⟨key, allocation, found, rfl⟩ := mem_entries_iff.mp member
      obtain ⟨other, pair⟩ := renamed.leftKnown key allocation found
      obtain ⟨allocation', found'⟩ := (renamed.found_iff pair).mp ⟨_, found⟩
      have inRight := mem_entries_iff.mpr ⟨other, _, found', rfl⟩
      exact ⟨_, inRight, member, inRight,
        toEntry_renamed leftKeyed rightKeyed renamed pair found found'⟩
    · intro entry member
      obtain ⟨other, allocation', found', rfl⟩ := mem_entries_iff.mp member
      obtain ⟨key, pair⟩ := renamed.rightKnown other allocation' found'
      obtain ⟨allocation, found⟩ := (renamed.found_iff pair).mpr ⟨_, found'⟩
      have inLeft := mem_entries_iff.mpr ⟨key, _, found, rfl⟩
      exact ⟨_, inLeft, inLeft, member,
        toEntry_renamed leftKeyed rightKeyed renamed pair found found'⟩
  exact related.mono fun _ _ _ _ pair => pair.2.2

end ReplacementProcessor

def Round.findings (round : Round) : List Finding :=
  round.fragments.flatMap Fragment.findings

/-- The steps of a round that has an outcome. -/
structure Round.Redacted (runtime : Runtime)
    (prior : Option RedactionSession) (round : Round)
    (outcome : RoundOutcome) where
  before : ReplacementProcessor
  after : ReplacementProcessor
  continued :
    ReplacementProcessor.withPriorSession runtime prior round.externalId
      round.scopeId = .ok before
  allocated :
    allocateAll runtime before.state round.findings = some after.state
  session :
    outcome.session =
      after.buildSession runtime round.originalText round.redactedText
        round.policy round.sessionId

theorem Round.redact_eq_some {prior : Option RedactionSession}
    {round : Round} {outcome : RoundOutcome}
    (redacted : round.redact runtime prior = some outcome) :
    Nonempty (Round.Redacted runtime prior round outcome) := by
  obtain ⟨before, accepted, rest⟩ := Option.bind_eq_some_iff.mp redacted
  obtain ⟨⟨after, outputs⟩, replaced, last⟩ :=
    Option.bind_eq_some_iff.mp rest
  cases last
  have continued :
      ReplacementProcessor.withPriorSession runtime prior round.externalId
        round.scopeId = .ok before := by
    cases result :
        ReplacementProcessor.withPriorSession runtime prior round.externalId
          round.scopeId with
    | error message =>
        rw [result] at accepted
        cases accepted
    | ok processor =>
        rw [result] at accepted
        exact congrArg Except.ok (Option.some.inj accepted)
  have recorded : before.Recorded := by
    rw [ReplacementProcessor.Recorded,
      (sound_of_withPriorSession continued).2]
    simp
  exact ⟨{
    before
    after
    continued
    allocated :=
      (ReplacementProcessor.redactFragments_spec replaced recorded).1
    session := rfl }⟩

theorem Round.Redacted.scopeId {prior : Option RedactionSession}
    {round : Round} {outcome : RoundOutcome}
    (redacted : Round.Redacted runtime prior round outcome) :
    outcome.session.scopeId = redacted.before.state.scopeId := by
  rw [redacted.session]
  exact (allocateAll_extends redacted.allocated).scopeId

theorem Round.Redacted.keyed {prior : Option RedactionSession}
    {round : Round} {outcome : RoundOutcome}
    (redacted : Round.Redacted runtime prior round outcome) :
    redacted.after.state.Keyed :=
  keyed_allocateAll
    (sound_of_withPriorSession redacted.continued).1.keyed
    redacted.allocated

section Priors

variable {prior prior' : Option RedactionSession}
  {externalId externalId' : Option Text} {scopeId scopeId' : Text}
  {left right : ReplacementProcessor}

/-- The counters depend on the tokens only. -/
theorem counter_eq_of_renamed {prior prior' : RedactionSession}
    (renamed : prior.Renamed runtime renames prior')
    (leftStart :
      ReplacementProcessor.withPriorSession runtime (some prior) externalId
        scopeId = .ok left)
    (rightStart :
      ReplacementProcessor.withPriorSession runtime (some prior') externalId'
        scopeId' = .ok right)
    (kind : FindingKind) :
    left.state.counter kind = right.state.counter kind := by
  refine eq_of_forall_ge_iff fun bound => ?_
  rw [counter_le_iff_of_withPriorSession leftStart,
    counter_le_iff_of_withPriorSession rightStart]
  constructor
  · intro bounded entry member parsed read
    obtain ⟨partner, inLeft, pair⟩ := renamed.left_of_right member
    have sameToken : partner.token = entry.token := pair.allocation.token
    rw [← sameToken] at read
    exact bounded partner inLeft parsed read
  · intro bounded entry member parsed read
    obtain ⟨partner, inRight, pair⟩ := renamed.right_of_left member
    have sameToken : entry.token = partner.token := pair.allocation.token
    rw [sameToken] at read
    exact bounded partner inRight parsed read

theorem start_renamed (isRenaming : IsRenaming renames)
    (renamed :
      Option.Rel (RedactionSession.Renamed runtime renames) prior prior')
    (leftStart :
      ReplacementProcessor.withPriorSession runtime prior externalId
        scopeId = .ok left)
    (rightStart :
      ReplacementProcessor.withPriorSession runtime prior' externalId'
        scopeId' = .ok right)
    (sameScope : left.state.scopeId = right.state.scopeId) :
    left.state.Renamed runtime renames right.state := by
  cases renamed with
  | none =>
      cases leftStart
      cases rightStart
      have empty :
          ∀ (scopeId : Text) (externalId : Option Text) key,
            SessionState.allocation? { scopeId, externalId } key = none :=
        fun _ _ _ => Std.TreeMap.getElem?_emptyc
      refine ⟨sameScope, fun _ => rfl, ?_, ?_, ?_⟩
      · intro key other _
        rw [empty, empty]
        exact .none
      · intro key allocation found
        rw [empty] at found
        cases found
      · intro key allocation found
        rw [empty] at found
        cases found
  | some sessions =>
      have leftFacts := of_withPriorSession_eq_ok leftStart
      have rightFacts := of_withPriorSession_eq_ok rightStart
      exact sessions.loaded isRenaming leftFacts.2.2.2.2.1
        rightFacts.2.2.2.2.1 sameScope
        (counter_eq_of_renamed sessions leftStart rightStart)

/-- One round on either side. -/
theorem Round.Redacted.renamed (isRenaming : IsRenaming renames)
    (priors :
      Option.Rel (RedactionSession.Renamed runtime renames) prior prior')
    {round round' : Round} {outcome outcome' : RoundOutcome}
    (paired :
      List.Forall₂ (fun finding other => renames finding.key other.key)
        round.findings round'.findings)
    (redacted : Round.Redacted runtime prior round outcome)
    (redacted' : Round.Redacted runtime prior' round' outcome')
    (sameScope : outcome.session.scopeId = outcome'.session.scopeId) :
    outcome.session.Renamed runtime renames outcome'.session where
  scopeId := sameScope
  entries := by
    rw [redacted.scopeId, redacted'.scopeId] at sameScope
    have started :=
      start_renamed isRenaming priors redacted.continued redacted'.continued
        sameScope
    have finished :=
      allocateAll_renamed isRenaming paired started redacted.allocated
        redacted'.allocated
    rw [redacted.session, redacted'.session]
    exact ReplacementProcessor.entries_renamed isRenaming redacted.keyed
      redacted'.keyed finished

end Priors

/-! ## Runs -/

/-- The session after rounds that each continue the one before. -/
def sessionAfter (runtime : Runtime) :
    Option RedactionSession → List Round → Option RedactionSession
  | prior, [] => prior
  | prior, round :: rounds => do
      let outcome ← round.redact runtime prior
      sessionAfter runtime (some outcome.session) rounds

theorem scopeId_sessionAfter {prior session : RedactionSession}
    {rounds : List Round}
    (run : sessionAfter runtime (some prior) rounds = some session) :
    session.scopeId = prior.scopeId := by
  induction rounds generalizing prior with
  | nil =>
      cases run
      rfl
  | cons round rounds inductionHypothesis =>
      obtain ⟨outcome, first, rest⟩ := Option.bind_eq_some_iff.mp run
      obtain ⟨redacted⟩ := Round.redact_eq_some first
      rw [inductionHypothesis rest, redacted.scopeId]
      exact (of_withPriorSession_eq_ok redacted.continued).2.2.1

theorem allocateAll_allocated {state result : SessionState}
    {findings : List Finding}
    (done : allocateAll runtime state findings = some result) :
    ∀ finding ∈ findings, ∃ allocation,
      result.allocation? finding.key = some allocation := by
  induction findings generalizing state with
  | nil =>
      simp
  | cons head tail inductionHypothesis =>
      obtain ⟨next, token, hint, step, rest⟩ := allocateAll_cons.mp done
      intro finding member
      rcases List.mem_cons.mp member with here | later
      · obtain ⟨allocation, found, _⟩ := step.allocated
        obtain ⟨_, kept⟩ :=
          (allocateAll_extends rest).allocations _ allocation found
        rw [here]
        exact ⟨_, kept⟩
      · exact inductionHypothesis rest finding later

/-- The session of a round has an entry for every key that the prior session or
a finding has. -/
theorem Round.Redacted.recorded {prior : Option RedactionSession}
    {round : Round} {outcome : RoundOutcome}
    (redacted : Round.Redacted runtime prior round outcome)
    {key : FindingKind × Text}
    (known :
      (∃ session, prior = some session ∧
          ∃ entry ∈ session.entries, entry.key = key) ∨
        ∃ finding ∈ round.findings, finding.key = key) :
    ∃ entry ∈ outcome.session.entries, entry.key = key := by
  have allocated :
      ∃ allocation,
        redacted.after.state.allocation? key = some allocation := by
    rcases known with ⟨session, rfl, entry, member, rfl⟩ | found
    · have facts := of_withPriorSession_eq_ok redacted.continued
      have loaded := facts.2.2.2.2.1
      obtain ⟨_, kept⟩ :=
        (allocateAll_extends redacted.allocated).allocations entry.key _
          ((loaded _ _).mpr ⟨entry, member, rfl, rfl⟩)
      exact ⟨_, kept⟩
    · obtain ⟨finding, member, rfl⟩ := found
      exact allocateAll_allocated redacted.allocated finding member
  obtain ⟨allocation, found⟩ := allocated
  rw [redacted.session]
  exact ⟨allocation.toEntry,
    ReplacementProcessor.mem_entries_iff.mpr ⟨key, allocation, found, rfl⟩,
    redacted.keyed key allocation found⟩

theorem sessionAfter_recorded {prior : Option RedactionSession}
    {rounds : List Round} {session : RedactionSession}
    (run : sessionAfter runtime prior rounds = some session)
    {key : FindingKind × Text}
    (known :
      (∃ before, prior = some before ∧
          ∃ entry ∈ before.entries, entry.key = key) ∨
        ∃ finding ∈ rounds.flatMap Round.findings, finding.key = key) :
    ∃ entry ∈ session.entries, entry.key = key := by
  induction rounds generalizing prior with
  | nil =>
      rcases known with ⟨before, rfl, recorded⟩ | found
      · cases run
        exact recorded
      · obtain ⟨finding, member, _⟩ := found
        exact absurd member List.not_mem_nil
  | cons round rounds inductionHypothesis =>
      obtain ⟨outcome, first, rest⟩ := Option.bind_eq_some_iff.mp run
      obtain ⟨redacted⟩ := Round.redact_eq_some first
      refine inductionHypothesis rest ?_
      rcases known with before | found
      · exact Or.inl ⟨_, rfl, redacted.recorded (Or.inl before)⟩
      · obtain ⟨finding, member, isKey⟩ := found
        rw [List.flatMap_cons, List.mem_append] at member
        rcases member with here | later
        · exact Or.inl
            ⟨_, rfl, redacted.recorded (Or.inr ⟨finding, here, isKey⟩)⟩
        · exact Or.inr ⟨finding, later, isKey⟩

/-- Rounds on either side, by induction on the rounds. -/
theorem sessionAfter_renamed (isRenaming : IsRenaming renames)
    {rounds rounds' : List Round}
    (paired :
      List.Forall₂
        (fun round round' =>
          List.Forall₂ (fun finding other => renames finding.key other.key)
            round.findings round'.findings)
        rounds rounds')
    {prior prior' : Option RedactionSession}
    (priors :
      Option.Rel (RedactionSession.Renamed runtime renames) prior prior')
    {session session' : RedactionSession}
    (run : sessionAfter runtime prior rounds = some session)
    (run' : sessionAfter runtime prior' rounds' = some session')
    (sameScope : session.scopeId = session'.scopeId) :
    session.Renamed runtime renames session' := by
  induction paired generalizing prior prior' with
  | nil =>
      cases run
      cases run'
      cases priors with
      | some renamed =>
          exact renamed
  | cons pair _ inductionHypothesis =>
      obtain ⟨outcome, first, rest⟩ := Option.bind_eq_some_iff.mp run
      obtain ⟨outcome', first', rest'⟩ := Option.bind_eq_some_iff.mp run'
      obtain ⟨redacted⟩ := Round.redact_eq_some first
      obtain ⟨redacted'⟩ := Round.redact_eq_some first'
      have sameHere :
          outcome.session.scopeId = outcome'.session.scopeId := by
        rw [← scopeId_sessionAfter rest, ← scopeId_sessionAfter rest']
        exact sameScope
      have renamed :=
        redacted.renamed isRenaming priors pair redacted' sameHere
      exact inductionHypothesis (.some renamed) rest rest'

end Session

end Redactor
