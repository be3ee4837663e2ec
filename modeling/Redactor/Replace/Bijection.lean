import Redactor.Replace.Renaming
import Redactor.Replace.Room

/-!
# One token for each original

A processor that was started fresh, or from a session that rounds from a fresh
start have led to, gives the pairs of a kind and an original different tokens.
Its session accounts for every replacement, and neither the pairs nor their
numbers of occurrences depend on the order of the fragments.
-/

namespace Redactor

open Utf8 Fallible

/-- No session, or one that a chain of rounds has led to from a fresh start.
Every round has drawn a scope, which it uses if there is no session yet. -/
inductive Reached (runtime : Runtime) : Option RedactionSession → Prop
  | fresh : Reached runtime none
  | round {prior : Option RedactionSession} {round : Round}
      {outcome : RoundOutcome} :
      Reached runtime prior → IsHexId round.scopeId →
      round.redact runtime prior = some outcome →
      Reached runtime (some outcome.session)

/-- The entries that a processor starts with. -/
def importedEntries (prior : Option RedactionSession) :
    List RestorationEntry :=
  (prior.map RedactionSession.entries).getD []

/-- How often the prior session has replaced by the token. -/
def importedOccurrences (prior : Option RedactionSession) (token : Text) :
    Nat :=
  ((prior.bind fun session => session.entryOf? token).map
    RestorationEntry.occurrences).getD 0

/-- What is known of the state that such a processor starts with. -/
structure Started (runtime : Runtime) (prior : Option RedactionSession)
    (processor : ReplacementProcessor) : Prop where
  scopeId : IsHexId processor.state.scopeId
  sound : processor.state.Sound runtime
  counted : processor.state.Counted runtime
  formatted : processor.state.Formatted runtime
  unused : processor.appliedReplacements = []
  tokens : ((importedEntries prior).map RestorationEntry.token).Nodup
  loaded :
    ∀ key allocation,
      processor.state.allocation? key = some allocation ↔
        ∃ entry ∈ importedEntries prior,
          entry.key = key ∧ allocation = .ofEntry entry

section Start

variable {runtime : Runtime} {prior : Option RedactionSession}
  {externalId : Option Text} {scopeId : Text}
  {processor : ReplacementProcessor}

theorem started_of_formatted
    (formatted : ∀ session, prior = some session →
      ValidSession runtime session → FormattedSession runtime session)
    (drawn : IsHexId scopeId)
    (accepted :
      ReplacementProcessor.withPriorSession runtime prior externalId
        scopeId = .ok processor) :
    Started runtime prior processor := by
  obtain ⟨sound, unused⟩ := sound_of_withPriorSession accepted
  cases prior with
  | none =>
      obtain ⟨hex, counted, written⟩ :=
        formatted_of_withPriorSession (by simp) drawn accepted
      cases accepted
      refine ⟨hex, sound, counted, written, unused, List.nodup_nil, ?_⟩
      intro key allocation
      have absent :
          SessionState.allocation? { scopeId, externalId } key = none :=
        Std.TreeMap.getElem?_emptyc
      simp [absent, importedEntries]
  | some session =>
      obtain ⟨valid, _, _, _, loaded, _⟩ :=
        of_withPriorSession_eq_ok accepted
      have isFormatted :
          ∀ other, some session = some other →
            FormattedSession runtime other := by
        intro other same
        cases same
        exact formatted session rfl valid
      obtain ⟨hex, counted, written⟩ :=
        formatted_of_withPriorSession isFormatted drawn accepted
      exact ⟨hex, sound, counted, written, unused, valid.tokens, loaded⟩

/-- A session that a chain has led to has its tokens written in a scope of
digits. -/
theorem Reached.formatted (reached : Reached runtime prior) :
    ∀ session, prior = some session → ValidSession runtime session →
      FormattedSession runtime session := by
  induction reached with
  | fresh =>
      intro session isPrior
      cases isPrior
  | @round prior round outcome _ drawn redacted inductionHypothesis =>
      intro session isPrior valid
      cases isPrior
      obtain ⟨steps⟩ := Round.redact_eq_some redacted
      have started :=
        started_of_formatted inductionHypothesis drawn steps.continued
      have keyed := keyed_allocateAll started.sound.keyed steps.allocated
      have formatted :
          steps.after.state.Formatted runtime :=
        allocateAll_invariant (SessionState.Formatted runtime)
          (fun _ _ _ _ _ before step => step.formatted before)
          started.formatted steps.allocated
      refine ⟨valid, ?_, ?_⟩
      · rw [steps.scopeId]
        exact started.scopeId
      · rw [steps.session]
        intro entry member
        obtain ⟨key, allocation, found, rfl⟩ :=
          ReplacementProcessor.mem_entries_iff.mp member
        have written := formatted key allocation found
        rw [← keyed key allocation found] at written
        exact written

theorem Reached.started (reached : Reached runtime prior)
    (drawn : IsHexId scopeId)
    (accepted :
      ReplacementProcessor.withPriorSession runtime prior externalId
        scopeId = .ok processor) :
    Started runtime prior processor :=
  started_of_formatted reached.formatted drawn accepted

/-- The tokens of the prior session are those of the state. -/
theorem Started.hasToken_iff (started : Started runtime prior processor)
    {key : FindingKind × Text} {token : Text} :
    processor.state.HasToken key token ↔
      ∃ entry ∈ importedEntries prior,
        entry.key = key ∧ entry.token = token := by
  constructor
  · rintro ⟨allocation, found, rfl⟩
    obtain ⟨entry, member, same, rfl⟩ :=
      (started.loaded key allocation).mp found
    exact ⟨entry, member, same, rfl⟩
  · rintro ⟨entry, member, same, rfl⟩
    exact ⟨.ofEntry entry,
      (started.loaded key _).mpr ⟨entry, member, same, rfl⟩, rfl⟩

/-- The occurrences of a token in the prior session are those of its key. -/
theorem Started.occurrences_eq (started : Started runtime prior processor)
    {key : FindingKind × Text} {token : Text}
    (known : processor.state.HasToken key token) :
    processor.state.occurrences key = importedOccurrences prior token := by
  obtain ⟨allocation, found, rfl⟩ := known
  obtain ⟨entry, member, _, rfl⟩ := (started.loaded key allocation).mp found
  cases prior with
  | none =>
      cases member
  | some session =>
      have lookup := entryOf?_of_mem started.tokens member
      have imported :
          importedOccurrences (some session) entry.token =
            entry.occurrences := by
        rw [importedOccurrences, Option.bind_some, lookup]
        rfl
      rw [SessionState.occurrences, found]
      exact imported.symm

end Start

/-! ## The account of a run -/

/-- The tokens that the findings have received, in order. -/
def ReplacementProcessor.received (processor : ReplacementProcessor) :
    List Text :=
  processor.appliedReplacements.map AppliedReplacement.replacement

/-- What an entry says about its pair, without the token and the hint. -/
def RestorationEntry.account (entry : RestorationEntry) :
    FindingKind × Text × Nat :=
  (entry.kind, entry.original, entry.occurrences)

/-- The session of a run accounts for the findings and for the session that the
run has started from. -/
structure Accounted (prior : Option RedactionSession)
    (findings : List Finding) (received : List Text)
    (session : RedactionSession) : Prop where
  /-- Every finding has received a token. -/
  length : received.length = findings.length
  /-- Findings have one token if and only if they have one key. -/
  bijective :
    ∀ left ∈ findings.zip received, ∀ right ∈ findings.zip received,
      left.2 = right.2 ↔
        left.1.kind = right.1.kind ∧ left.1.matchText = right.1.matchText
  /-- Different entries have different keys. -/
  keys : (session.entries.map RestorationEntry.key).Nodup
  /-- Different entries have different tokens. -/
  tokens : (session.entries.map RestorationEntry.token).Nodup
  /-- What was imported is among the entries. -/
  imported :
    ∀ entry ∈ importedEntries prior, ∃ occurrences,
      { entry with occurrences } ∈ session.entries
  occurrences :
    ∀ entry ∈ session.entries,
      entry.occurrences =
        importedOccurrences prior entry.token + received.count entry.token
  /-- The issued tokens increase. -/
  sorted :
    session.issuedTokens.Pairwise fun left right => compare left right = .lt
  issued : ∀ token, token ∈ session.issuedTokens ↔ token ∈ received
  known :
    ∀ token ∈ session.issuedTokens,
      token ∈ session.entries.map RestorationEntry.token

section Run

variable {runtime : Runtime} {prior : Option RedactionSession}
  {processor after : ReplacementProcessor} {findings : List Finding}

/-- The steps of a run that stays below the limit. -/
structure Ran (runtime : Runtime) (processor after : ReplacementProcessor)
    (findings : List Finding) : Prop where
  below : StaysBelowLimit runtime processor.state findings
  allocated : allocateAll runtime processor.state findings = some after.state
  recorded : after.Recorded
  keys :
    after.appliedReplacements.map AppliedReplacement.key =
      findings.map Finding.key

theorem Started.ran {fragments : List Fragment} {outputs : List Text}
    (started : Started runtime prior processor)
    (done : processor.redactFragments runtime fragments =
      some (after, outputs))
    (below :
      StaysBelowLimit runtime processor.state
        (fragments.flatMap Fragment.findings)) :
    Ran runtime processor after (fragments.flatMap Fragment.findings) := by
  have before : processor.Recorded := by
    rw [ReplacementProcessor.Recorded, started.unused]
    simp
  obtain ⟨allocated, recorded⟩ :=
    ReplacementProcessor.redactFragments_spec done before
  have keys := ReplacementProcessor.redactFragments_records done
  rw [started.unused, List.map_nil, List.nil_append] at keys
  exact ⟨below, allocated, recorded, keys⟩

theorem Started.ended (started : Started runtime prior processor)
    (ran : Ran runtime processor after findings) :
    RoundEnd runtime after :=
  roundEnd_of_allocateAll started.scopeId started.sound.keyed
    started.formatted ran.allocated
    (distinct_of_allocationsFit started.sound.distinct
      (allocationsFit_of_staysBelowLimit started.scopeId.isScope
        started.counted ran.below)
      ran.allocated)
    ran.recorded

/-- Keys and tokens determine each other. -/
theorem SessionState.Distinct.token_iff {state : SessionState}
    (distinct : state.Distinct) {left right : FindingKind × Text}
    {leftToken rightToken : Text} (knownLeft : state.HasToken left leftToken)
    (knownRight : state.HasToken right rightToken) :
    leftToken = rightToken ↔ left = right := by
  obtain ⟨leftAllocation, foundLeft, rfl⟩ := knownLeft
  obtain ⟨rightAllocation, foundRight, rfl⟩ := knownRight
  constructor
  · exact distinct left right _ _ foundLeft foundRight
  · rintro rfl
    rw [foundLeft] at foundRight
    cases foundRight
    rfl

/-- A token has been received as often as its key was found. -/
theorem Ran.count_received (ran : Ran runtime processor after findings)
    (distinct : after.state.Distinct) {key : FindingKind × Text}
    {token : Text} (known : after.state.HasToken key token) :
    after.received.count token = countKey key findings := by
  have sameTest :
      after.appliedReplacements.countP
          ((fun other => other == token) ∘ AppliedReplacement.replacement) =
        after.appliedReplacements.countP
          ((fun other => decide (other = key)) ∘ AppliedReplacement.key) := by
    apply List.countP_congr
    intro applied member
    have tokens : applied.replacement = token ↔ applied.key = key :=
      distinct.token_iff (ran.recorded applied member) known
    simpa using tokens
  rw [ReplacementProcessor.received, List.count, List.countP_map, sameTest,
    ← List.countP_map, ran.keys, List.countP_map]
  rfl

/-- The pairs of findings and tokens are the replacements. -/
theorem Ran.exists_applied (ran : Ran runtime processor after findings)
    {pair : Finding × Text}
    (member : pair ∈ findings.zip after.received) :
    ∃ applied ∈ after.appliedReplacements,
      applied.key = pair.1.key ∧ applied.replacement = pair.2 := by
  have paired :
      (pair.1.key, pair.2) ∈
        (findings.map Finding.key).zip after.received := by
    rw [← List.map_id after.received, List.zip_map]
    exact List.mem_map_of_mem member
  rw [← ran.keys, ReplacementProcessor.received, List.zip_map',
    List.mem_map] at paired
  obtain ⟨applied, inside, same⟩ := paired
  exact ⟨applied, inside, congrArg Prod.fst same, congrArg Prod.snd same⟩

/-- What an entry of the session that is built stands for. -/
theorem ReplacementProcessor.hasToken_of_mem_entries
    {entry : RestorationEntry} (keyed : after.state.Keyed)
    (member : entry ∈ after.entries) :
    after.state.HasToken entry.key entry.token ∧
      entry.occurrences = after.state.occurrences entry.key := by
  obtain ⟨key, allocation, found, rfl⟩ :=
    ReplacementProcessor.mem_entries_iff.mp member
  have same : allocation.toEntry.key = key := keyed key allocation found
  rw [same, SessionState.occurrences, found]
  exact ⟨⟨allocation, found, rfl⟩, rfl⟩

/-- A token has the same prior count as its key, also when the run has
allocated it. -/
theorem Started.importedOccurrences_eq
    (started : Started runtime prior processor)
    (ran : Ran runtime processor after findings)
    (distinct : after.state.Distinct) {key : FindingKind × Text}
    {token : Text} (known : after.state.HasToken key token) :
    processor.state.occurrences key = importedOccurrences prior token := by
  have extended := allocateAll_extends ran.allocated
  -- whoever had the token before is the key
  have sameKey (other : FindingKind × Text)
      (before : processor.state.HasToken other token) : other = key :=
    (distinct.token_iff (extended.hasToken before) known).mp rfl
  cases found : processor.state.allocation? key with
  | some allocation =>
      have before : processor.state.HasToken key allocation.token :=
        ⟨allocation, found, rfl⟩
      have same : allocation.token = token :=
        (distinct.token_iff (extended.hasToken before) known).mpr rfl
      rw [← same]
      exact started.occurrences_eq before
  | none =>
      have absent :
          (prior.bind fun session => session.entryOf? token) = none := by
        rw [Option.eq_none_iff_forall_not_mem]
        intro entry member
        obtain ⟨session, rfl, lookup⟩ := Option.bind_eq_some_iff.mp member
        obtain ⟨inside, isToken⟩ := of_entryOf?_eq_some lookup
        have before : processor.state.HasToken entry.key token :=
          started.hasToken_iff.mpr ⟨entry, inside, rfl, isToken⟩
        rw [sameKey entry.key before] at before
        obtain ⟨allocation, foundBefore, _⟩ := before
        rw [found] at foundBefore
        cases foundBefore
      rw [SessionState.occurrences, found, importedOccurrences, absent]
      rfl

theorem ReplacementProcessor.sorted_issuedTokens :
    after.issuedTokens.Pairwise fun left right =>
      compare left right = .lt :=
  Std.TreeSet.ordered_toList

/-- The session of a run accounts for its findings. -/
theorem Started.accounted (started : Started runtime prior processor)
    (ran : Ran runtime processor after findings)
    (originalText redactedText : Text) (policy : RedactionPolicy)
    (sessionId : Text) :
    Accounted prior findings after.received
      (after.buildSession runtime originalText redactedText policy
        sessionId) := by
  have ended := started.ended ran
  refine
    { length := ?_
      bijective := ?_
      keys := ?_
      tokens := ?_
      imported := ?_
      occurrences := ?_
      sorted := ReplacementProcessor.sorted_issuedTokens
      issued := ?_
      known := ?_ }
  · have lengths := congrArg List.length ran.keys
    rw [List.length_map, List.length_map] at lengths
    rw [ReplacementProcessor.received, List.length_map, lengths]
  · intro left leftMember right rightMember
    obtain ⟨first, firstMade, firstKey, firstToken⟩ :=
      ran.exists_applied leftMember
    obtain ⟨second, secondMade, secondKey, secondToken⟩ :=
      ran.exists_applied rightMember
    have knownFirst : after.state.HasToken left.1.key left.2 := by
      rw [← firstKey, ← firstToken]
      exact ran.recorded first firstMade
    have knownSecond : after.state.HasToken right.1.key right.2 := by
      rw [← secondKey, ← secondToken]
      exact ran.recorded second secondMade
    rw [ended.distinct.token_iff knownFirst knownSecond, Finding.key,
      Finding.key, Prod.mk.injEq]
  · refine (ReplacementProcessor.nodup_map_entries
      RestorationEntry.key).mpr ?_
    intro left right leftAllocation rightAllocation foundLeft foundRight
      same
    rw [← ended.keyed left _ foundLeft, ← ended.keyed right _ foundRight]
    exact same
  · exact (ReplacementProcessor.nodup_map_entries
      RestorationEntry.token).mpr ended.distinct
  · intro entry member
    obtain ⟨count, found⟩ :=
      (allocateAll_extends ran.allocated).allocations entry.key
        (.ofEntry entry)
        ((started.loaded _ _).mpr ⟨entry, member, rfl, rfl⟩)
    exact ⟨count,
      ReplacementProcessor.mem_entries_iff.mpr ⟨entry.key, _, found, rfl⟩⟩
  · intro entry member
    obtain ⟨known, counted⟩ :=
      ReplacementProcessor.hasToken_of_mem_entries ended.keyed member
    rw [counted,
      occurrences_of_staysBelowLimit entry.key ran.below ran.allocated,
      started.importedOccurrences_eq ran ended.distinct known,
      ran.count_received ended.distinct known]
  · intro token
    rw [ReplacementProcessor.received, List.mem_map]
    exact ReplacementProcessor.mem_issuedTokens_iff
  · intro token member
    obtain ⟨applied, made, rfl⟩ :=
      ReplacementProcessor.mem_issuedTokens_iff.mp member
    obtain ⟨allocation, found, same⟩ := ran.recorded applied made
    exact List.mem_map.mpr ⟨allocation.toEntry,
      ReplacementProcessor.mem_entries_iff.mpr ⟨_, _, found, rfl⟩, same⟩

end Run

section Reorder

variable {runtime : Runtime} {prior : Option RedactionSession}
  {processor after after' : ReplacementProcessor}
  {findings reordered : List Finding}

/-- Fragments can be redacted in any order if they can in one. -/
theorem Started.redacts_reordered
    (started : Started runtime prior processor)
    {fragments others : List Fragment} {outputs : List Text}
    (perm : others.Perm fragments)
    (done : processor.redactFragments runtime fragments =
      some (after, outputs))
    (below :
      StaysBelowLimit runtime processor.state
        (fragments.flatMap Fragment.findings)) :
    ∃ after' outputs',
      processor.redactFragments runtime others = some (after', outputs') ∧
        Ran runtime processor after'
          (others.flatMap Fragment.findings) := by
  have belowOthers :=
    below.perm (perm.flatMap_right Fragment.findings) started.sound.bounded
  obtain ⟨result, allocated⟩ := belowOthers.completes
  obtain ⟨after', outputs', doneOthers, _⟩ :=
    ReplacementProcessor.redactFragments_of_gaps processor
      (fun fragment member =>
        ReplacementProcessor.exists_gaps_of_redactFragments done fragment
          (perm.mem_iff.mp member))
      allocated
  exact ⟨after', outputs', doneOthers, started.ran doneOthers belowOthers⟩

/-- An entry says of a pair that it has an allocation and how often it has been
replaced. -/
theorem ReplacementProcessor.mem_accounts_iff (keyed : after.state.Keyed)
    {row : FindingKind × Text × Nat} :
    row ∈ after.entries.map RestorationEntry.account ↔
      (∃ token, after.state.HasToken (row.1, row.2.1) token) ∧
        row.2.2 = after.state.occurrences (row.1, row.2.1) := by
  rw [List.mem_map]
  constructor
  · rintro ⟨entry, member, rfl⟩
    obtain ⟨known, counted⟩ := hasToken_of_mem_entries keyed member
    exact ⟨⟨entry.token, known⟩, counted⟩
  · rintro ⟨⟨token, allocation, found, _⟩, counted⟩
    refine ⟨allocation.toEntry, mem_entries_iff.mpr ⟨_, _, found, rfl⟩, ?_⟩
    have isKey := keyed _ allocation found
    rw [Prod.mk.injEq] at isKey
    rw [SessionState.occurrences, found] at counted
    exact Prod.ext isKey.1 (Prod.ext isKey.2 counted.symm)

/-- In any order of the findings the same pairs have been replaced equally
often. -/
theorem Started.mem_accounts_iff_reordered
    (started : Started runtime prior processor)
    (perm : reordered.Perm findings)
    (ran : Ran runtime processor after findings)
    (ran' : Ran runtime processor after' reordered)
    (row : FindingKind × Text × Nat) :
    row ∈ after'.entries.map RestorationEntry.account ↔
      row ∈ after.entries.map RestorationEntry.account := by
  rw [ReplacementProcessor.mem_accounts_iff (started.ended ran').keyed,
    ReplacementProcessor.mem_accounts_iff (started.ended ran).keyed,
    exists_hasToken_iff _ ran'.allocated, exists_hasToken_iff _ ran.allocated,
    occurrences_of_staysBelowLimit _ ran'.below ran'.allocated,
    occurrences_of_staysBelowLimit _ ran.below ran.allocated,
    (perm.map Finding.key).mem_iff, countKey, countKey, perm.countP_eq]

/-- The issued tokens are settled by the findings and the state before them. -/
theorem Started.mem_issuedTokens_iff
    (started : Started runtime prior processor)
    (ran : Ran runtime processor after findings) {token : Text} :
    token ∈ after.issuedTokens ↔
      processor.state.Issues runtime findings token := by
  rw [ReplacementProcessor.mem_issuedTokens_iff,
    ← exists_hasToken_iff_issues started.sound.bounded ran.allocated]
  constructor
  · rintro ⟨applied, made, rfl⟩
    have listed : applied.key ∈ findings.map Finding.key := by
      rw [← ran.keys]
      exact List.mem_map_of_mem made
    obtain ⟨finding, member, same⟩ := List.mem_map.mp listed
    refine ⟨finding, member, ?_⟩
    rw [same]
    exact ran.recorded applied made
  · rintro ⟨finding, member, known⟩
    have listed :
        finding.key ∈
          after.appliedReplacements.map AppliedReplacement.key := by
      rw [ran.keys]
      exact List.mem_map_of_mem member
    obtain ⟨applied, made, same⟩ := List.mem_map.mp listed
    refine ⟨applied, made, ?_⟩
    have recorded :
        after.state.HasToken applied.key applied.replacement :=
      ran.recorded applied made
    exact ((started.ended ran).distinct.token_iff recorded known).mpr same

end Reorder

end Redactor
