import Redactor.Replace.Issued

/-!
# Histories of rounds

Every round continues the session of the round before, and a restore state
follows the sessions.  The invariant of a history links the two: the state
holds the latest session, whose tokens are written in its scope, and resolves
every token of every round.
-/

namespace Redactor

open Utf8 Fallible RestoreResult

/-- The input of a round, with the random identifiers that it draws. -/
structure Round where
  externalId : Option Text
  scopeId : Text
  fragments : List Fragment
  originalText : Text
  redactedText : Text
  policy : RedactionPolicy
  sessionId : Text
  permitId : Text

structure RoundOutcome where
  session : RedactionSession
  outputs : List Text

section Runs

variable (runtime : Runtime)

/-- A round has no outcome when the prior session is refused or an operation
aborts. -/
def Round.redact (prior : Option RedactionSession) (round : Round) :
    Option RoundOutcome := do
  let processor ←
    (ReplacementProcessor.withPriorSession runtime prior round.externalId
      round.scopeId).toOption
  let (processor, outputs) ←
    processor.redactFragments runtime round.fragments
  let session :=
    processor.buildSession runtime round.originalText round.redactedText
      round.policy round.sessionId
  pure { session, outputs }

/-- Every round starts from the session of the round before. -/
def redactRounds :
    Option RedactionSession → List Round → Option (List RoundOutcome)
  | _, [] => some []
  | prior, round :: rounds => do
      let outcome ← round.redact runtime prior
      let outcomes ← redactRounds (some outcome.session) rounds
      pure (outcome :: outcomes)

/-- The first session starts the state, every later one advances it. -/
def followSession (state : Option RestoreState) (session : RedactionSession)
    (permitId : Text) : Except Text RestoreState :=
  match state with
  | none => RestoreState.new runtime session permitId
  | some state => state.advance runtime session permitId

def followRounds :
    Option RestoreState → List (Round × RoundOutcome) →
      Except Text (Option RestoreState)
  | state, [] => .ok state
  | state, (round, outcome) :: rounds => do
      let next ←
        followSession runtime state outcome.session round.permitId
      followRounds (some next) rounds

/-- What a round may be given. -/
structure RoundFits (prior : Option RedactionSession) (round : Round) :
    Prop where
  scopeId : IsHexId round.scopeId
  sessionId : round.sessionId ≠ []
  permitId : round.permitId ≠ []
  externalId :
    ∀ session, prior = some session →
      round.externalId = none ∨ round.externalId = session.externalId
  placed : ∀ fragment ∈ round.fragments, fragment.Placed
  limits :
    ∀ processor,
      ReplacementProcessor.withPriorSession runtime prior round.externalId
          round.scopeId = .ok processor →
        StaysBelowLimit runtime processor.state
          (round.fragments.flatMap Fragment.findings)

/-- What a round needs for an outcome: its findings are in order, and nothing is
said about the text around them. -/
structure RoundAllowed (prior : Option RedactionSession) (round : Round) :
    Prop where
  scopeId : IsHexId round.scopeId
  sessionId : round.sessionId ≠ []
  externalId :
    ∀ session, prior = some session →
      round.externalId = none ∨ round.externalId = session.externalId
  ordered : ∀ fragment ∈ round.fragments, fragment.InOrder
  limits :
    ∀ processor,
      ReplacementProcessor.withPriorSession runtime prior round.externalId
          round.scopeId = .ok processor →
        StaysBelowLimit runtime processor.state
          (round.fragments.flatMap Fragment.findings)

/-- Every round of the history fits the session that it continues. -/
def HistoryFits : Option RedactionSession → List Round → Prop
  | _, [] => True
  | prior, round :: rounds =>
      RoundFits runtime prior round ∧
        ∀ outcome, round.redact runtime prior = some outcome →
          HistoryFits (some outcome.session) rounds

end Runs

/-- The session's tokens are written in its scope, which is made of digits. -/
structure FormattedSession (runtime : Runtime) (session : RedactionSession) :
    Prop where
  valid : ValidSession runtime session
  scopeId : IsHexId session.scopeId
  tokens :
    ∀ entry ∈ session.entries, ∃ counter ≤ unsignedMax,
      entry.token =
        formatToken runtime session.scopeId entry.kind counter

/-- The state follows the latest session. -/
def Linked (runtime : Runtime) :
    Option RedactionSession → Option RestoreState → Prop
  | none, none => True
  | some session, some state =>
      state.session = session ∧ StateInvariant runtime state ∧
        FormattedSession runtime session
  | _, _ => False

section Step

variable {runtime : Runtime}

theorem RoundFits.allowed {prior : Option RedactionSession} {round : Round}
    (fits : RoundFits runtime prior round) :
    RoundAllowed runtime prior round where
  scopeId := fits.scopeId
  sessionId := fits.sessionId
  externalId := fits.externalId
  ordered := fun fragment member => (fits.placed fragment member).inOrder
  limits := fits.limits

/-- Below the limit every replacement counts one occurrence of its key. -/
theorem occurrences_of_staysBelowLimit {state result : SessionState}
    {findings : List Finding} (key : FindingKind × Text)
    (below : StaysBelowLimit runtime state findings)
    (done : allocateAll runtime state findings = some result) :
    result.occurrences key =
      state.occurrences key + countKey key findings := by
  induction findings generalizing state with
  | nil =>
      cases done
      rfl
  | cons finding findings inductionHypothesis =>
      obtain ⟨next, token, hint, step, rest⟩ := allocateAll_cons.mp done
      rw [inductionHypothesis (below.later step) rest, countKey_cons]
      have here := below.1
      unfold SessionState.increased at here
      by_cases same : finding.key = key
      · subst same
        rw [if_pos rfl]
        cases step with
        | reuse found incremented =>
            rw [found] at here
            rw [increment_of_lt here] at incremented
            cases incremented
            simp [SessionState.occurrences, found]
            omega
        | allocate absent _ =>
            simp [SessionState.occurrences, absent, SessionState.fresh]
            omega
      · rw [if_neg same, SessionState.occurrences, SessionState.occurrences,
          step.frame same]
        omega

/-- The facts about the state that a round starts from. -/
structure RoundStart (runtime : Runtime) (prior : Option RedactionSession)
    (round : Round) (state : SessionState) : Prop where
  scopeId : IsHexId state.scopeId
  keyed : state.Keyed
  distinct : state.Distinct
  counted : state.Counted runtime
  formatted : state.Formatted runtime
  prior :
    ∀ session, prior = some session →
      Loaded session state ∧ state.scopeId = session.scopeId ∧
        state.externalId = session.externalId

/-- Loading a session whose tokens are written in its scope, or none, gives a
state whose tokens are. -/
theorem formatted_of_withPriorSession {prior : Option RedactionSession}
    {externalId : Option Text} {scopeId : Text}
    {processor : ReplacementProcessor}
    (formatted : ∀ session, prior = some session →
      FormattedSession runtime session)
    (drawn : IsHexId scopeId)
    (accepted :
      ReplacementProcessor.withPriorSession runtime prior externalId
        scopeId = .ok processor) :
    IsHexId processor.state.scopeId ∧ processor.state.Counted runtime ∧
      processor.state.Formatted runtime := by
  cases prior with
  | none =>
      cases accepted
      have empty :
          ∀ key,
            SessionState.allocation? { scopeId, externalId } key = none :=
        fun key => Std.TreeMap.getElem?_emptyc
      refine ⟨drawn, ?_, ?_⟩
      · intro key allocation parsed found
        simp [empty] at found
      · intro key allocation found
        simp [empty] at found
  | some session =>
      obtain ⟨_, _, scope, _, loaded, counted⟩ :=
        of_withPriorSession_eq_ok accepted
      have isFormatted := formatted session rfl
      refine ⟨?_, counted, ?_⟩
      · rw [scope]
        exact isFormatted.scopeId
      · intro key allocation found
        obtain ⟨entry, member, rfl, rfl⟩ := (loaded key allocation).mp found
        rw [scope]
        exact isFormatted.tokens entry member

theorem roundStart {prior : Option RedactionSession} {round : Round}
    (fits : RoundAllowed runtime prior round)
    (formatted : ∀ session, prior = some session →
      FormattedSession runtime session) :
    ∃ state,
      ReplacementProcessor.withPriorSession runtime prior round.externalId
          round.scopeId = .ok { state } ∧
        RoundStart runtime prior round state := by
  cases prior with
  | none =>
      have accepted :
          ReplacementProcessor.withPriorSession runtime none
              round.externalId round.scopeId =
            .ok { state :=
              { scopeId := round.scopeId
                externalId := round.externalId } } :=
        rfl
      obtain ⟨hex, counted, written⟩ :=
        formatted_of_withPriorSession formatted fits.scopeId accepted
      obtain ⟨sound, _⟩ := sound_of_withPriorSession accepted
      exact ⟨_, accepted, hex, sound.keyed, sound.distinct, counted, written,
        by simp⟩
  | some session =>
      have compatible :
          ∀ expected existing, round.externalId = some expected →
            session.externalId = some existing → existing = expected := by
        intro expected existing requested present
        rcases fits.externalId session rfl with absent | same
        · rw [absent] at requested
          cases requested
        · rw [same, present] at requested
          exact Option.some.inj requested
      obtain ⟨state, accepted, scope, external, loaded, counted⟩ :=
        withPriorSession_of_valid (formatted session rfl).valid compatible
          round.scopeId
      obtain ⟨hex, _, written⟩ :=
        formatted_of_withPriorSession formatted fits.scopeId accepted
      obtain ⟨sound, _⟩ := sound_of_withPriorSession accepted
      refine ⟨state, accepted, hex, sound.keyed, sound.distinct, counted,
        written, ?_⟩
      intro other same
      cases same
      refine ⟨loaded, scope, ?_⟩
      rw [external]
      rcases fits.externalId session rfl with absent | same
      · rw [absent, Option.none_or]
      · rw [same, Option.or_self]

/-- What a round leaves behind. -/
structure RoundEnd (runtime : Runtime) (after : ReplacementProcessor) :
    Prop where
  scopeId : IsHexId after.state.scopeId
  keyed : after.state.Keyed
  distinct : after.state.Distinct
  formatted : after.state.Formatted runtime
  recorded : after.Recorded

theorem roundEnd_of_allocateAll {state : SessionState}
    {findings : List Finding} {after : ReplacementProcessor}
    (scopeId : IsHexId state.scopeId) (keyed : state.Keyed)
    (formatted : state.Formatted runtime)
    (allocated : allocateAll runtime state findings = some after.state)
    (distinct : after.state.Distinct) (recorded : after.Recorded) :
    RoundEnd runtime after where
  scopeId := by
    rw [(allocateAll_extends allocated).scopeId]
    exact scopeId
  keyed := keyed_allocateAll keyed allocated
  distinct := distinct
  formatted :=
    allocateAll_invariant (SessionState.Formatted runtime)
      (fun _ _ _ _ _ before step => step.formatted before)
      formatted allocated
  recorded := recorded

section RoundEnd

variable {after : ReplacementProcessor}
  {originalText redactedText sessionId : Text} {policy : RedactionPolicy}

theorem RoundEnd.formattedSession (ended : RoundEnd runtime after)
    (named : sessionId ≠ []) :
    FormattedSession runtime
      (after.buildSession runtime originalText redactedText policy
        sessionId) where
  valid := by
    have parsed : after.state.Parsed runtime := by
      intro key allocation found
      obtain ⟨counter, bound, shape⟩ := ended.formatted key allocation found
      exact ⟨counter, by
        rw [shape, parseToken_formatToken ended.scopeId.isScope bound]⟩
    rw [ReplacementProcessor.validSession_buildSession_iff ended.keyed
      ended.recorded ended.scopeId.1 named]
    exact ⟨ended.distinct, parsed⟩
  scopeId := ended.scopeId
  tokens := by
    intro entry member
    obtain ⟨key, allocation, found, isEntry⟩ :=
      ReplacementProcessor.mem_entries_iff.mp member
    obtain ⟨counter, bound, shape⟩ := ended.formatted key allocation found
    rw [← ended.keyed key allocation found] at shape
    rw [isEntry]
    exact ⟨counter, bound, shape⟩

/-- The session of the round has the originals of all allocations. -/
theorem RoundEnd.original?_new (ended : RoundEnd runtime after)
    {key : FindingKind × Text} {token : Text}
    (known : after.state.HasToken key token) :
    (RestoreContext.new
        (after.buildSession runtime originalText redactedText policy
          sessionId)).original? token = some key.2 := by
  obtain ⟨allocation, found, rfl⟩ := known
  let session :=
    after.buildSession runtime originalText redactedText policy sessionId
  have tokens : session.tokens.Nodup :=
    (ReplacementProcessor.nodup_map_entries RestorationEntry.token).mpr
      ended.distinct
  have inside : allocation.toEntry ∈ session.entries :=
    ReplacementProcessor.mem_entries_iff.mpr ⟨key, allocation, found, rfl⟩
  have lookup := entryOf?_of_mem tokens inside
  rw [RestoreContext.new, original?_fromAuthorizedTokens,
    show allocation.token = allocation.toEntry.token from rfl, lookup,
    Option.map_some, ← ended.keyed key allocation found]
  rfl

/-- The session of the round resolves every token that the round has put into
its outputs. -/
theorem RoundEnd.resolves (ended : RoundEnd runtime after)
    {applied : AppliedReplacement}
    (member : applied ∈ after.appliedReplacements) :
    let session :=
      after.buildSession runtime originalText redactedText policy sessionId
    applied.replacement ∈ session.issuedTokens ∧
      IsToken runtime applied.replacement ∧
      (RestoreContext.new session).original? applied.replacement =
        some applied.original := by
  intro session
  have known :
      after.state.HasToken applied.key applied.replacement :=
    ended.recorded applied member
  have ⟨allocation, found, same⟩ := known
  obtain ⟨counter, bound, shape⟩ := ended.formatted _ allocation found
  refine ⟨ReplacementProcessor.mem_issuedTokens_iff.mpr
    ⟨applied, member, rfl⟩, ?_, ended.original?_new known⟩
  exact ⟨_, _, counter, ended.scopeId, bound, by rw [← same, shape]⟩

end RoundEnd

/-- A round that is allowed has an outcome: its session is formatted, continues
the prior one, and its outputs are woven from the tokens it issues where the
findings are placed. -/
theorem round_redacts {prior : Option RedactionSession} {round : Round}
    (fits : RoundAllowed runtime prior round)
    (formatted : ∀ session, prior = some session →
      FormattedSession runtime session) :
    ∃ outcome, round.redact runtime prior = some outcome ∧
      FormattedSession runtime outcome.session ∧
      (∀ session, prior = some session → Continues session outcome.session) ∧
      ((∀ fragment ∈ round.fragments, fragment.Placed) →
        List.Forall₂
          (fun fragment output =>
            Woven
              (fun token original =>
                token ∈ outcome.session.issuedTokens ∧
                  IsToken runtime token ∧
                  (RestoreContext.new outcome.session).original? token =
                    some original)
              fragment.text output fragment.findings.length)
          round.fragments outcome.outputs) := by
  obtain ⟨state, loadedFrom, start⟩ := roundStart fits formatted
  have below := fits.limits _ loadedFrom
  obtain ⟨result, allocated, distinctAfter⟩ :=
    (allocationsFit_iff start.distinct).mp
      (allocationsFit_of_staysBelowLimit start.scopeId.isScope start.counted
        below)
  obtain ⟨after, outputs, done, isResult⟩ :=
    ReplacementProcessor.redactFragments_of_allocateAll { state }
      fits.ordered allocated
  rw [← isResult] at allocated distinctAfter
  obtain ⟨_, recorded⟩ :=
    ReplacementProcessor.redactFragments_spec done (by simp
      [ReplacementProcessor.Recorded])
  have ended :=
    roundEnd_of_allocateAll start.scopeId start.keyed start.formatted
      allocated distinctAfter recorded
  refine ⟨⟨after.buildSession runtime round.originalText round.redactedText
    round.policy round.sessionId, outputs⟩, ?_,
    ended.formattedSession fits.sessionId, ?_, ?_⟩
  · simp only [Round.redact, loadedFrom, Except.toOption,
      Option.bind_eq_bind, Option.bind_some, done]
    rfl
  · intro session isPrior
    obtain ⟨loaded, scope, external⟩ := start.prior session isPrior
    have extended := allocateAll_extends allocated
    refine (ReplacementProcessor.continues_buildSession_iff
      (formatted session isPrior).valid loaded scope extended
      distinctAfter).mpr ⟨?_, ?_⟩
    · rw [extended.externalId, external]
    · intro entry member
      rw [occurrences_of_staysBelowLimit entry.key below allocated,
        SessionState.occurrences,
        (loaded entry.key (.ofEntry entry)).mpr ⟨entry, member, rfl, rfl⟩]
      exact Nat.le_add_right _ _
  · intro placed
    have woven := ReplacementProcessor.redactFragments_woven placed done
    refine woven.imp fun fragment output wovenHere => wovenHere.mono ?_
    intro token original replaced
    obtain ⟨applied, member, isToken, isOriginal⟩ := replaced
    rw [← isToken, ← isOriginal]
    exact ended.resolves member

/-- The state follows the session of a round, resolves what it issued and goes
on resolving what it resolved. -/
theorem followSession_of_round {prior : Option RedactionSession}
    {state : Option RestoreState} {session : RedactionSession}
    {permitId : Text} (linked : Linked runtime prior state)
    (formatted : FormattedSession runtime session)
    (continues : ∀ before, prior = some before → Continues before session)
    (named : permitId ≠ [])
    (fresh : ∀ before, state = some before →
      permitId ∉ before.permits.map RestorePermit.permitId) :
    ∃ next, followSession runtime state session permitId = .ok next ∧
      Linked runtime (some session) (some next) ∧
      (∀ token original,
        token ∈ session.issuedTokens → IsToken runtime token →
          (RestoreContext.new session).original? token = some original →
          Resolves runtime next token original) ∧
      (∀ before, state = some before → ∀ token original,
        Resolves runtime before token original →
          Resolves runtime next token original) ∧
      ∀ id ∈ next.permits.map RestorePermit.permitId,
        id = permitId ∨
          ∃ before, state = some before ∧
            id ∈ before.permits.map RestorePermit.permitId := by
  cases state with
  | none =>
      obtain ⟨next, built, rfl, ids⟩ := new_of_valid formatted.valid named
      have reach : Reachable runtime next _ := .new built
      obtain ⟨_, authorized⟩ := given_of_reachable reach
      refine ⟨next, built,
        ⟨rfl, stateInvariant_of_reachable reach, formatted⟩, ?_, by simp,
        fun id member => .inl (ids id member)⟩
      intro token original issued isToken found
      exact ⟨isToken,
        (authorized token).mpr (authorizes_issuedPermits.mpr issued), found⟩
  | some before =>
      cases prior with
      | none =>
          exact linked.elim
      | some priorSession =>
          obtain ⟨rfl, invariant, _⟩ := linked
          have continuesState := continues _ rfl
          obtain ⟨next, advanced⟩ :=
            (invariant.advance_iff session named (fresh before rfl)).mpr
              ⟨formatted.valid, continuesState⟩
          obtain ⟨rfl, authorized, kept⟩ := invariant.advanced advanced
          obtain ⟨_, built⟩ := RestoreState.advance_eq_ok.mp advanced
          refine ⟨next, advanced,
            ⟨rfl, stateInvariant_of_fromParts built, formatted⟩, ?_, ?_, ?_⟩
          · intro token original issued isToken found
            exact ⟨isToken, (authorized token).mpr (.inr issued), found⟩
          · intro other same token original resolved
            cases same
            obtain ⟨same, foundBefore, foundNext⟩ :=
              kept token resolved.authorized
            rw [resolved.original] at foundBefore
            cases foundBefore
            exact ⟨resolved.isToken,
              (authorized token).mpr (.inl resolved.authorized), foundNext⟩
          · intro id member
            obtain ⟨_, _, shape⟩ := RestoreState.fromParts_eq_ok.mp built
            rw [shape] at member
            have given := permitIds_keepFirst.subset member
            rw [List.map_append, List.mem_append] at given
            rcases given with old | new
            · exact .inr ⟨before, rfl, old⟩
            · exact .inl (List.mem_singleton.mp
                (permitIds_issuedPermits.subset new))

end Step

/-! ## Whole histories -/

/-- The outputs of a round are woven from their fragments. -/
def WovenRound (resolves : Text → Text → Prop) (round : Round)
    (outcome : RoundOutcome) : Prop :=
  List.Forall₂
    (fun fragment output =>
      Woven resolves fragment.text output fragment.findings.length)
    round.fragments outcome.outputs

/-- What a history owes from some point on: its rounds have outcomes, the state
follows them, keeps what it resolved and resolves the tokens of every round. -/
theorem history_resolves {runtime : Runtime} {rounds : List Round}
    {prior : Option RedactionSession} {state : Option RestoreState}
    (linked : Linked runtime prior state)
    (fits : HistoryFits runtime prior rounds)
    (freshPermits : (rounds.map Round.permitId).Nodup)
    (newPermits : ∀ before, state = some before → ∀ round ∈ rounds,
      round.permitId ∉ before.permits.map RestorePermit.permitId) :
    ∃ outcomes latest final,
      redactRounds runtime prior rounds = some outcomes ∧
        outcomes.length = rounds.length ∧
        followRounds runtime state (rounds.zip outcomes) = .ok final ∧
        Linked runtime latest final ∧
        (rounds ≠ [] ∨ state ≠ none → final ≠ none) ∧
        (∀ before last, state = some before → final = some last →
          ∀ token original, Resolves runtime before token original →
            Resolves runtime last token original) ∧
        ∀ last, final = some last → ∀ pair ∈ rounds.zip outcomes,
          WovenRound (Resolves runtime last) pair.1 pair.2 := by
  induction rounds generalizing prior state with
  | nil =>
      refine ⟨[], prior, state, rfl, rfl, rfl, linked, by simp, ?_, by simp⟩
      intro before last isBefore isLast
      rw [isBefore] at isLast
      cases isLast
      exact fun _ _ resolved => resolved
  | cons round rounds inductionHypothesis =>
      obtain ⟨roundFits, laterFit⟩ := fits
      rw [List.map_cons, List.nodup_cons] at freshPermits
      have formatted : ∀ session, prior = some session →
          FormattedSession runtime session := by
        intro session isPrior
        subst isPrior
        cases state with
        | none =>
            exact linked.elim
        | some before =>
            exact linked.2.2
      obtain ⟨outcome, redacted, sessionFormatted, continues, woven⟩ :=
        round_redacts roundFits.allowed formatted
      obtain ⟨next, followed, linkedNext, resolvesNew, resolvesOld, ids⟩ :=
        followSession_of_round linked sessionFormatted continues
          roundFits.permitId
          (fun before isBefore =>
            newPermits before isBefore round List.mem_cons_self)
      have newForNext :
          ∀ before, some next = some before → ∀ later ∈ rounds,
            later.permitId ∉ before.permits.map RestorePermit.permitId := by
        intro before isNext later member inside
        cases isNext
        rcases ids later.permitId inside with same | ⟨before, isBefore, old⟩
        · exact freshPermits.1
            (List.mem_map.mpr ⟨later, member, same⟩)
        · exact newPermits before isBefore later
            (List.mem_cons_of_mem _ member) old
      obtain ⟨outcomes, latest, final, redactedRest, sizes, followedRest,
        linkedFinal, reachesEnd, keptRest, wovenRest⟩ :=
        inductionHypothesis linkedNext (laterFit outcome redacted)
          freshPermits.2 newForNext
      refine ⟨outcome :: outcomes, latest, final, ?_, by simp [sizes], ?_,
        linkedFinal, fun _ => reachesEnd (.inr (by simp)), ?_, ?_⟩
      · simp [redactRounds, redacted, redactedRest]
      · rw [List.zip_cons_cons, followRounds, followed, ok_bind,
          followedRest]
      · intro before last isBefore isLast token original resolved
        exact keptRest next last rfl isLast _ _
          (resolvesOld before isBefore _ _ resolved)
      · intro last isLast pair member
        rcases List.mem_cons.mp member with rfl | later
        · refine (woven roundFits.placed).imp fun fragment output wovenHere =>
            wovenHere.mono ?_
          rintro token original ⟨issued, isToken, found⟩
          exact keptRest next last rfl isLast _ _
            (resolvesNew _ _ issued isToken found)
        · exact wovenRest last isLast pair later

/-- Every round of a history succeeds, a restore state follows all of them, and
the state at the end restores every output of every round. -/
theorem history_restores_every_fragment (runtime : Runtime)
    (rounds : List Round) (nonempty : rounds ≠ [])
    (fits : HistoryFits runtime none rounds)
    (freshPermits : (rounds.map Round.permitId).Nodup) :
    ∃ outcomes state,
      redactRounds runtime none rounds = some outcomes ∧
        outcomes.length = rounds.length ∧
        followRounds runtime none (rounds.zip outcomes) = .ok (some state) ∧
        ∀ pair ∈ rounds.zip outcomes,
          List.Forall₂
            (fun fragment output =>
              state.restoreText runtime output =
                .ok (.complete fragment.text fragment.findings.length))
            pair.1.fragments pair.2.outputs := by
  obtain ⟨outcomes, latest, final, redacted, sizes, followed, linked,
    reachesEnd, _, woven⟩ :=
    @history_resolves runtime rounds none none trivial fits freshPermits
      (by simp)
  cases final with
  | none =>
      exact (reachesEnd (.inl nonempty) rfl).elim
  | some state =>
      cases latest with
      | none =>
          exact linked.elim
      | some session =>
          refine ⟨outcomes, state, redacted, sizes, followed, ?_⟩
          intro pair member
          exact (woven state rfl pair member).imp fun fragment output =>
            restoreText_of_woven linked.2.1

/-- One address, and then the same address with another one behind it. -/
def sampleRounds : List Round :=
  [{ externalId := some (lit "u1")
     scopeId := lit "ab"
     fragments := [sampleFragment]
     originalText := lit "x@y.z"
     redactedText := []
     policy := {}
     sessionId := lit "s1"
     permitId := lit "p1" },
    { externalId := none
      scopeId := lit "cd"
      fragments :=
        [{ text := lit "é x@y.z[c@d.e"
           findings :=
             [{ sampleFinding with start := 3, finish := 8 },
               { sampleFinding with
                 matchText := lit "c@d.e", start := 9, finish := 14 }] }]
      originalText := lit "é x@y.z[c@d.e"
      redactedText := []
      policy := {}
      sessionId := lit "s2"
      permitId := lit "p2" }]

private theorem sampleRounds_fit :
    HistoryFits sampleRuntime none sampleRounds := by
  refine ⟨?_, fun outcome done => ⟨?_, fun _ _ => trivial⟩⟩
  · refine ⟨by decide, by decide, by decide, by simp, ?_, ?_⟩
    · simp only [List.mem_singleton, forall_eq]
      exact ⟨⟨_, rfl, by decide⟩, by decide, _, rfl, by decide⟩
    · intro processor accepted
      obtain rfl := Except.ok.inj accepted
      decide +kernel
  · obtain rfl := Option.some.inj done
    refine ⟨by decide, by decide, by decide, fun _ _ => .inl rfl, ?_, ?_⟩
    · simp only [List.mem_singleton, forall_eq]
      exact ⟨⟨_, rfl, by decide⟩, by decide, ⟨_, rfl, by decide⟩, by decide,
        _, rfl, by decide⟩
    · intro processor accepted
      obtain rfl := Except.ok.inj accepted
      decide +kernel

theorem history_restores_every_fragment_two_rounds :
    ∃ outcomes state,
      redactRounds sampleRuntime none sampleRounds = some outcomes ∧
        outcomes.length = sampleRounds.length ∧
        followRounds sampleRuntime none (sampleRounds.zip outcomes) =
          .ok (some state) ∧
        ∀ pair ∈ sampleRounds.zip outcomes,
          List.Forall₂
            (fun fragment output =>
              state.restoreText sampleRuntime output =
                .ok (.complete fragment.text fragment.findings.length))
            pair.1.fragments pair.2.outputs := by
  refine history_restores_every_fragment sampleRuntime sampleRounds ?_
    sampleRounds_fit ?_
  · decide
  · decide

end Redactor
