import Redactor.Redact.MarkerFree
import Redactor.Service.Concurrency

/-!
# Restoring what the service has answered

An answer carries a sealed permit.  Whatever is saved later for the identifier,
the sealed permits of its answers, and no others, are accepted for the latest
session, which resolves all their tokens.
-/

namespace Redactor

open Utf8 Fallible VersionedStore

section Sealed

variable {crypto : CryptoBackend}
  {artifact : RedactorInstance.RedactionArtifact} {passphrase : Text}
  {draws : Draws} {data : Text}

theorem decryptSessionFromStr_sealSession (reopens : crypto.Reopens)
    (sealed : sealSession crypto artifact passphrase draws = .ok data) :
    decryptSessionFromStr crypto data passphrase = .ok artifact.session :=
  decryptSessionFromStr_encrypt reopens.lossless sealed
    (reopens.opens _ _ _ _)

theorem decryptRestorePermit_sealPermit (reopens : crypto.Reopens)
    (sealed : sealPermit crypto artifact passphrase draws = .ok data) :
    decryptRestorePermit crypto data passphrase =
      .ok (createRestorePermit artifact.session draws.permitId) := by
  have opened :=
    openJson_sealJson reopens.lossless (reopens.lossless.permit _) sealed
      (reopens.opens _ _ _ _)
  unfold decryptRestorePermit
  rw [withContext_eq_ok.mpr opened, ok_bind]
  rfl

/-- Permits that are opened one by one are opened together. -/
theorem decryptPermits_of_each {encrypted : List Text}
    (each : ∀ sealed ∈ encrypted, ∃ permit,
      decryptRestorePermit crypto sealed passphrase = .ok permit) :
    ∃ permits, decryptPermits crypto encrypted passphrase = .ok permits ∧
      ∀ permit ∈ permits, ∃ sealed ∈ encrypted,
        decryptRestorePermit crypto sealed passphrase = .ok permit := by
  induction encrypted with
  | nil =>
      exact ⟨[], rfl, by simp⟩
  | cons head tail inductionHypothesis =>
      obtain ⟨permit, opened⟩ := each head List.mem_cons_self
      obtain ⟨permits, done, sources⟩ :=
        inductionHypothesis fun sealed member =>
          each sealed (List.mem_cons_of_mem head member)
      refine ⟨permit :: permits, ?_, ?_⟩
      · unfold decryptPermits at done ⊢
        rw [List.mapM_cons, opened, ok_bind, done, ok_bind]
        rfl
      · intro other member
        rcases List.mem_cons.mp member with same | later
        · rw [same]
          exact ⟨head, List.mem_cons_self, opened⟩
        · obtain ⟨sealed, listed, isOpened⟩ := sources other later
          exact ⟨sealed, List.mem_cons_of_mem head listed, isOpened⟩

end Sealed

section Answers

variable {state : HttpState} {request : RedactTextRequest} {draws : Draws}
  {artifact : RedactorInstance.RedactionArtifact}
  {response : RedactTextResponse}

/-- An answer repeats the redacted text, and seals the session and its
permit. -/
structure AnswerSeals (state : HttpState) (draws : Draws)
    (artifact : RedactorInstance.RedactionArtifact)
    (response : RedactTextResponse) : Prop where
  redactedText : response.redactedText = artifact.session.redactedText
  sealedSession :
    sealSession state.crypto artifact state.sessionPassphrase draws =
      .ok response.encryptedSession
  sealedPermit :
    sealPermit state.crypto artifact state.sessionPassphrase draws =
      .ok response.restorePermit
  summary : response.sessionSummary = .ofSession artifact.session

theorem answerSeals_of_answerStateful
    (answered : state.answerStateful artifact draws = .ok response) :
    AnswerSeals state draws artifact response := by
  obtain ⟨secured, isSecured, written⟩ := bind_eq_ok.mp answered
  obtain ⟨data, sealedSession, rest⟩ :=
    bind_eq_ok.mp (plainError_eq_ok.mp isSecured)
  obtain ⟨permit, sealedPermit, last⟩ := bind_eq_ok.mp rest
  cases last
  obtain ⟨_, _, isResponse⟩ := bind_eq_ok.mp (plainError_eq_ok.mp written)
  cases isResponse
  exact ⟨rfl, sealedSession, sealedPermit, rfl⟩

/-- What holds of a request on the way. -/
structure OnTheWay (state : HttpState) (request : RedactTextRequest)
    (draws : Draws) (progress : RequestProgress) : Prop where
  accepted :
    ∀ externalId, request.externalId = some externalId →
      progress ≠ .waiting → (∀ error, progress ≠ .refused error) →
      requireExternalId (some externalId) = .ok externalId
  answered :
    ∀ stored artifact response,
      progress = .answered stored artifact response →
      AnswerSeals state draws artifact response

theorem ProgressStep.onTheWay {progress after : RequestProgress}
    (step : ProgressStep state request draws progress after)
    (before : OnTheWay state request draws progress) :
    OnTheWay state request draws after := by
  have accepted (externalId : Text)
      (named : request.externalId = some externalId)
      (saved : ∀ error, progress ≠ .refused error)
      (moved : progress ≠ .waiting) :=
    before.accepted externalId named moved saved
  cases step with
  | load externalId stored named given =>
      refine ⟨fun other otherNamed _ _ => ?_, by simp⟩
      rw [named] at otherNamed
      cases otherNamed
      exact given
  | redact | save | lose =>
      exact ⟨fun externalId named _ _ =>
        accepted externalId named (by simp) (by simp), by simp⟩
  | answer stored artifact response answered =>
      refine ⟨fun externalId named _ _ =>
        accepted externalId named (by simp) (by simp), ?_⟩
      intro stored' artifact' response' same
      cases same
      exact answerSeals_of_answerStateful answered
  | refuse _ error =>
      exact ⟨fun _ _ _ unrefused => absurd rfl (unrefused error), by simp⟩

theorem onTheWay_of_reachable {ι : Type} [DecidableEq ι]
    {requests : ι → RedactTextRequest} {draws : ι → Draws}
    {service : Service ι}
    (reachable : ServiceReachable state requests draws service)
    (request : ι) :
    OnTheWay state (requests request) (draws request)
      (service.progress request) := by
  induction reachable with
  | initial =>
      exact ⟨fun _ _ moved => absurd rfl moved, by simp [Service.initial]⟩
  | step _ step inductionHypothesis =>
      rcases step.progress request with same | moved
      · rw [same]
        exact inductionHypothesis
      · exact moved.onTheWay inductionHypothesis

end Answers

/-! ## The latest session -/

section Latest

variable {ι : Type} [DecidableEq ι] {state : HttpState}
  {store : ValkeySessionStore} {requests : ι → RedactTextRequest}
  {draws : ι → Draws} {service : Service ι} {externalId : Text}

/-- A request for the identifier that has been answered with the permit. -/
def Service.Answered (requests : ι → RedactTextRequest)
    (service : Service ι) (externalId permit : Text)
    (artifact : RedactorInstance.RedactionArtifact) : Prop :=
  ∃ request stored response,
    (requests request).externalId = some externalId ∧
      service.progress request = .answered stored artifact response ∧
      response.restorePermit = permit

/-- The latest session of an identifier continues the session of every request
that has saved. -/
theorem latest_of_reachable (configured : state.sessionStore = some store)
    (lasting : store.ttlSeconds = none)
    (apart : DigestsApart state.environment.runtime requests)
    (reachable : ServiceReachable state requests draws service)
    {used : ι} (named : (requests used).externalId = some externalId)
    {stored : Option StoredSession}
    {artifact : RedactorInstance.RedactionArtifact}
    (hasSaved : (service.progress used).HasSaved stored artifact) :
    ∃ latest,
      store.loadLatest state.environment.runtime (some service.records)
          externalId = .ok (some latest) ∧
        StoredWell state.environment.runtime externalId latest.session ∧
        ∀ request stored artifact,
          (requests request).externalId = some externalId →
          (service.progress request).HasSaved stored artifact →
          RedactsTo state requests draws request
              (stored.map StoredSession.session) artifact ∧
            (∀ before, stored.map StoredSession.session = some before →
              StoredWell state.environment.runtime externalId before) ∧
            StoredWell state.environment.runtime externalId
              artifact.session ∧
            Continues artifact.session latest.session := by
  obtain ⟨system, reached, mirrors⟩ :=
    mirrors_of_reachable configured lasting apart reachable
  obtain ⟨wellLatest, each⟩ :=
    row_continues (reached.through (some externalId))
  have through (request : ι) (stored : Option StoredSession)
      (artifact : RedactorInstance.RedactionArtifact)
      (named : (requests request).externalId = some externalId)
      (hasSaved : (service.progress request).HasSaved stored artifact) :
      ∃ seen,
        (sessionsOf requests system externalId).phase request =
            .saved seen artifact ∧
          stored.map StoredSession.session = seen.map Versioned.value := by
    obtain ⟨seen, phase, same⟩ :=
      (mirrors.progress request).hasSaved hasSaved
    refine ⟨seen, (phase_sessionsOf named).trans phase, ?_⟩
    rw [same, session_toStored]
  have loaded :=
    loadLatest_of_holds (mirrors.records used externalId named)
  obtain ⟨seen, isSaved, _⟩ := through used stored artifact named hasSaved
  obtain ⟨_, _, _, last, isLast, _⟩ := each used seen artifact isSaved
  obtain ⟨versioned, isVersioned, rfl⟩ := Option.map_eq_some_iff.mp isLast
  change system.stored (some externalId) = some versioned at isVersioned
  rw [isVersioned] at loaded
  refine ⟨toStored versioned, loaded, wellLatest _ isLast, ?_⟩
  intro request stored artifact named hasSaved
  obtain ⟨seen, isSaved, prior⟩ :=
    through request stored artifact named hasSaved
  obtain ⟨redacts, wellBefore, well, last, isLast', continues⟩ :=
    each request seen artifact isSaved
  rw [isLast] at isLast'
  cases isLast'
  rw [prior]
  exact ⟨redacts, wellBefore, well, continues⟩

end Latest

/-- Every token of a formatted session is a token. -/
theorem FormattedSession.isToken {runtime : Runtime}
    {session : RedactionSession} (formatted : FormattedSession runtime session)
    {token : Text} (known : token ∈ session.tokens) :
    IsToken runtime token := by
  obtain ⟨entry, member, rfl⟩ := List.mem_map.mp known
  obtain ⟨counter, fits, written⟩ := formatted.tokens entry member
  exact ⟨session.scopeId, entry.kind, counter, formatted.scopeId, fits,
    written⟩

section Permits

variable {runtime : Runtime} {externalId : Text}
  {session latest : RedactionSession}

/-- The permit of a session fits whatever continues the session. -/
theorem permitFits_of_continues
    (well : StoredWell runtime externalId session)
    (continues : Continues session latest) (permitId : Text) :
    PermitFits latest (createRestorePermit session permitId) where
  version := rfl
  scopeId := continues.scopeId
  externalId := continues.externalId
  known := fun _ issued =>
    continues.tokens (well.formatted.valid.known _ issued)

/-- A permit of another context. -/
def Mismatched (session : RedactionSession) (permit : RestorePermit) : Prop :=
  permit.version = permitVersion ∧ permit.externalId ≠ session.externalId

/-- Among permits that fit, the first one of another context is refused. -/
theorem authorizedTokens_of_mismatched {permits : List RestorePermit}
    (each : ∀ permit ∈ permits,
      PermitFits session permit ∨ Mismatched session permit)
    (some_ : ∃ permit ∈ permits, Mismatched session permit) :
    authorizedTokens session permits =
      .error (lit "restore permit does not match session context") := by
  unfold authorizedTokens
  generalize ([] : List Text) = authorized
  induction permits generalizing authorized with
  | nil =>
      obtain ⟨_, member, _⟩ := some_
      cases member
  | cons head tail inductionHypothesis =>
      rw [List.foldlM_cons]
      rcases each head List.mem_cons_self with fits | mismatched
      · obtain ⟨result, done, _⟩ := authorizePermit_of_fits authorized fits
        rw [done, ok_bind]
        apply inductionHypothesis
        · exact fun permit member =>
            each permit (List.mem_cons_of_mem head member)
        · obtain ⟨permit, member, mismatched⟩ := some_
          rcases List.mem_cons.mp member with same | later
          · rw [same] at mismatched
            exact absurd fits.externalId mismatched.2
          · exact ⟨permit, later, mismatched⟩
      · have refused :
            authorizePermit session authorized head =
              .error
                (lit "restore permit does not match session context") := by
          rw [authorizePermit, if_neg (not_not.mpr mismatched.1),
            if_pos (Or.inr mismatched.2)]
        rw [refused]
        rfl

end Permits

/-! ## Restoring -/

section Restoring

variable {ι : Type} [DecidableEq ι] {state : HttpState}
  {store : ValkeySessionStore} {requests : ι → RedactTextRequest}
  {draws : ι → Draws} {service : Service ι} {externalId : Text}

/-- A restore that names an identifier opens the permits and works on the
latest session. -/
theorem restoreTextInner_stored
    (configured : state.sessionStore = some store)
    (accepted : requireExternalId (some externalId) = .ok externalId)
    {encrypted : List Text} {permits : List RestorePermit}
    (opened :
      decryptPermits state.crypto encrypted state.sessionPassphrase =
        .ok permits)
    {connection : Option Records} {latest : StoredSession}
    (loaded :
      store.loadLatest state.environment.runtime connection externalId =
        .ok (some latest))
    (text : Text) :
    state.restoreTextInner connection
        { text
          externalId := some externalId
          restorePermits := encrypted } =
      plainError
        (restoreWithPermits state.environment.runtime latest.session permits
          text) := by
  simp only [HttpState.restoreTextInner, restoreStored,
    configuredStore_eq_ok.mpr configured, opened, accepted, loaded,
    plainError, storeError, context, ok_bind]

/-- Permits under which a woven text resolves restore it. -/
theorem restoreWithPermits_of_woven {runtime : Runtime}
    {latest : RedactionSession} {permits : List RestorePermit}
    (fits : ∀ permit ∈ permits, PermitFits latest permit)
    {original text : Text} {count : Nat}
    (woven :
      Woven
        (fun token value =>
          Authorizes permits token ∧ IsToken runtime token ∧
            (RestoreContext.new latest).original? token = some value)
        original text count) :
    restoreWithPermits runtime latest permits text =
      .ok (.complete original count) := by
  obtain ⟨authorized, done, members⟩ := authorizedTokens_of_fits fits
  have resolved :
      (RestoreContext.fromAuthorizedTokens latest authorized).restoreText
          runtime text =
        .complete original count := by
    apply context_restoreText_of_woven
    apply woven.mono
    intro token value found
    obtain ⟨authorizes, isToken, isValue⟩ := found
    refine ⟨isToken, (members token).mpr authorizes, ?_⟩
    rw [RestoreContext.new, original?_fromAuthorizedTokens] at isValue
    rw [original?_fromAuthorizedTokens]
    exact isValue
  unfold restoreWithPermits RestoreContext.withPermits
  rw [done, ok_bind, ok_bind, resolved]
  rfl

/-- A sealed permit of an answer is opened as the permit of its session. -/
theorem decryptRestorePermit_of_answered (reopens : state.crypto.Reopens)
    (reachable : ServiceReachable state requests draws service)
    {permit : Text} {artifact : RedactorInstance.RedactionArtifact}
    (answered : service.Answered requests externalId permit artifact) :
    ∃ permitId,
      decryptRestorePermit state.crypto permit state.sessionPassphrase =
        .ok (createRestorePermit artifact.session permitId) := by
  obtain ⟨request, stored, response, _, isAnswered, rfl⟩ := answered
  have seals :=
    (onTheWay_of_reachable reachable request).answered stored artifact
      response isAnswered
  exact ⟨_, decryptRestorePermit_sealPermit reopens seals.sealedPermit⟩

/-- The sealed permits of answers can all be opened. -/
theorem decryptPermits_of_answered (reopens : state.crypto.Reopens)
    (reachable : ServiceReachable state requests draws service)
    {permits : List Text}
    (answered : ∀ permit ∈ permits, ∃ owner artifact,
      service.Answered requests owner permit artifact) :
    ∃ opened,
      decryptPermits state.crypto permits state.sessionPassphrase =
          .ok opened ∧
        ∀ permit ∈ opened, ∃ sealed ∈ permits,
          decryptRestorePermit state.crypto sealed
            state.sessionPassphrase = .ok permit := by
  apply decryptPermits_of_each
  intro sealed listed
  obtain ⟨owner, artifact, isAnswered⟩ := answered sealed listed
  obtain ⟨permitId, isOpened⟩ :=
    decryptRestorePermit_of_answered reopens reachable isAnswered
  exact ⟨_, isOpened⟩

omit [DecidableEq ι] in
theorem Service.Answered.hasSaved {permit : Text}
    {artifact : RedactorInstance.RedactionArtifact}
    (answered : service.Answered requests externalId permit artifact) :
    ∃ request stored,
      (requests request).externalId = some externalId ∧
        (service.progress request).HasSaved stored artifact := by
  obtain ⟨request, stored, response, named, isAnswered, _⟩ := answered
  exact ⟨request, stored, named, .inr (.inl ⟨response, isAnswered⟩)⟩

theorem RequestProgress.HasSaved.accepted
    (reachable : ServiceReachable state requests draws service) {used : ι}
    (named : (requests used).externalId = some externalId)
    {stored : Option StoredSession}
    {made : RedactorInstance.RedactionArtifact}
    (hasSaved : (service.progress used).HasSaved stored made) :
    requireExternalId (some externalId) = .ok externalId := by
  apply (onTheWay_of_reachable reachable used).accepted externalId named
  · intro waiting
    rw [waiting] at hasSaved
    simp [RequestProgress.HasSaved] at hasSaved
  · intro error refused
    rw [refused] at hasSaved
    simp [RequestProgress.HasSaved] at hasSaved

/-- A token that an answered request has issued for the value, under one of the
permits. -/
def Service.Issues (runtime : Runtime) (requests : ι → RedactTextRequest)
    (service : Service ι) (externalId : Text) (permits : List Text)
    (token value : Text) : Prop :=
  ∃ permit ∈ permits, ∃ artifact,
    service.Answered requests externalId permit artifact ∧
      token ∈ artifact.session.issuedTokens ∧ IsToken runtime token ∧
      (RestoreContext.new artifact.session).original? token = some value

/-- The latest session accepts the sealed permits of the answers of its
identifier, and knows what they have issued. -/
theorem accepts_answered (reopens : state.crypto.Reopens)
    (configured : state.sessionStore = some store)
    (lasting : store.ttlSeconds = none)
    (apart : DigestsApart state.environment.runtime requests)
    (reachable : ServiceReachable state requests draws service)
    {used : ι} (named : (requests used).externalId = some externalId)
    {stored : Option StoredSession}
    {made : RedactorInstance.RedactionArtifact}
    (hasSaved : (service.progress used).HasSaved stored made)
    {permits : List Text}
    (answered : ∀ permit ∈ permits, ∃ artifact,
      service.Answered requests externalId permit artifact) :
    ∃ latest opened,
      store.loadLatest state.environment.runtime (some service.records)
          externalId = .ok (some latest) ∧
        decryptPermits state.crypto permits state.sessionPassphrase =
          .ok opened ∧
        (∀ permit ∈ opened, PermitFits latest.session permit) ∧
        ∀ token value,
          service.Issues state.environment.runtime requests externalId
              permits token value ↔
            Authorizes opened token ∧
              (RestoreContext.new latest.session).original? token =
                some value := by
  obtain ⟨latest, loaded, _, each⟩ :=
    latest_of_reachable configured lasting apart reachable named hasSaved
  obtain ⟨opened, done, sources⟩ :=
    decryptPermits_of_answered reopens reachable fun permit listed =>
      ⟨externalId, answered permit listed⟩
  -- what an answered request can rely on
  have relies (permit : Text) (artifact : RedactorInstance.RedactionArtifact)
      (isAnswered : service.Answered requests externalId permit artifact) :
      ∃ permitId,
        decryptRestorePermit state.crypto permit state.sessionPassphrase =
            .ok (createRestorePermit artifact.session permitId) ∧
          StoredWell state.environment.runtime externalId
            artifact.session ∧
          Continues artifact.session latest.session := by
    obtain ⟨permitId, isOpened⟩ :=
      decryptRestorePermit_of_answered reopens reachable isAnswered
    obtain ⟨request, before, requestNamed, requestSaved⟩ :=
      isAnswered.hasSaved
    obtain ⟨_, _, well, continues⟩ :=
      each request before artifact requestNamed requestSaved
    exact ⟨permitId, isOpened, well, continues⟩
  refine ⟨latest, opened, loaded, done, ?_, ?_⟩
  · intro permit listed
    obtain ⟨sealed, isListed, isOpened⟩ := sources permit listed
    obtain ⟨artifact, isAnswered⟩ := answered sealed isListed
    obtain ⟨permitId, isPermit, well, continues⟩ :=
      relies sealed artifact isAnswered
    rw [isPermit] at isOpened
    cases isOpened
    exact permitFits_of_continues well continues permitId
  · intro token value
    constructor
    · rintro ⟨sealed, isListed, artifact, isAnswered, issuedHere, _, found⟩
      obtain ⟨permitId, isPermit, well, continues⟩ :=
        relies sealed artifact isAnswered
      obtain ⟨permit, listed, isOpened⟩ :=
        mem_of_mapM_eq_ok done sealed isListed
      rw [isPermit] at isOpened
      cases isOpened
      obtain ⟨kept, before, after⟩ :=
        continues.original? (well.formatted.valid.known token issuedHere)
          artifact.session.issuedTokens latest.session.issuedTokens
      rw [RestoreContext.new, before] at found
      cases found
      exact ⟨⟨_, listed, issuedHere⟩, after⟩
    · rintro ⟨⟨permit, listed, issuedHere⟩, found⟩
      obtain ⟨sealed, isListed, isOpened⟩ := sources permit listed
      obtain ⟨artifact, isAnswered⟩ := answered sealed isListed
      obtain ⟨permitId, isPermit, well, continues⟩ :=
        relies sealed artifact isAnswered
      rw [isPermit] at isOpened
      cases isOpened
      have known := well.formatted.valid.known token issuedHere
      obtain ⟨kept, before, after⟩ :=
        continues.original? known artifact.session.issuedTokens
          latest.session.issuedTokens
      rw [RestoreContext.new, after] at found
      cases found
      exact ⟨sealed, isListed, artifact, isAnswered, issuedHere,
        well.formatted.isToken known, before⟩

/-- A text woven from tokens of any answers of an identifier is restored with
the sealed permits of these answers, whatever else has been saved. -/
theorem restoreTextInner_of_woven (reopens : state.crypto.Reopens)
    (configured : state.sessionStore = some store)
    (lasting : store.ttlSeconds = none)
    (apart : DigestsApart state.environment.runtime requests)
    (reachable : ServiceReachable state requests draws service)
    {permits : List Text} (nonempty : permits ≠ [])
    (answered : ∀ permit ∈ permits, ∃ artifact,
      service.Answered requests externalId permit artifact)
    {original text : Text} {count : Nat}
    (woven :
      Woven
        (service.Issues state.environment.runtime requests externalId
          permits)
        original text count) :
    state.restoreTextInner (some service.records)
        { text
          externalId := some externalId
          restorePermits := permits } =
      .ok (.complete original count) := by
  obtain ⟨first, member⟩ := List.exists_mem_of_ne_nil permits nonempty
  obtain ⟨firstArtifact, firstAnswered⟩ := answered first member
  obtain ⟨used, _, named, hasSaved⟩ := firstAnswered.hasSaved
  obtain ⟨latest, opened, loaded, done, fits, issues⟩ :=
    accepts_answered reopens configured lasting apart reachable named hasSaved
      answered
  rw [restoreTextInner_stored configured
    (hasSaved.accepted reachable named) done loaded text,
    restoreWithPermits_of_woven fits, plainError]
  apply woven.mono
  intro token value issued
  obtain ⟨_, _, _, _, _, isToken, _⟩ := id issued
  obtain ⟨authorized, found⟩ := (issues token value).mp issued
  exact ⟨authorized, isToken, found⟩

/-- An answer is the last that becomes of a request. -/
theorem ProgressStep.answered {request : RedactTextRequest} {drawn : Draws}
    {progress after : RequestProgress}
    (step : ProgressStep state request drawn progress after)
    {stored : Option StoredSession}
    {artifact : RedactorInstance.RedactionArtifact}
    {response : RedactTextResponse}
    (isAnswered : progress = .answered stored artifact response) :
    after = .answered stored artifact response := by
  cases step with
  | load | redact | save | answer | lose =>
      cases isAnswered
  | refuse _ error unsaved =>
      exact absurd (.inr (.inl ⟨response, isAnswered⟩))
        (unsaved stored artifact)

theorem answered_of_run {later : Service ι}
    (run : ServiceRun state requests draws service later)
    {request : ι} {stored : Option StoredSession}
    {artifact : RedactorInstance.RedactionArtifact}
    {response : RedactTextResponse}
    (isAnswered :
      service.progress request = .answered stored artifact response) :
    later.progress request = .answered stored artifact response := by
  induction run with
  | refl =>
      exact isAnswered
  | tail _ step inductionHypothesis =>
      rcases step.progress request with same | moved
      · rw [same]
        exact inductionHypothesis
      · exact moved.answered inductionHypothesis

omit [DecidableEq ι] in
theorem RedactsTo.placed {request : ι} {prior : Option RedactionSession}
    {artifact : RedactorInstance.RedactionArtifact}
    (redacts : RedactsTo state requests draws request prior artifact)
    (markerFree : MarkerFree (requests request).text) :
    ({ text := (requests request).text
       findings := artifact.result.findings } : Fragment).Placed := by
  obtain ⟨_, redactor, _, _, _, done⟩ := redacts
  obtain ⟨redacted⟩ := redactArtifact_eq_ok (redactStateful_eq_ok.mp done)
  exact redacted.placed markerFree

/-- The redacted text of an answer weaves the text of the request from tokens
that the answer has issued. -/
theorem woven_of_answered (configured : state.sessionStore = some store)
    (lasting : store.ttlSeconds = none)
    (apart : DigestsApart state.environment.runtime requests)
    (reachable : ServiceReachable state requests draws service)
    {request : ι} (named : (requests request).externalId = some externalId)
    {stored : Option StoredSession}
    {artifact : RedactorInstance.RedactionArtifact}
    {response : RedactTextResponse}
    (isAnswered :
      service.progress request = .answered stored artifact response)
    (markerFree : MarkerFree (requests request).text) {permits : List Text}
    (member : response.restorePermit ∈ permits) :
    Woven
      (service.Issues state.environment.runtime requests externalId permits)
      (requests request).text response.redactedText
      artifact.result.findings.length := by
  have hasSaved :
      (service.progress request).HasSaved stored artifact :=
    .inr (.inl ⟨response, isAnswered⟩)
  obtain ⟨_, _, _, each⟩ :=
    latest_of_reachable configured lasting apart reachable named hasSaved
  obtain ⟨redacts, wellBefore, _⟩ :=
    each request stored artifact named hasSaved
  have seals :=
    (onTheWay_of_reachable reachable request).answered stored artifact
      response isAnswered
  obtain ⟨_, _, sameText, woven⟩ := redactsTo_spec named redacts wellBefore
  rw [seals.redactedText, sameText]
  apply (woven (redacts.placed markerFree)).mono
  intro token value found
  exact ⟨response.restorePermit, member, artifact,
    ⟨request, stored, response, named, isAnswered, rfl⟩, found⟩

/-- Whatever happens after an answer, to its identifier and to others, the
latest session restores the redacted text of the answer with its sealed permit,
also among other permits of the identifier, where records do not expire. -/
theorem answer_restored_ever_after (reopens : state.crypto.Reopens)
    (configured : state.sessionStore = some store)
    (lasting : store.ttlSeconds = none)
    (apart : DigestsApart state.environment.runtime requests)
    {later : Service ι}
    (reachable : ServiceReachable state requests draws service)
    (run : ServiceRun state requests draws service later)
    {request : ι} (named : (requests request).externalId = some externalId)
    {stored : Option StoredSession}
    {artifact : RedactorInstance.RedactionArtifact}
    {response : RedactTextResponse}
    (isAnswered :
      service.progress request = .answered stored artifact response)
    (markerFree : MarkerFree (requests request).text) {permits : List Text}
    (member : response.restorePermit ∈ permits)
    (answered : ∀ permit ∈ permits, ∃ other,
      later.Answered requests externalId permit other) :
    state.restoreTextInner (some later.records)
        { text := response.redactedText
          externalId := some externalId
          restorePermits := permits } =
      .ok (.complete (requests request).text
        artifact.result.findings.length) := by
  have reached := reachable.after run
  apply restoreTextInner_of_woven reopens configured lasting apart reached
    (List.ne_nil_of_mem member) answered
  exact woven_of_answered configured lasting apart reached named
    (answered_of_run run isAnswered) markerFree member

/-- Request 1 saves between the answer of request 0 and its restore. -/
theorem answer_restored_ever_after_second_save :
    ∃ (service : Service (Fin 3))
      (first second : RedactorInstance.RedactionArtifact)
      (answer response : RedactTextResponse) (latest : StoredSession),
      service.progress 0 = .answered none first answer ∧
        service.progress 1 = .answered (some latest) second response ∧
        sampleState.restoreTextInner (some service.records)
            { text := answer.redactedText
              externalId := some (lit "u1")
              restorePermits := [answer.restorePermit] } =
          .ok (.complete (lit "alice@example.com")
            first.result.findings.length) := by
  obtain ⟨early, late, latest, first, second, _, answers, reachable,
    isAnswered, run, isFirst, isSecond, _⟩ := sample_in_turn
  have restored :=
    @answer_restored_ever_after (Fin 3) _ sampleState sampleStore sampleAsked
      sampleDraws early (lit "u1") sampleServiceCrypto_reopens rfl
      rfl sample_apart late reachable run 0 rfl none first (answers 0)
      isAnswered (by decide) [(answers 0).restorePermit] List.mem_cons_self
      (fun permit listed =>
        ⟨first, 0, none, answers 0, rfl, isFirst,
          (List.mem_singleton.mp listed).symm⟩)
  exact ⟨late, first, second, answers 0, answers 1, latest, isFirst,
    isSecond, restored⟩

/-- The requests of the identifier have saved a session. -/
def Service.Stores (requests : ι → RedactTextRequest) (service : Service ι)
    (externalId : Text) : Prop :=
  ∃ request stored artifact,
    (requests request).externalId = some externalId ∧
      (service.progress request).HasSaved stored artifact

/-- Nothing is stored for an identifier whose requests have saved nothing. -/
theorem loadLatest_of_not_stores (configured : state.sessionStore = some store)
    (lasting : store.ttlSeconds = none)
    (apart : DigestsApart state.environment.runtime requests)
    (reachable : ServiceReachable state requests draws service)
    {used : ι} (named : (requests used).externalId = some externalId)
    (nothing : ¬ service.Stores requests externalId) :
    store.loadLatest state.environment.runtime (some service.records)
      externalId = .ok none := by
  obtain ⟨system, reached, mirrors⟩ :=
    mirrors_of_reachable configured lasting apart reachable
  obtain ⟨order, inRow⟩ :=
    inRow_of_reachable (reached.through (some externalId))
  have empty : order = [] := by
    rw [List.eq_nil_iff_forall_not_mem]
    intro request listed
    obtain ⟨requestNamed, stored, artifact, hasSaved⟩ :=
      (mem_row_iff mirrors inRow request).mp listed
    exact nothing ⟨request, stored, artifact, requestNamed, hasSaved⟩
  have unversioned :
      (sessionsOf requests system externalId).stored = none := by
    have row := inRow.row
    rw [empty] at row
    exact row
  have loaded :=
    loadLatest_of_holds (mirrors.records used externalId named)
  change system.stored (some externalId) = none at unversioned
  rw [unversioned] at loaded
  exact loaded

/-- A restore for which nothing is stored is not found. -/
theorem restoreTextInner_of_nothing
    (configured : state.sessionStore = some store)
    (accepted : requireExternalId (some externalId) = .ok externalId)
    {encrypted : List Text} {permits : List RestorePermit}
    (opened :
      decryptPermits state.crypto encrypted state.sessionPassphrase =
        .ok permits)
    {connection : Option Records}
    (loaded :
      store.loadLatest state.environment.runtime connection externalId =
        .ok none)
    (text : Text) :
    state.restoreTextInner connection
        { text
          externalId := some externalId
          restorePermits := encrypted } =
      .error
        { message :=
            lit "no latest session found for external_id " ++
              quoted externalId } := by
  simp only [HttpState.restoreTextInner, restoreStored,
    configuredStore_eq_ok.mpr configured, opened, accepted, loaded,
    plainError, storeError, context, ok_bind]
  rfl

/-- The status of a restore for which nothing is stored. -/
theorem statusForError_missing (externalId : Text) :
    statusForError
        { message :=
            lit "no latest session found for external_id " ++
              quoted externalId } = .notFound := by
  have phrase :
      lit "no latest session" <:+:
        lit "no latest session found for external_id " ++
          quoted externalId :=
    ⟨[], lit " found for external_id " ++ quoted externalId, by
      rw [List.nil_append, ← List.append_assoc]
      rfl⟩
  rw [← contains_iff] at phrase
  simp [statusForError, statusForMessage, phrase]

/-- The sealed permit of an answer does not match the session of another
identifier. -/
theorem restoreTextInner_of_foreign (reopens : state.crypto.Reopens)
    (configured : state.sessionStore = some store)
    (lasting : store.ttlSeconds = none)
    (apart : DigestsApart state.environment.runtime requests)
    (reachable : ServiceReachable state requests draws service)
    {otherId : Text} (different : otherId ≠ externalId)
    {permits : List Text}
    (answered : ∀ permit ∈ permits, ∃ owner artifact,
      service.Answered requests owner permit artifact)
    {permit : Text} (member : permit ∈ permits)
    {artifact : RedactorInstance.RedactionArtifact}
    (isAnswered : service.Answered requests otherId permit artifact)
    {used : ι} (named : (requests used).externalId = some externalId)
    {stored : Option StoredSession}
    {made : RedactorInstance.RedactionArtifact}
    (hasSaved : (service.progress used).HasSaved stored made)
    (text : Text) :
    state.restoreTextInner (some service.records)
        { text
          externalId := some externalId
          restorePermits := permits } =
      .error
        { message :=
            lit "restore permit does not match session context" } := by
  obtain ⟨latest, loaded, wellLatest, each⟩ :=
    latest_of_reachable configured lasting apart reachable named hasSaved
  obtain ⟨opened, done, sources⟩ :=
    decryptPermits_of_answered reopens reachable answered
  -- a permit of this identifier fits, one of another is of another context
  have sorted (sealed owner : Text) (permit : RestorePermit)
      (artifact : RedactorInstance.RedactionArtifact)
      (isAnswered : service.Answered requests owner sealed artifact)
      (isOpened :
        decryptRestorePermit state.crypto sealed state.sessionPassphrase =
          .ok permit) :
      (owner = externalId → PermitFits latest.session permit) ∧
        (owner ≠ externalId → Mismatched latest.session permit) := by
    obtain ⟨permitId, isPermit⟩ :=
      decryptRestorePermit_of_answered reopens reachable isAnswered
    rw [isPermit] at isOpened
    cases isOpened
    obtain ⟨request, stored, ownerNamed, ownerSaved⟩ := isAnswered.hasSaved
    obtain ⟨_, _, _, eachOwner⟩ :=
      latest_of_reachable configured lasting apart reachable ownerNamed
        ownerSaved
    obtain ⟨_, _, well, _⟩ :=
      eachOwner request stored artifact ownerNamed ownerSaved
    constructor
    · intro same
      subst same
      obtain ⟨_, _, _, continues⟩ :=
        each request stored artifact ownerNamed ownerSaved
      exact permitFits_of_continues well continues permitId
    · intro other
      refine ⟨rfl, ?_⟩
      rw [wellLatest.external]
      change artifact.session.externalId ≠ some externalId
      rw [well.external]
      exact fun same => other (Option.some.inj same)
  have accepted := hasSaved.accepted reachable named
  have refused :
      authorizedTokens latest.session opened =
        .error (lit "restore permit does not match session context") := by
    apply authorizedTokens_of_mismatched
    · intro permit listed
      obtain ⟨sealed, isListed, isOpened⟩ := sources permit listed
      obtain ⟨owner, artifact, isAnswered⟩ := answered sealed isListed
      obtain ⟨fits, mismatched⟩ :=
        sorted sealed owner permit artifact isAnswered isOpened
      by_cases same : owner = externalId
      · exact .inl (fits same)
      · exact .inr (mismatched same)
    · obtain ⟨found, listed, isOpened⟩ :=
        mem_of_mapM_eq_ok done permit member
      exact ⟨found, listed,
        (sorted permit otherId found artifact isAnswered isOpened).2
          different⟩
  rw [restoreTextInner_stored configured accepted done loaded text]
  unfold restoreWithPermits RestoreContext.withPermits
  rw [refused]
  rfl

/-- The sealed permit of an answer is refused for every other identifier,
whatever the text: nothing is restored, and the request is unprocessable, or
not found when nothing has been saved for the identifier. -/
theorem foreign_permit_refused (reopens : state.crypto.Reopens)
    (configured : state.sessionStore = some store)
    (lasting : store.ttlSeconds = none)
    (apart : DigestsApart state.environment.runtime requests)
    (reachable : ServiceReachable state requests draws service)
    {otherId : Text} (different : otherId ≠ externalId)
    {permits : List Text}
    (answered : ∀ permit ∈ permits, ∃ owner artifact,
      service.Answered requests owner permit artifact)
    {permit : Text} (member : permit ∈ permits)
    {artifact : RedactorInstance.RedactionArtifact}
    (isAnswered : service.Answered requests otherId permit artifact)
    {used : ι} (named : (requests used).externalId = some externalId)
    (accepted : requireExternalId (some externalId) = .ok externalId)
    (text : Text) :
    ∃ error,
      state.restoreTextInner (some service.records)
          { text
            externalId := some externalId
            restorePermits := permits } =
        .error error ∧
      (service.Stores requests externalId →
        error.message =
            lit "restore permit does not match session context" ∧
          statusForError error = .unprocessableEntity) ∧
      (¬ service.Stores requests externalId →
        error.message =
            lit "no latest session found for external_id " ++
              quoted externalId ∧
          statusForError error = .notFound) := by
  by_cases stores : service.Stores requests externalId
  · obtain ⟨saver, stored, made, saverNamed, hasSaved⟩ := id stores
    exact ⟨_,
      restoreTextInner_of_foreign reopens configured lasting apart reachable
        different answered member isAnswered saverNamed hasSaved text,
      fun _ => ⟨rfl, by decide⟩, fun nothing => absurd stores nothing⟩
  · obtain ⟨opened, done, _⟩ :=
      decryptPermits_of_answered reopens reachable answered
    have loaded :=
      loadLatest_of_not_stores configured lasting apart reachable named stores
    exact ⟨_, restoreTextInner_of_nothing configured accepted done loaded text,
      fun isStored => absurd isStored stores,
      fun _ => ⟨rfl, statusForError_missing externalId⟩⟩

end Restoring

/-- The permit of request 0 is refused for the identifier of request 2, before
that has saved and after. -/
theorem foreign_permit_refused_two_identifiers :
    ∃ (early late : Service (Fin 3))
      (first other : RedactorInstance.RedactionArtifact)
      (answer response : RedactTextResponse)
      (before after : ServiceError),
      early.progress 0 = .answered none first answer ∧
        sampleState.restoreTextInner (some early.records)
            { text := lit "bob@example.com"
              externalId := some (lit "u2")
              restorePermits := [answer.restorePermit] } =
          .error before ∧
        statusForError before = .notFound ∧
        late.progress 2 = .answered none other response ∧
        sampleState.restoreTextInner (some late.records)
            { text := lit "bob@example.com"
              externalId := some (lit "u1")
              restorePermits := [response.restorePermit] } =
          .error after ∧
        statusForError after = .unprocessableEntity := by
  obtain ⟨first, _, _, _, redacts, _⟩ := sample_redacts
  obtain ⟨records, answer, run, _⟩ :=
    @sample_answered_alone .initial .initial 0 rfl (sample_below _) none
      (sample_loaded_nothing _) first redacts
  obtain ⟨before, notFound, _, ofNothing⟩ :=
    @foreign_permit_refused (Fin 3) _ sampleState sampleStore sampleAsked
      sampleDraws _ (lit "u2") sampleServiceCrypto_reopens rfl rfl
      sample_apart (ServiceReachable.initial.after run) (lit "u1")
      (by decide) [answer.restorePermit]
      (fun permit listed =>
        ⟨lit "u1", first, 0, none, answer, rfl, rfl,
          (List.mem_singleton.mp listed).symm⟩)
      _ List.mem_cons_self first ⟨0, none, answer, rfl, rfl, rfl⟩ 2 rfl
      (sample_accepted 2) (lit "bob@example.com")
  have unsaved :
      ¬ Service.Stores sampleAsked
        { records
          progress :=
            Function.update (Service.initial : Service (Fin 3)).progress 0
              (.answered none first answer) } (lit "u2") := by
    intro stores
    obtain ⟨request, stored, artifact, named, hasSaved⟩ := stores
    match request with
    | 0 | 1 =>
        exact absurd named (by decide)
    | 2 =>
        simp [RequestProgress.HasSaved, Service.initial] at hasSaved
  obtain ⟨_, late, _, made, _, other, answers, reachable, _, laterRun,
    isMade, _, isOther⟩ := sample_in_turn
  obtain ⟨after, unprocessable, ofStored, _⟩ :=
    @foreign_permit_refused (Fin 3) _ sampleState sampleStore sampleAsked
      sampleDraws late (lit "u1") sampleServiceCrypto_reopens rfl rfl
      sample_apart (reachable.after laterRun) (lit "u2") (by decide)
      [(answers 2).restorePermit]
      (fun permit listed =>
        ⟨lit "u2", other, 2, none, answers 2, rfl, isOther,
          (List.mem_singleton.mp listed).symm⟩)
      _ List.mem_cons_self other ⟨2, none, answers 2, rfl, isOther, rfl⟩ 0
      rfl (sample_accepted 0) (lit "bob@example.com")
  have stored : late.Stores sampleAsked (lit "u1") :=
    ⟨0, none, made, rfl, .inr (.inl ⟨_, isMade⟩)⟩
  exact ⟨_, late, first, other, answer, answers 2, before, after, rfl,
    notFound, (ofNothing unsaved).2, isOther, unprocessable,
    (ofStored stored).2⟩

end Redactor
