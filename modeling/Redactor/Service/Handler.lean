import Redactor.Redact.CopiedTokens
import Redactor.Service.Identifiers

/-!
# Requests and calls

A call of `redact_text_inner` that nobody interrupts is a run of the service.
The other way round, the steps of a request are the parts of one call, whose
load and whose save each happen at a moment of the run.
-/

namespace Redactor

open Utf8 Fallible VersionedStore

section Ends

variable {state : HttpState} {request : RedactTextRequest} {draws : Draws}
  {redactor : RedactorInstance} {externalId : Text}
  {loading saving : Option Records} {stored : Option StoredSession}
  {artifact : RedactorInstance.RedactionArtifact} {error : ServiceError}

theorem redactTextInner_of_policy {message : Text}
    (built : state.redactorFor request = .error message) :
    state.redactTextInner loading saving request draws =
      some (none, .error { message }) := by
  cases named : request.externalId with
  | none =>
      simp only [HttpState.redactTextInner, named, HttpState.redactStateless,
        built, plainError, bind, Except.bind]
  | some externalId =>
      simp only [HttpState.redactTextInner, named, built]

/-- A call that names an identifier, with a valid policy. -/
theorem redactTextInner_of_named
    (named : request.externalId = some externalId)
    (built : state.redactorFor request = .ok redactor) :
    state.redactTextInner loading saving request draws =
      (state.statefulArtifact loading saving redactor request externalId
        draws).map (state.answerSaved draws) := by
  simp only [HttpState.redactTextInner, named, built]

theorem statefulArtifact_of_load
    (refused : state.loadStateful loading externalId = .error error) :
    state.statefulArtifact loading saving redactor request externalId draws =
      some (.error error) := by
  simp only [HttpState.statefulArtifact, refused]

theorem statefulArtifact_of_redact
    (loaded : state.loadStateful loading externalId = .ok (externalId, stored))
    (refused :
      state.redactStateful redactor request draws externalId
          (stored.map StoredSession.session) = .error error) :
    state.statefulArtifact loading saving redactor request externalId draws =
      some (.error error) := by
  simp only [HttpState.statefulArtifact, loaded, refused]

/-- The save decides once the redaction has succeeded. -/
theorem statefulArtifact_of_save
    (loaded : state.loadStateful loading externalId = .ok (externalId, stored))
    (redacted :
      state.redactStateful redactor request draws externalId
          (stored.map StoredSession.session) = .ok artifact) :
    state.statefulArtifact loading saving redactor request externalId draws =
      (state.saveStateful saving draws externalId stored artifact).map
        fun saved => saved.map fun (records, _) => (records, artifact) := by
  simp only [HttpState.statefulArtifact, loaded, redacted]

end Ends

section Alone

variable {ι : Type} [DecidableEq ι] {state : HttpState}
  {store : ValkeySessionStore} {requests : ι → RedactTextRequest}
  {draws : ι → Draws} {service : Service ι} {request : ι}
  {externalId : Text} {stored : Option StoredSession}
  {artifact : RedactorInstance.RedactionArtifact}
  {response : RedactTextResponse}

theorem loadStateful_of_accepted (configured : state.sessionStore = some store)
    (accepted : requireExternalId (some externalId) = .ok externalId)
    {records : Records}
    (loaded :
      store.loadLatest state.environment.runtime (some records) externalId =
        .ok stored) :
    state.loadStateful (some records) externalId =
      .ok (externalId, stored) := by
  simp only [HttpState.loadStateful, configuredStore_eq_ok.mpr configured,
    accepted, loaded, plainError, storeError, ok_bind]

theorem load_of_reachable (configured : state.sessionStore = some store)
    (apart : DigestsApart state.environment.runtime requests)
    (reachable : ServiceReachable state requests draws service)
    (named : (requests request).externalId = some externalId) :
    ∃ stored,
      store.loadLatest state.environment.runtime (some service.records)
        externalId = .ok stored := by
  obtain ⟨system, mirrors⟩ := exists_mirrors configured apart reachable
  exact ⟨_, loadLatest_of_holds (mirrors.records request externalId named)⟩

/-- What a save over the latest session of an identifier leaves. -/
structure SavedOver (runtime : Runtime) (store : ValkeySessionStore)
    (externalId : Text) (session : RedactionSession)
    (before after : Records) : Prop where
  latest :
    ∃ latest,
      store.loadLatest runtime (some after) externalId = .ok (some latest) ∧
        latest.session = session
  others :
    ∀ key ≠ store.keyFor runtime externalId, after key = before key
  versions :
    ∀ limit, 0 < limit → VersionsBelow limit before →
      VersionsBelow (limit + 1) after

/-- The latest session of an identifier can be saved over. -/
theorem save_over_latest (configured : state.sessionStore = some store)
    (apart : DigestsApart state.environment.runtime requests)
    (reachable : ServiceReachable state requests draws service)
    (named : (requests request).externalId = some externalId)
    (below : VersionsBelow numberTextLimit service.records)
    (loaded :
      store.loadLatest state.environment.runtime (some service.records)
        externalId = .ok stored)
    (artifact : RedactorInstance.RedactionArtifact) :
    ∃ records version,
      state.saveStateful (some service.records) (draws request) externalId
          stored artifact = some (.ok (records, version)) ∧
        SavedOver state.environment.runtime store externalId
          artifact.session service.records records := by
  obtain ⟨system, mirrors⟩ := exists_mirrors configured apart reachable
  have holds := mirrors.records request externalId named
  have belowHere := fun decoded => below
    (store.keyFor state.environment.runtime externalId) decoded
  have isStored :
      (system.stored (some externalId)).map toStored = stored :=
    Except.ok.inj ((loadLatest_of_holds holds).symm.trans loaded)
  subst isStored
  obtain ⟨⟨written, version⟩, done⟩ :=
    @saveLatest_current Text state.environment.runtime _ _ _
      (draws request).stored artifact.session holds belowHere
  obtain ⟨_, _, holdsAfter⟩ :=
    @holds_of_saveLatest _ state.environment.runtime _ _ _ _
      (plainArtifact artifact) _ _ _ holds belowHere done
  refine
    ⟨Function.update service.records
      (store.keyFor state.environment.runtime externalId) (some written),
      version, ?_, ?_, ?_, ?_⟩
  · rw [saveStateful_eq configured, done]
    rfl
  · have loadedAfter := loadLatest_of_holds holdsAfter
    refine
      ⟨toStored
        (replacing RedactionArtifact.session
          (system.stored (some externalId)) (plainArtifact artifact)),
        ?_, rfl⟩
    simpa only [ValkeySessionStore.loadLatest, Function.update_self,
      Option.map_some] using loadedAfter
  · exact fun key other => Function.update_of_ne other _ _
  · intro limit positive belowLimit key envelope isEnvelope
    by_cases here : key = store.keyFor state.environment.runtime externalId
    · rw [here, Function.update_self] at isEnvelope
      cases isEnvelope
      have small :=
        versionOf_lt_of_holds holds positive fun decoded =>
          belowLimit _ decoded
      rw [holdsAfter.1]
      exact Nat.succ_lt_succ small
    · rw [Function.update_of_ne here] at isEnvelope
      exact Nat.lt_succ_of_lt (belowLimit key envelope isEnvelope)

/-- The steps of a request that nobody interrupts, up to its save. -/
theorem run_to_save {redactor : RedactorInstance} {records : Records}
    {version : Text}
    (waiting : service.progress request = .waiting)
    (named : (requests request).externalId = some externalId)
    (built : state.redactorFor (requests request) = .ok redactor)
    (loaded :
      state.loadStateful (some service.records) externalId =
        .ok (externalId, stored))
    (redacts :
      RedactsTo state requests draws request
        (stored.map StoredSession.session) artifact)
    (below : VersionsBelow numberTextLimit service.records)
    (saved :
      state.saveStateful (some service.records) (draws request) externalId
          stored artifact = some (.ok (records, version))) :
    ServiceRun state requests draws service
      { records
        progress :=
          Function.update service.progress request
            (.saved stored artifact) } := by
  have load :
      ServiceStep state requests draws service
        (service.set request (.loaded stored)) :=
    .load service request externalId externalId stored redactor waiting named
      built loaded
  have redact :
      ServiceStep state requests draws
        (service.set request (.loaded stored))
        (service.set request (.redacted stored artifact)) := by
    have step :=
      ServiceStep.redact (service.set request (.loaded stored)) request stored
        artifact (Function.update_self _ _ _) redacts
    simpa only [Service.set, Function.update_idem] using step
  have save :
      ServiceStep state requests draws
        (service.set request (.redacted stored artifact))
        { records
          progress :=
            Function.update service.progress request
              (.saved stored artifact) } := by
    have step :=
      ServiceStep.save (service.set request (.redacted stored artifact))
        request externalId version stored artifact records
        (Function.update_self _ _ _) named below saved
    simpa only [Service.set, Function.update_idem] using step
  exact .tail (.tail (.single load) redact) save

theorem answer_of_saved
    (answered :
      state.answerStateful artifact (draws request) = .ok response)
    (records : Records) :
    ServiceStep state requests draws
      { records
        progress :=
          Function.update service.progress request
            (.saved stored artifact) }
      { records
        progress :=
          Function.update service.progress request
            (.answered stored artifact response) } := by
  have step :=
    @ServiceStep.answer ι _ state requests draws
      { records
        progress :=
          Function.update service.progress request
            (.saved stored artifact) }
      request stored artifact response (Function.update_self _ _ _)
      answered
  simpa only [Service.set, Function.update_idem] using step

/-- The call of a request that nobody interrupts, and its steps. -/
theorem answered_alone (configured : state.sessionStore = some store)
    (apart : DigestsApart state.environment.runtime requests)
    (reachable : ServiceReachable state requests draws service)
    (waiting : service.progress request = .waiting)
    (named : (requests request).externalId = some externalId)
    (accepted : requireExternalId (some externalId) = .ok externalId)
    (below : VersionsBelow numberTextLimit service.records)
    (loaded :
      store.loadLatest state.environment.runtime (some service.records)
        externalId = .ok stored)
    (redacts :
      RedactsTo state requests draws request
        (stored.map StoredSession.session) artifact)
    (answered :
      state.answerStateful artifact (draws request) = .ok response) :
    ∃ records,
      ServiceRun state requests draws service
          { records
            progress :=
              Function.update service.progress request
                (.answered stored artifact response) } ∧
        state.redactTextInner (some service.records) (some service.records)
            (requests request) (draws request) =
          some (some records, .ok response) ∧
        SavedOver state.environment.runtime store externalId
          artifact.session service.records records := by
  obtain ⟨records, version, saved, savedOver⟩ :=
    @save_over_latest ι _ state store requests draws service request
      externalId stored configured apart reachable named below loaded
      artifact
  have loads := loadStateful_of_accepted configured accepted loaded
  have parts := redacts
  obtain ⟨found, redactor, isFound, built, _, redacted⟩ := parts
  rw [named] at isFound
  cases isFound
  refine ⟨records, ?_, ?_, savedOver⟩
  · exact
      .tail (run_to_save waiting named built loads redacts below saved)
        (answer_of_saved answered records)
  · rw [redactTextInner_of_named named built,
      statefulArtifact_of_save loads redacted, saved, ← answered]
    rfl

end Alone

/-! ## A sample service -/

/-- What the sample cipher puts in front of the plaintext. -/
def sampleSeal (key : ByteVector 32) (nonce : ByteVector 12)
    (aad : ByteArray) : ByteArray :=
  key.val ++ nonce.val ++ aad

/-- A cipher that opens under the same key, nonce and associated data. -/
def sampleServiceCrypto : CryptoBackend :=
  { sampleCryptoBackend 1 with
    encrypt := fun key nonce aad plaintext =>
      some (sampleSeal key nonce aad ++ plaintext)
    decrypt := fun key nonce aad ciphertext =>
      let front := sampleSeal key nonce aad
      if ciphertext.extract 0 front.size = front then
        some (ciphertext.extract front.size ciphertext.size)
      else
        none }

theorem sampleServiceCrypto_reopens : sampleServiceCrypto.Reopens where
  lossless :=
    let lossless := sampleCryptoBackend_lossless 1
    ⟨lossless.base64, lossless.session, lossless.permit, lossless.payload,
      lossless.file⟩
  opens key nonce aad plaintext ciphertext sealed := by
    cases sealed
    simp only [sampleServiceCrypto, ByteArray.extract_append_eq_left,
      if_true]
    rw [ByteArray.extract_append_eq_right rfl ByteArray.size_append]

/-- The identifiers `u1` and `u2` have distinct digests. -/
def sampleServiceRuntime : Runtime :=
  sampleRuntime.withDigest (lit "u2") (List.replicate 64 '1') (by decide)
    (by decide)

def sampleStore : ValkeySessionStore where
  keyNamespace := lit "redactor:session:"
  passphrase := samplePassphrase
  crypto := sampleServiceCrypto
  saltDrawn _ := sampleVector 16 0
  nonceDrawn _ := sampleVector 12 0
  reopens _ _ _ :=
    ⟨_, rfl,
      decryptSessionFromStorage_encrypt sampleServiceCrypto_reopens rfl⟩
  numberText := sampleBackend.numberText
  numberText_of_lt := sampleBackend.numberText_of_lt

def sampleState : HttpState where
  environment := { sampleLineEnvironment with runtime := sampleServiceRuntime }
  crypto := sampleServiceCrypto
  redactionPolicy := sampleMailPolicy
  sessionPassphrase := samplePassphrase
  sessionStore := some sampleStore
  writeAudit _ _ := .ok ()

/-- Requests 0 and 1 are for one identifier, and 2 is for another. -/
def sampleId : Fin 3 → Text
  | 0 | 1 => lit "u1"
  | 2 => lit "u2"

def sampleText : Fin 3 → Text
  | 0 => lit "alice@example.com"
  | 1 => lit "bob@example.com, alice@example.com"
  | 2 => lit "bob@example.com"

def sampleAsked (request : Fin 3) : RedactTextRequest where
  text := sampleText request
  externalId := some (sampleId request)

def sampleDraws (_ : Fin 3) : Draws where
  scopeId := (sampleRequests 0).scopeId
  sessionId := (sampleRequests 0).sessionId
  permitId := (sampleRequests 0).permitId
  stored := 0
  sessionSalt := sampleVector 16 0
  sessionNonce := sampleVector 12 0
  permitSalt := sampleVector 16 0
  permitNonce := sampleVector 12 0
  scopeDrawn := (sampleRequests 0).scopeDrawn
  sessionNamed := (sampleRequests 0).sessionNamed

theorem sample_apart : DigestsApart sampleServiceRuntime sampleAsked := by
  intro first second left right firstNamed secondNamed
  cases firstNamed
  cases secondNamed
  revert first second
  decide

theorem sample_accepted (request : Fin 3) :
    requireExternalId (some (sampleId request)) = .ok (sampleId request) := by
  match request with
  | 0 | 1 | 2 => rfl

instance decidableCountersFit (runtime : Runtime)
    (prior : Option RedactionSession) (externalId scopeId : Text)
    (artifact : RedactorInstance.RedactionArtifact) :
    Decidable (CountersFit runtime prior externalId scopeId artifact) :=
  match started :
    ReplacementProcessor.withPriorSession runtime prior (some externalId)
      scopeId
  with
  | .error _ =>
      .isTrue fun processor isProcessor => by
        rw [started] at isProcessor
        cases isProcessor
  | .ok processor =>
      decidable_of_iff
        (StaysBelowLimit runtime processor.state artifact.result.findings)
        ⟨fun fits other isOther => by
          rw [started] at isOther
          cases isOther
          exact fits,
        fun fits => fits processor started⟩

/-- What a sample request makes of a session. -/
def sampleArtifact? (request : Fin 3) (prior : Option RedactionSession) :
    Option RedactorInstance.RedactionArtifact :=
  (sampleState.redactStateful sampleMailRedactor (sampleAsked request)
    (sampleDraws request) (sampleId request) prior).toOption.filter
      fun artifact =>
        decide
          (CountersFit sampleServiceRuntime prior (sampleId request)
            (lit "ab") artifact)

theorem redactsTo_of_sampleArtifact {request : Fin 3}
    {prior : Option RedactionSession}
    {artifact : RedactorInstance.RedactionArtifact}
    (made : sampleArtifact? request prior = some artifact) :
    RedactsTo sampleState sampleAsked sampleDraws request prior artifact := by
  obtain ⟨done, fits⟩ := Option.filter_eq_some_iff.mp made
  refine ⟨sampleId request, sampleMailRedactor, rfl, ?_,
    of_decide_eq_true fits, ?_⟩
  · exact withContext_eq_ok.mpr tryBuild_sampleMail
  · cases outcome :
        sampleState.redactStateful sampleMailRedactor (sampleAsked request)
          (sampleDraws request) (sampleId request) prior with
    | error error =>
        rw [outcome] at done
        cases done
    | ok found =>
        rw [outcome] at done
        cases done
        rfl

/-- Request 0 redacts, request 1 goes on from its session or begins anew, and
request 2 redacts for its own identifier. -/
theorem sample_redacts :
    ∃ first second anew other,
      RedactsTo sampleState sampleAsked sampleDraws 0 none first ∧
        RedactsTo sampleState sampleAsked sampleDraws 1 (some first.session)
          second ∧
        RedactsTo sampleState sampleAsked sampleDraws 1 none anew ∧
        RedactsTo sampleState sampleAsked sampleDraws 2 none other := by
  have inTurn :
      ((sampleArtifact? 0 none).bind fun first =>
        sampleArtifact? 1 (some first.session)).isSome = true := by
    decide +kernel
  have alone :
      (sampleArtifact? 1 none).isSome = true ∧
        (sampleArtifact? 2 none).isSome = true := by
    decide +kernel
  obtain ⟨second, isSecond⟩ := Option.isSome_iff_exists.mp inTurn
  obtain ⟨first, isFirst, isSecond⟩ := Option.bind_eq_some_iff.mp isSecond
  obtain ⟨anew, isAnew⟩ := Option.isSome_iff_exists.mp alone.1
  obtain ⟨other, isOther⟩ := Option.isSome_iff_exists.mp alone.2
  exact ⟨first, second, anew, other, redactsTo_of_sampleArtifact isFirst,
    redactsTo_of_sampleArtifact isSecond, redactsTo_of_sampleArtifact isAnew,
    redactsTo_of_sampleArtifact isOther⟩

theorem sample_answers (artifact : RedactorInstance.RedactionArtifact)
    (request : Fin 3) :
    ∃ response,
      sampleState.answerStateful artifact (sampleDraws request) =
        .ok response :=
  ⟨_, rfl⟩

/-- Any of the requests, on its own. -/
theorem sample_answered_alone {service : Service (Fin 3)}
    (reachable :
      ServiceReachable sampleState sampleAsked sampleDraws service)
    {request : Fin 3} (waiting : service.progress request = .waiting)
    (below : VersionsBelow numberTextLimit service.records)
    {stored : Option StoredSession}
    (loaded :
      sampleStore.loadLatest sampleServiceRuntime (some service.records)
        (sampleId request) = .ok stored)
    {artifact : RedactorInstance.RedactionArtifact}
    (redacts :
      RedactsTo sampleState sampleAsked sampleDraws request
        (stored.map StoredSession.session) artifact) :
    ∃ records response,
      ServiceRun sampleState sampleAsked sampleDraws service
          { records
            progress :=
              Function.update service.progress request
                (.answered stored artifact response) } ∧
        SavedOver sampleServiceRuntime sampleStore (sampleId request)
          artifact.session service.records records := by
  obtain ⟨response, answered⟩ := sample_answers artifact request
  obtain ⟨records, run, _, savedOver⟩ :=
    @answered_alone (Fin 3) _ sampleState sampleStore sampleAsked sampleDraws
      service request (sampleId request) stored artifact response rfl
      sample_apart reachable waiting rfl (sample_accepted request) below
      loaded redacts answered
  exact ⟨records, response, run, savedOver⟩

theorem sample_loaded_nothing (externalId : Text) :
    sampleStore.loadLatest sampleServiceRuntime
      (some (Service.initial : Service (Fin 3)).records) externalId =
        .ok none := rfl

theorem sample_below (limit : Nat) :
    VersionsBelow limit (Service.initial : Service (Fin 3)).records := by
  intro key envelope present
  cases present

/-- Requests 0, 1 and 2 one after the other. -/
theorem sample_in_turn :
    ∃ (early late : Service (Fin 3)) (latest : StoredSession)
      (first second other : RedactorInstance.RedactionArtifact)
      (answers : Fin 3 → RedactTextResponse),
      ServiceReachable sampleState sampleAsked sampleDraws early ∧
        early.progress 0 = .answered none first (answers 0) ∧
        ServiceRun sampleState sampleAsked sampleDraws early late ∧
        late.progress 0 = .answered none first (answers 0) ∧
        late.progress 1 = .answered (some latest) second (answers 1) ∧
        late.progress 2 = .answered none other (answers 2) := by
  obtain ⟨first, second, _, other, redactsFirst, redactsSecond, _,
    redactsOther⟩ := sample_redacts
  obtain ⟨records₀, answer₀, run₀, saved₀⟩ :=
    @sample_answered_alone .initial .initial 0 rfl (sample_below _) none
      (sample_loaded_nothing _) first redactsFirst
  have reachable₀ := ServiceReachable.initial.after run₀
  obtain ⟨latest, loaded₀, isFirst⟩ := saved₀.latest
  have below₀ := saved₀.versions 1 (by decide) (sample_below 1)
  rw [← isFirst] at redactsSecond
  obtain ⟨records₁, answer₁, run₁, saved₁⟩ :=
    @sample_answered_alone _ reachable₀ 1 rfl
      (below₀.mono (by decide)) (some latest) loaded₀ second redactsSecond
  have reachable₁ := reachable₀.after run₁
  have below₁ := saved₁.versions 2 (by decide) below₀
  have apart :
      sampleStore.keyFor sampleServiceRuntime (lit "u2") ≠
        sampleStore.keyFor sampleServiceRuntime (lit "u1") := by
    decide
  have loaded₁ :
      sampleStore.loadLatest sampleServiceRuntime (some records₁)
        (sampleId 2) = .ok none := by
    have untouched :
        records₁ (sampleStore.keyFor sampleServiceRuntime (lit "u2")) =
          none :=
      (saved₁.others _ apart).trans (saved₀.others _ apart)
    change Redactor.loadLatest _ (records₁ _) = _
    rw [show sampleId 2 = lit "u2" from rfl, untouched]
    rfl
  obtain ⟨records₂, answer₂, run₂, _⟩ :=
    @sample_answered_alone _ reachable₁ 2 rfl (below₁.mono (by decide)) none
      loaded₁ other redactsOther
  exact ⟨_, _, latest, first, second, other, ![answer₀, answer₁, answer₂],
    reachable₀, rfl, run₁.trans run₂, rfl, rfl, rfl⟩

section Alone

variable {ι : Type} [DecidableEq ι] {state : HttpState}
  {store : ValkeySessionStore} {requests : ι → RedactTextRequest}
  {draws : ι → Draws} {service : Service ι} {request : ι}
  {externalId : Text}

/-- A request that nobody interrupts is answered once its redaction and its
seals succeed, wherever the others have been left: its session becomes the
latest one, nothing else changes, and its steps are one call. -/
theorem uninterrupted_request_answered
    (configured : state.sessionStore = some store)
    (apart : DigestsApart state.environment.runtime requests)
    (reachable : ServiceReachable state requests draws service)
    (waiting : service.progress request = .waiting)
    (named : (requests request).externalId = some externalId)
    (accepted : requireExternalId (some externalId) = .ok externalId)
    (below : VersionsBelow numberTextLimit service.records) :
    ∃ stored,
      store.loadLatest state.environment.runtime (some service.records)
          externalId = .ok stored ∧
        ∀ artifact response,
          RedactsTo state requests draws request
              (stored.map StoredSession.session) artifact →
            state.answerStateful artifact (draws request) = .ok response →
            ∃ records,
              ServiceRun state requests draws service
                  { records
                    progress :=
                      Function.update service.progress request
                        (.answered stored artifact response) } ∧
                state.redactTextInner (some service.records)
                    (some service.records) (requests request)
                    (draws request) = some (some records, .ok response) ∧
                SavedOver state.environment.runtime store externalId
                  artifact.session service.records records := by
  obtain ⟨stored, loaded⟩ :=
    load_of_reachable configured apart reachable named
  refine ⟨stored, loaded, ?_⟩
  intro artifact response redacts answered
  exact answered_alone configured apart reachable waiting named accepted
    below loaded redacts answered

end Alone

/-- Request 1 runs while request 0 has loaded and not yet saved. -/
theorem uninterrupted_request_answered_beside_loaded :
    ∃ (service : Service (Fin 3)) (records : Records)
      (artifact : RedactorInstance.RedactionArtifact)
      (response : RedactTextResponse),
      service.progress 0 = .loaded none ∧
        ServiceRun sampleState sampleAsked sampleDraws service
          { records
            progress :=
              Function.update service.progress 1
                (.answered none artifact response) } ∧
        SavedOver sampleServiceRuntime sampleStore (lit "u1")
          artifact.session service.records records := by
  have reachable :
      ServiceReachable sampleState sampleAsked sampleDraws
        (Service.initial.set 0 (.loaded none)) :=
    .step .initial
      (.load .initial 0 (lit "u1") (lit "u1") none sampleMailRedactor rfl rfl
        (withContext_eq_ok.mpr tryBuild_sampleMail) rfl)
  obtain ⟨_, _, artifact, _, _, _, redacts, _⟩ := sample_redacts
  obtain ⟨response, answered⟩ := sample_answers artifact 1
  have empty :
      sampleStore.loadLatest sampleServiceRuntime (some fun _ => none)
        (lit "u1") = .ok none := rfl
  obtain ⟨stored, loaded, alone⟩ :=
    @uninterrupted_request_answered (Fin 3) _ sampleState sampleStore
      sampleAsked sampleDraws (Service.initial.set 0 (.loaded none)) 1
      (lit "u1") rfl sample_apart reachable rfl rfl (sample_accepted 1)
      (by
        intro key envelope present
        cases present)
  cases empty.symm.trans loaded
  obtain ⟨records, run, _, savedOver⟩ :=
    alone artifact response redacts answered
  exact ⟨_, records, artifact, response, rfl, run, savedOver⟩

/-! ## From a run to a call -/

section Calls

variable {ι : Type} [DecidableEq ι] (state : HttpState)
  (requests : ι → RedactTextRequest) (draws : ι → Draws)

/-- What a connection reaches: nothing, or the records of a moment between the
two services. -/
def ReachesBetween (early late : Service ι)
    (connection : Option Records) : Prop :=
  connection = none ∨
    ∃ moment,
      ServiceRun state requests draws early moment ∧
        ServiceRun state requests draws moment late ∧
        connection = some moment.records

/-- The request has loaded at a moment before `service`. -/
def LoadedBefore (service : Service ι) (request : ι)
    (stored : Option StoredSession) (moment : Service ι) : Prop :=
  ServiceRun state requests draws .initial moment ∧
    ServiceRun state requests draws moment service ∧
    ∃ externalId redactor,
      (requests request).externalId = some externalId ∧
        state.redactorFor (requests request) = .ok redactor ∧
        state.loadStateful (some moment.records) externalId =
          .ok (externalId, stored)

/-- The request has loaded at one moment and saved at another. -/
def SavedBefore (service : Service ι) (request : ι)
    (stored : Option StoredSession)
    (artifact : RedactorInstance.RedactionArtifact)
    (loading saving after : Service ι) : Prop :=
  LoadedBefore state requests draws saving request stored loading ∧
    RedactsTo state requests draws request
      (stored.map StoredSession.session) artifact ∧
    saving.progress request = .redacted stored artifact ∧
    ServiceStep state requests draws saving after ∧
    ServiceRun state requests draws after service ∧
    ∃ externalId version,
      (requests request).externalId = some externalId ∧
        state.saveStateful (some saving.records) (draws request) externalId
            stored artifact = some (.ok (after.records, version))

/-- How a request came to be as far as it is. -/
def CameTo (service : Service ι) (request : ι) : RequestProgress → Prop
  | .waiting => True
  | .loaded stored =>
      ∃ loading,
        LoadedBefore state requests draws service request stored loading
  | .redacted stored artifact =>
      (∃ loading,
        LoadedBefore state requests draws service request stored loading) ∧
        RedactsTo state requests draws request
          (stored.map StoredSession.session) artifact
  | .saved stored artifact =>
      ∃ loading saving after,
        SavedBefore state requests draws service request stored artifact
          loading saving after
  | .answered stored artifact response =>
      (∃ loading saving after,
        SavedBefore state requests draws service request stored artifact
          loading saving after) ∧
        state.answerStateful artifact (draws request) = .ok response
  | .lost stored artifact error =>
      (∃ loading saving after,
        SavedBefore state requests draws service request stored artifact
          loading saving after) ∧
        ∀ reason, error = some reason →
          state.answerStateful artifact (draws request) = .error reason
  | .refused error =>
      ∀ reason, error = some reason →
        ∃ loading saving,
          ReachesBetween state requests draws .initial service loading ∧
            ReachesBetween state requests draws .initial service saving ∧
            state.redactTextInner loading saving (requests request)
                (draws request) = some (none, .error reason)

variable {state requests draws} {service next : Service ι} {request : ι}

theorem ReachesBetween.later {early : Service ι}
    {connection : Option Records}
    (reaches :
      ReachesBetween state requests draws early service connection)
    (run : ServiceRun state requests draws service next) :
    ReachesBetween state requests draws early next connection := by
  rcases reaches with lost | ⟨moment, before, after, same⟩
  · exact .inl lost
  · exact .inr ⟨moment, before, after.trans run, same⟩

theorem LoadedBefore.later {stored : Option StoredSession}
    {moment : Service ι}
    (loaded :
      LoadedBefore state requests draws service request stored moment)
    (run : ServiceRun state requests draws service next) :
    LoadedBefore state requests draws next request stored moment :=
  ⟨loaded.1, loaded.2.1.trans run, loaded.2.2⟩

theorem SavedBefore.later {stored : Option StoredSession}
    {artifact : RedactorInstance.RedactionArtifact}
    {loading saving after : Service ι}
    (saved :
      SavedBefore state requests draws service request stored artifact
        loading saving after)
    (run : ServiceRun state requests draws service next) :
    SavedBefore state requests draws next request stored artifact loading
      saving after := by
  obtain ⟨loaded, redacts, progress, step, rest, outcome⟩ := saved
  exact ⟨loaded, redacts, progress, step, rest.trans run, outcome⟩

/-- What happened before stays in the past. -/
theorem CameTo.later {progress : RequestProgress}
    (came : CameTo state requests draws service request progress)
    (run : ServiceRun state requests draws service next) :
    CameTo state requests draws next request progress := by
  cases progress with
  | waiting =>
      trivial
  | loaded stored =>
      obtain ⟨loading, loaded⟩ := came
      exact ⟨loading, loaded.later run⟩
  | redacted stored artifact =>
      obtain ⟨⟨loading, loaded⟩, redacts⟩ := came
      exact ⟨⟨loading, loaded.later run⟩, redacts⟩
  | saved stored artifact =>
      obtain ⟨loading, saving, after, saved⟩ := came
      exact ⟨loading, saving, after, saved.later run⟩
  | answered stored artifact response =>
      obtain ⟨⟨loading, saving, after, saved⟩, answered⟩ := came
      exact ⟨⟨loading, saving, after, saved.later run⟩, answered⟩
  | lost stored artifact error =>
      obtain ⟨⟨loading, saving, after, saved⟩, reason⟩ := came
      exact ⟨⟨loading, saving, after, saved.later run⟩, reason⟩
  | refused error =>
      intro reason isReason
      obtain ⟨loading, saving, early, late, call⟩ := came reason isReason
      exact ⟨loading, saving, early.later run, late.later run, call⟩

/-- A step leads to where a request can have come. -/
theorem cameTo_step
    (run : ServiceRun state requests draws .initial service)
    (came :
      ∀ request,
        CameTo state requests draws service request
          (service.progress request))
    (step : ServiceStep state requests draws service next) :
    CameTo state requests draws next request (next.progress request) := by
  have single : ServiceRun state requests draws service next :=
    .single step
  -- only the request that moves has come further
  have moves (moved : ι) (progress : RequestProgress)
      (here : CameTo state requests draws next moved progress) :
      CameTo state requests draws next request
        (Function.update service.progress moved progress request) := by
    by_cases same : request = moved
    · rw [same, Function.update_self]
      exact here
    · rw [Function.update_of_ne same]
      exact (came request).later single
  cases step with
  | load moved externalId checked stored redactor waiting named built
      loaded =>
      rw [(checked_of_loadStateful loaded).2] at loaded
      exact moves moved _
        ⟨service, run, single, externalId, redactor, named, built, loaded⟩
  | redact moved stored artifact isLoaded redacts =>
      have before := came moved
      rw [isLoaded] at before
      obtain ⟨loading, loaded⟩ := before
      exact moves moved _ ⟨⟨loading, loaded.later single⟩, redacts⟩
  | save moved externalId version stored artifact records isRedacted named
      below saved =>
      have before := came moved
      rw [isRedacted] at before
      obtain ⟨⟨loading, loaded⟩, redacts⟩ := before
      exact moves moved _
        ⟨loading, service, _, loaded, redacts, isRedacted,
          .save service moved externalId version stored artifact records
            isRedacted named below saved,
          .refl, externalId, version, named, saved⟩
  | answer moved stored artifact response hasSaved answered =>
      have before := (came moved).later single
      rw [hasSaved] at before
      exact moves moved _ ⟨before, answered⟩
  | lose moved stored artifact error hasSaved reason =>
      have before := (came moved).later single
      rw [hasSaved] at before
      exact moves moved _ ⟨before, reason⟩
  | refuse moved error unsaved refuses =>
      refine moves moved _ ?_
      intro reason isReason
      have lost {early late : Service ι} :
          ReachesBetween state requests draws early late none := .inl rfl
      have reaches {connection : Option Records} {reached : Service ι}
          (before : ServiceRun state requests draws .initial reached)
          (behind :
            ServiceRun state requests draws reached
              (service.set moved (.refused error)))
          (same : connection = none ∨ connection = some reached.records) :
          ReachesBetween state requests draws .initial
            (service.set moved (.refused error)) connection :=
        same.imp id fun isRecords => ⟨reached, before, behind, isRecords⟩
      cases refuses reason isReason with
      | policy message waiting built =>
          exact ⟨none, none, lost, lost, redactTextInner_of_policy built⟩
      | load connection redactor externalId _ waiting same named built
          refused =>
          refine ⟨connection, none, reaches run single same, lost, ?_⟩
          rw [redactTextInner_of_named named built,
            statefulArtifact_of_load refused]
          rfl
      | redact stored redactor externalId _ isLoaded named built refused =>
          have before := came moved
          rw [isLoaded] at before
          obtain ⟨loading, early, late, found, _, isFound, _, loaded⟩ :=
            before
          rw [named] at isFound
          cases isFound
          refine ⟨_, none,
            reaches early (late.trans single) (.inr rfl), lost, ?_⟩
          rw [redactTextInner_of_named named built,
            statefulArtifact_of_redact loaded refused]
          rfl
      | save connection stored artifact externalId _ isRedacted same named
          refused =>
          have before := came moved
          rw [isRedacted] at before
          obtain ⟨⟨loading, early, late, found, redactor, isFound, built,
            loaded⟩, found', redactor', isFound', built', _, redacted⟩ :=
            before
          rw [named] at isFound isFound'
          cases isFound
          cases isFound'
          rw [built] at built'
          cases built'
          refine ⟨_, connection,
            reaches early (late.trans single) (.inr rfl),
            reaches run single same, ?_⟩
          rw [redactTextInner_of_named named built,
            statefulArtifact_of_save loaded redacted, refused]
          rfl
  | expire =>
      exact (came request).later single

theorem ServiceReachable.run
    (reachable : ServiceReachable state requests draws service) :
    ServiceRun state requests draws .initial service := by
  induction reachable with
  | initial =>
      exact .refl
  | step _ step inductionHypothesis =>
      exact inductionHypothesis.tail step

theorem cameTo_of_reachable
    (reachable : ServiceReachable state requests draws service) :
    ∀ request,
      CameTo state requests draws service request
        (service.progress request) := by
  induction reachable with
  | initial =>
      exact fun _ => trivial
  | step reached step inductionHypothesis =>
      exact fun _ => cameTo_step reached.run inductionHypothesis step

/-- What has become of a request. -/
def RequestProgress.Ended (progress : RequestProgress)
    (outcome : Except ServiceError RedactTextResponse) : Prop :=
  (∃ stored artifact response,
      progress = .answered stored artifact response ∧
        outcome = .ok response) ∨
    (∃ stored artifact reason,
      progress = .lost stored artifact (some reason) ∧
        outcome = .error reason) ∨
    ∃ reason, progress = .refused (some reason) ∧ outcome = .error reason

/-- The call of a request that has saved. -/
theorem SavedBefore.call {stored : Option StoredSession}
    {artifact : RedactorInstance.RedactionArtifact}
    {loading saving after : Service ι}
    (saved :
      SavedBefore state requests draws service request stored artifact
        loading saving after) :
    state.redactTextInner (some loading.records) (some saving.records)
        (requests request) (draws request) =
      some (some after.records,
        state.answerStateful artifact (draws request)) := by
  obtain ⟨⟨_, _, externalId, redactor, named, built, loaded⟩, redacts, _, _,
    _, found, version, isFound, done⟩ := saved
  obtain ⟨found', redactor', isFound', built', _, redacted⟩ := redacts
  rw [named] at isFound isFound'
  cases isFound
  cases isFound'
  rw [built] at built'
  cases built'
  rw [redactTextInner_of_named named built,
    statefulArtifact_of_save loaded redacted, done]
  rfl

/-- However the requests are interleaved, what becomes of one of them is what a
call returns whose load and save are each made at one moment of the run; a call
whose save succeeds makes one step of the store, and every other call leaves the
store alone and returns an error. -/
theorem ended_requests_are_calls
    (reachable : ServiceReachable state requests draws service)
    {outcome : Except ServiceError RedactTextResponse}
    (ended : (service.progress request).Ended outcome) :
    (∃ loading saving after,
      ServiceRun state requests draws .initial loading ∧
        ServiceRun state requests draws loading saving ∧
        ServiceStep state requests draws saving after ∧
        ServiceRun state requests draws after service ∧
        state.redactTextInner (some loading.records) (some saving.records)
            (requests request) (draws request) =
          some (some after.records, outcome)) ∨
      ∃ loading saving reason,
        ReachesBetween state requests draws .initial service loading ∧
          ReachesBetween state requests draws .initial service saving ∧
          outcome = .error reason ∧
          state.redactTextInner loading saving (requests request)
              (draws request) = some (none, outcome) := by
  have came := cameTo_of_reachable reachable request
  have ofSaved {stored : Option StoredSession}
      {artifact : RedactorInstance.RedactionArtifact}
      {loading saving after : Service ι}
      (saved :
        SavedBefore state requests draws service request stored artifact
          loading saving after)
      (same : state.answerStateful artifact (draws request) = outcome) :
      ∃ loading saving after,
        ServiceRun state requests draws .initial loading ∧
          ServiceRun state requests draws loading saving ∧
          ServiceStep state requests draws saving after ∧
          ServiceRun state requests draws after service ∧
          state.redactTextInner (some loading.records) (some saving.records)
              (requests request) (draws request) =
            some (some after.records, outcome) := by
    have call := saved.call
    rw [same] at call
    obtain ⟨⟨early, between, _⟩, _, _, step, late, _⟩ := saved
    exact ⟨loading, saving, after, early, between, step, late, call⟩
  rcases ended with ⟨stored, artifact, response, progress, same⟩ |
    ⟨stored, artifact, reason, progress, same⟩ | ⟨reason, progress, same⟩
  · rw [progress] at came
    obtain ⟨⟨loading, saving, after, saved⟩, answered⟩ := came
    exact .inl (ofSaved saved (answered.trans same.symm))
  · rw [progress] at came
    obtain ⟨⟨loading, saving, after, saved⟩, failed⟩ := came
    exact .inl (ofSaved saved ((failed reason rfl).trans same.symm))
  · rw [progress] at came
    obtain ⟨loading, saving, early, late, call⟩ := came reason rfl
    rw [← same] at call
    exact .inr ⟨loading, saving, reason, early, late, same, call⟩

end Calls

/-- A request alone is one call that saves. -/
theorem ended_requests_are_calls_alone :
    ∃ (service : Service (Fin 3)) (response : RedactTextResponse),
      (service.progress 0).Ended (.ok response) ∧
        ∃ loading saving after,
          ServiceRun sampleState sampleAsked sampleDraws .initial loading ∧
            ServiceRun sampleState sampleAsked sampleDraws loading saving ∧
            ServiceStep sampleState sampleAsked sampleDraws saving after ∧
            ServiceRun sampleState sampleAsked sampleDraws after service ∧
            sampleState.redactTextInner (some loading.records)
                (some saving.records) (sampleAsked 0) (sampleDraws 0) =
              some (some after.records, .ok response) := by
  obtain ⟨first, _, _, _, redacts, _⟩ := sample_redacts
  obtain ⟨records, response, run, _⟩ :=
    @sample_answered_alone .initial .initial 0 rfl (sample_below _)
      none (sample_loaded_nothing _) first redacts
  have reachable := ServiceReachable.initial.after run
  generalize isAfter :
    Service.mk records
      (Function.update (Service.initial : Service (Fin 3)).progress 0
        (.answered none first response)) = after at reachable
  have ended : (after.progress 0).Ended (.ok response) := by
    rw [← isAfter]
    exact .inl ⟨none, first, response, by simp, rfl⟩
  refine ⟨after, response, ended, ?_⟩
  rcases ended_requests_are_calls reachable ended with saved | refused
  · exact saved
  · obtain ⟨_, _, _, _, _, failed, _⟩ := refused
    cases failed

end Redactor
