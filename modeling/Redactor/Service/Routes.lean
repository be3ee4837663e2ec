import Mathlib.Logic.Function.Basic
import Redactor.Redact.Artifact
import Redactor.Service.Status
import Redactor.Session.Separation

/-!
# The service and its routes

The service joins redaction with encrypted sessions and permits, or with the
latest session of the store.  A request chooses by what it names; a failure
keeps its message and the error of the store behind it.
-/

namespace Redactor

open Utf8 Fallible

/-- What is written is read back, and what is sealed is opened. -/
structure CryptoBackend.Reopens (crypto : CryptoBackend) : Prop where
  lossless : crypto.Lossless
  opens :
    ∀ key nonce aad plaintext ciphertext,
      crypto.encrypt key nonce aad plaintext = some ciphertext →
      crypto.decrypt key nonce aad ciphertext = some plaintext

theorem decryptSessionFromStorage_encrypt {crypto : CryptoBackend}
    (reopens : crypto.Reopens) {session : RedactionSession}
    {passphrase externalId data : Text} {salt : ByteVector 16}
    {nonce : ByteVector 12}
    (sealed :
      encryptSessionForStorage crypto session passphrase externalId salt
        nonce = .ok data) :
    decryptSessionFromStorage crypto data passphrase externalId =
      .ok session :=
  withContext_eq_ok.mpr
    (openJson_sealJson reopens.lossless (reopens.lossless.session _) sealed
      (reopens.opens _ _ _ _))

/-- What is stored under the keys. -/
abbrev Records : Type := Text → Option (SessionEnvelope Text)

/-- The store, with its cipher and the script host.  `draw` picks the salt and
the nonce of a sealing; the cipher seals every session and opens it again.  A
time to live is one that the server takes. -/
structure ValkeySessionStore where
  keyNamespace : Text
  ttlSeconds : Option Nat := none
  passphrase : Text
  crypto : CryptoBackend
  saltDrawn : Nat → ByteVector 16
  nonceDrawn : Nat → ByteVector 12
  reopens :
    ∀ externalId draw session, ∃ data,
      encryptSessionForStorage crypto session passphrase externalId
          (saltDrawn draw) (nonceDrawn draw) = .ok data ∧
        decryptSessionFromStorage crypto data passphrase externalId =
          .ok session
  numberText : Nat → Text
  numberText_of_lt :
    ∀ version < numberTextLimit, numberText version = numeral version

namespace ValkeySessionStore

variable (runtime : Runtime) (store : ValkeySessionStore)

def keyFor (externalId : Text) : Text :=
  store.keyNamespace ++ runtime.sha256Hex externalId

def sealStored (externalId : Text) (draw : Nat)
    (session : RedactionSession) : Text :=
  match
    encryptSessionForStorage store.crypto session store.passphrase externalId
      (store.saltDrawn draw) (store.nonceDrawn draw)
  with
  | .ok data => data
  | .error _ => []

def openStored (externalId data : Text) : Option RedactionSession :=
  (decryptSessionFromStorage store.crypto data store.passphrase
    externalId).toOption

theorem openStored_sealStored (externalId : Text) (draw : Nat)
    (session : RedactionSession) :
    store.openStored externalId (store.sealStored externalId draw session) =
      some session := by
  obtain ⟨data, sealed, opened⟩ := store.reopens externalId draw session
  simp only [openStored, sealStored, sealed, opened, Except.toOption]

/-- The store as it serves one identifier. -/
def backend (externalId : Text) : StoreBackend Text where
  encrypt := store.sealStored externalId
  decrypt := store.openStored externalId
  decrypt_encrypt := store.openStored_sealStored externalId
  numberText := store.numberText
  numberText_of_lt := store.numberText_of_lt

/-- `connection` is what the connection reaches; there is nothing when it
fails. -/
def loadLatest (connection : Option Records) (externalId : Text) :
    Except SessionStoreError (Option StoredSession) :=
  match connection with
  | none => .error .unavailable
  | some records =>
      Redactor.loadLatest (store.backend externalId)
        (records (store.keyFor runtime externalId))

/-- A save, with what is stored after it and the version it returns; there is
no result when an addition aborts. -/
def saveLatest (connection : Option Records) (externalId : Text) (draw : Nat)
    (session : RedactionSession) (expectedVersion : Option Text) :
    Option (Except SessionStoreError (Records × Text)) :=
  match connection with
  | none =>
      (nextVersion runtime expectedVersion).map fun next =>
        next.bind fun _ => .error .unavailable
  | some records =>
      let key := store.keyFor runtime externalId
      (Redactor.saveLatest runtime (store.backend externalId) (records key)
        draw session expectedVersion).map fun saved =>
          saved.map fun (stored, version) =>
            (Function.update records key (some stored), version)

end ValkeySessionStore

/-- An error that is its message. -/
def plainError {α : Type} : Except Text α → Except ServiceError α
  | .error message => .error { message }
  | .ok value => .ok value

/-- An error of the store behind a message. -/
def storeError {α : Type} (message : Text) :
    Except SessionStoreError α → Except ServiceError α
  | .error error => .error { message, storeErrors := [error] }
  | .ok value => .ok value

structure EncryptedRedactionArtifact where
  artifact : RedactorInstance.RedactionArtifact
  encryptedSession : Text
  restorePermit : Text
  sessionSummary : SessionSummary

/-- What is drawn at random for one redaction. -/
structure Draws where
  scopeId : Text
  sessionId : Text
  permitId : Text
  stored : Nat
  sessionSalt : ByteVector 16
  sessionNonce : ByteVector 12
  permitSalt : ByteVector 16
  permitNonce : ByteVector 12
  scopeDrawn : IsHexId scopeId
  sessionNamed : sessionId ≠ []

section Service

variable (environment : Environment) (crypto : CryptoBackend)

def sealSession (artifact : RedactorInstance.RedactionArtifact)
    (passphrase : Text) (draws : Draws) : Except Text Text :=
  encryptSessionToString crypto artifact.session passphrase draws.sessionSalt
    draws.sessionNonce

def sealPermit (artifact : RedactorInstance.RedactionArtifact)
    (passphrase : Text) (draws : Draws) : Except Text Text :=
  encryptRestorePermit crypto
    (createRestorePermit artifact.session draws.permitId) passphrase
    draws.permitSalt draws.permitNonce

def encryptArtifact (artifact : RedactorInstance.RedactionArtifact)
    (passphrase : Text) (draws : Draws) :
    Except Text EncryptedRedactionArtifact := do
  let encryptedSession ←
    withContext (fun _ => lit "failed to encrypt redaction session")
      (sealSession crypto artifact passphrase draws)
  let restorePermit ←
    withContext (fun _ => lit "failed to encrypt restore permit")
      (sealPermit crypto artifact passphrase draws)
  .ok
    { artifact
      encryptedSession
      restorePermit
      sessionSummary := .ofSession artifact.session }

/-- There is no result when the redaction aborts. -/
def redactTextArtifactInternal (redactor : RedactorInstance)
    (text : Text) (inputKind : InputKind) (sourcePath : Option Text)
    (priorSession : Option RedactionSession) (externalId : Option Text)
    (draws : Draws) : Option (Except Text RedactorInstance.RedactionArtifact) :=
  (redactor.redactArtifact environment
    { inputKind, sourcePath, priorSession, externalId
      scopeId := draws.scopeId
      sessionId := draws.sessionId }
    text).map
      (withContext fun message => lit "validation error: " ++ message)

/-- `redact_text_with_encrypted_session`, with a source path or without. -/
def redactTextWithEncryptedSession (redactor : RedactorInstance)
    (text : Text) (inputKind : InputKind) (sourcePath : Option Text)
    (passphrase : Text) (draws : Draws) :
    Option (Except Text EncryptedRedactionArtifact) :=
  (redactTextArtifactInternal environment redactor text inputKind sourcePath
    none none draws).map fun redacted => do
      let artifact ←
        withContext (fun _ => lit "failed to redact text input") redacted
      encryptArtifact crypto artifact passphrase draws

def decryptRedactionSession (encryptedSession passphrase : Text) :
    Except Text RedactionSession :=
  withContext (fun _ => lit "failed to decrypt provided session")
    (decryptSessionFromStr crypto encryptedSession passphrase)

def decryptPermits (encrypted : List Text) (passphrase : Text) :
    Except Text (List RestorePermit) :=
  encrypted.mapM fun permit => decryptRestorePermit crypto permit passphrase

/-- What both kinds of restore do once they have the session. -/
def restoreWithPermits (runtime : Runtime) (session : RedactionSession)
    (permits : List RestorePermit) (text : Text) :
    Except Text RestoreResult := do
  let context ← RestoreContext.withPermits session permits
  let restored := context.restoreText runtime text
  ensureRestoreValid restored
  .ok restored

def restoreTextFromEncryptedSession (text encryptedSession : Text)
    (encryptedPermits : List Text) (passphrase : Text) :
    Except Text RestoreResult := do
  let session ← decryptRedactionSession crypto encryptedSession passphrase
  let permits ← decryptPermits crypto encryptedPermits passphrase
  restoreWithPermits environment.runtime session permits text

/-- The restore from the latest session of the store; `message` is what is said
when it cannot be loaded. -/
def restoreStored (store : ValkeySessionStore)
    (connection : Option Records) (message : Text → Text)
    (externalId : Text) (permits : List RestorePermit) (text : Text) :
    Except ServiceError RestoreResult := do
  let externalId ← plainError (requireExternalId (some externalId))
  let loaded ←
    storeError (message externalId)
      (store.loadLatest environment.runtime connection externalId)
  let stored ←
    plainError
      (context
        (lit "no latest session found for external_id " ++ quoted externalId)
        loaded)
  plainError
    (restoreWithPermits environment.runtime stored.session permits text)

def restoreTextFromStore (text externalId : Text)
    (store : ValkeySessionStore) (connection : Option Records)
    (permits : List RestorePermit) : Except ServiceError RestoreResult :=
  restoreStored environment store connection
    (fun externalId =>
      lit "failed to load latest session for external_id " ++
        quoted externalId)
    externalId permits text

end Service

/-! ## The routes -/

structure RedactTextRequest where
  text : Text
  inputKind : InputKind := .text
  redaction : Option RedactionPolicy := none
  sourcePath : Option Text := none
  externalId : Option Text := none

structure RedactTextResponse where
  redactedText : Text
  encryptedSession : Text
  restorePermit : Text
  sessionSummary : SessionSummary

/-- An error as the client sees it. -/
structure ErrorResponse where
  status : StatusCode
  message : Text
  kind : Text

def errorResponse {α : Type} (kind : Text) :
    Except ServiceError α → Except ErrorResponse α
  | .error error =>
      .error
        { status := statusForError error
          message := error.message
          kind }
  | .ok value => .ok value

structure RestoreTextRequest where
  text : Text
  encryptedSession : Option Text := none
  externalId : Option Text := none
  restorePermits : List Text

/-- `writeAudit` is what writing the audit file of a session comes to. -/
structure HttpState where
  environment : Environment
  crypto : CryptoBackend
  redactionPolicy : RedactionPolicy
  sessionPassphrase : Text
  sessionStore : Option ValkeySessionStore
  writeAudit : Text → Text → Except Text Unit

namespace HttpState

variable (state : HttpState)

/-- The redactor that a request asks for; no language model is configured. -/
def redactorFor (request : RedactTextRequest) :
    Except Text RedactorInstance :=
  withContext
    (fun message =>
      lit "invalid redaction policy: validation error: " ++ message)
    (tryBuild state.environment.engine false
      (request.redaction.getD state.redactionPolicy))

def configuredStore : Except Text ValkeySessionStore :=
  context (lit "external_id requires a configured session store")
    state.sessionStore

/-- The load, with the checked identifier. -/
def loadStateful (connection : Option Records) (externalId : Text) :
    Except ServiceError (Text × Option StoredSession) := do
  let store ← plainError state.configuredStore
  let externalId ← plainError (requireExternalId (some externalId))
  let stored ←
    storeError (lit "failed to load stateful session")
      (store.loadLatest state.environment.runtime connection externalId)
  .ok (externalId, stored)

/-- The redaction, on a thread of its own. -/
def redactStateful (redactor : RedactorInstance)
    (request : RedactTextRequest) (draws : Draws) (externalId : Text)
    (prior : Option RedactionSession) :
    Except ServiceError RedactorInstance.RedactionArtifact := do
  let outcome ←
    plainError
      (context (lit "blocking operation failed to join")
        (redactTextArtifactInternal state.environment redactor request.text
          request.inputKind request.sourcePath prior (some externalId)
          draws))
  plainError outcome

/-- The save, with what is stored after it. -/
def saveStateful (connection : Option Records) (draws : Draws)
    (externalId : Text) (stored : Option StoredSession)
    (artifact : RedactorInstance.RedactionArtifact) :
    Option (Except ServiceError (Records × Text)) :=
  match state.configuredStore with
  | .error message => some (.error { message })
  | .ok store =>
      (store.saveLatest state.environment.runtime connection externalId
        draws.stored artifact.session
        (stored.map StoredSession.version)).map
          (storeError (lit "failed to save stateful session"))

def secureArtifact (artifact : RedactorInstance.RedactionArtifact)
    (draws : Draws) : Except Text EncryptedRedactionArtifact := do
  let encryptedSession ←
    sealSession state.crypto artifact state.sessionPassphrase draws
  let restorePermit ←
    sealPermit state.crypto artifact state.sessionPassphrase draws
  .ok
    { artifact
      encryptedSession
      restorePermit
      sessionSummary := .ofSession artifact.session }

/-- The audit file is written before the answer. -/
def answer (secured : EncryptedRedactionArtifact) :
    Except Text RedactTextResponse := do
  state.writeAudit secured.artifact.session.sessionId secured.encryptedSession
  .ok
    { redactedText := secured.artifact.session.redactedText
      encryptedSession := secured.encryptedSession
      restorePermit := secured.restorePermit
      sessionSummary := secured.sessionSummary }

def answerStateful (artifact : RedactorInstance.RedactionArtifact)
    (draws : Draws) : Except ServiceError RedactTextResponse := do
  let secured ← plainError (state.secureArtifact artifact draws)
  plainError (state.answer secured)

/-- A request without an external identifier. -/
def redactStateless (request : RedactTextRequest) (draws : Draws) :
    Except ServiceError RedactTextResponse := do
  let redactor ← plainError (state.redactorFor request)
  let redacted :=
    (redactTextWithEncryptedSession state.environment state.crypto redactor
      request.text request.inputKind request.sourcePath
      state.sessionPassphrase draws).getD
        (.error (lit "blocking operation failed to join"))
  let secured ←
    plainError
      (withContext (fun _ => lit "failed to redact text request") redacted)
  plainError (state.answer secured)

/-- `stateful_artifact`, with what is stored after it.  `loading` and `saving`
are what the connection reaches at the load and at the save; there is no result
when an addition aborts. -/
def statefulArtifact (loading saving : Option Records)
    (redactor : RedactorInstance) (request : RedactTextRequest)
    (externalId : Text) (draws : Draws) :
    Option
      (Except ServiceError (Records × RedactorInstance.RedactionArtifact)) :=
  match state.loadStateful loading externalId with
  | .error error => some (.error error)
  | .ok (externalId, stored) =>
      match
        state.redactStateful redactor request draws externalId
          (stored.map StoredSession.session)
      with
      | .error error => some (.error error)
      | .ok artifact =>
          (state.saveStateful saving draws externalId stored artifact).map
            fun saved => saved.map fun (records, _) => (records, artifact)

/-- What a stateful request stores, if anything, and what becomes of it. -/
def answerSaved (draws : Draws) :
    Except ServiceError (Records × RedactorInstance.RedactionArtifact) →
      Option Records × Except ServiceError RedactTextResponse
  | .error error => (none, .error error)
  | .ok (records, artifact) =>
      (some records, state.answerStateful artifact draws)

/-- What a request stores, if anything, and what becomes of it. -/
def redactTextInner (loading saving : Option Records)
    (request : RedactTextRequest) (draws : Draws) :
    Option (Option Records × Except ServiceError RedactTextResponse) :=
  match request.externalId with
  | none => some (none, state.redactStateless request draws)
  | some externalId =>
      match state.redactorFor request with
      | .error message => some (none, .error { message })
      | .ok redactor =>
          (state.statefulArtifact loading saving redactor request externalId
            draws).map (state.answerSaved draws)

def redactText (loading saving : Option Records)
    (request : RedactTextRequest) (draws : Draws) :
    Option (Option Records × Except ErrorResponse RedactTextResponse) :=
  (state.redactTextInner loading saving request draws).map
    fun (stored, outcome) =>
      (stored, errorResponse (lit "redact_error") outcome)

def restoreTextInner (connection : Option Records)
    (request : RestoreTextRequest) : Except ServiceError RestoreResult :=
  match request.encryptedSession, request.externalId with
  | some session, none =>
      plainError
        (restoreTextFromEncryptedSession state.environment state.crypto
          request.text session request.restorePermits
          state.sessionPassphrase)
  | none, some externalId => do
      let store ← plainError state.configuredStore
      let permits ←
        plainError
          (decryptPermits state.crypto request.restorePermits
            state.sessionPassphrase)
      restoreStored state.environment store connection
        (fun _ => lit "failed to load stateful session") externalId permits
        request.text
  | some _, some _ =>
      .error
        { message :=
            lit ("restore request must provide either encrypted_session or " ++
              "external_id, not both") }
  | none, none =>
      .error
        { message :=
            lit ("restore request must provide encrypted_session or " ++
              "external_id") }

def restoreText (connection : Option Records)
    (request : RestoreTextRequest) : Except ErrorResponse RestoreResult :=
  errorResponse (lit "restore_error")
    (state.restoreTextInner connection request)

/-- Whatever fails in an inspection makes the request unprocessable. -/
def inspectSession (encryptedSession : Text) :
    Except ErrorResponse SessionSummary :=
  match
    inspectEncryptedSession state.crypto encryptedSession
      state.sessionPassphrase
  with
  | .ok summary => .ok summary
  | .error message =>
      .error
        { status := .unprocessableEntity
          message
          kind := lit "inspect_error" }

end HttpState

end Redactor
