import Mathlib.Logic.Relation
import Redactor.Library.KeyedStore
import Redactor.Redact.Cursor
import Redactor.Service.Routes
import Redactor.Service.Succession

/-!
# Runs of the service

Any number of requests, each for an external identifier of its own choice, take
the steps of `stateful_artifact` in any order.  A request may fail, or be given
up by its client, between any two of them, also when its session has already
been saved.  Where records have a time to live, any of them may expire at any
time.
-/

namespace Redactor

open Utf8 Fallible VersionedStore

/-- How far a redaction request has come, with what it has loaded and made.
There is no error when the client has given up. -/
inductive RequestProgress where
  | waiting
  | loaded (stored : Option StoredSession)
  | redacted (stored : Option StoredSession)
      (artifact : RedactorInstance.RedactionArtifact)
  | saved (stored : Option StoredSession)
      (artifact : RedactorInstance.RedactionArtifact)
  | answered (stored : Option StoredSession)
      (artifact : RedactorInstance.RedactionArtifact)
      (response : RedactTextResponse)
  | lost (stored : Option StoredSession)
      (artifact : RedactorInstance.RedactionArtifact)
      (error : Option ServiceError)
  | refused (error : Option ServiceError)

/-- The request has saved the session of the artifact. -/
def RequestProgress.HasSaved (progress : RequestProgress)
    (stored : Option StoredSession)
    (artifact : RedactorInstance.RedactionArtifact) : Prop :=
  progress = .saved stored artifact ∨
    (∃ response, progress = .answered stored artifact response) ∨
    ∃ error, progress = .lost stored artifact error

structure Service (ι : Type) where
  records : Records
  progress : ι → RequestProgress

/-- The record under the key is gone. -/
def Service.expire {ι : Type} (service : Service ι) (key : Text) :
    Service ι :=
  { service with records := Function.update service.records key none }

section Steps

variable {ι : Type} [DecidableEq ι] (state : HttpState)
  (requests : ι → RedactTextRequest) (draws : ι → Draws)

def Service.initial : Service ι where
  records := fun _ => none
  progress := fun _ => .waiting

def Service.set (service : Service ι) (request : ι)
    (progress : RequestProgress) : Service ι :=
  { service with
    progress := Function.update service.progress request progress }

/-- No stored version reaches the limit. -/
def VersionsBelow (limit : Nat) (records : Records) : Prop :=
  ∀ key envelope, records key = some envelope → envelope.version < limit

theorem VersionsBelow.mono {limit larger : Nat} {records : Records}
    (below : VersionsBelow limit records) (most : limit ≤ larger) :
    VersionsBelow larger records :=
  fun key envelope present =>
    Nat.lt_of_lt_of_le (below key envelope present) most

/-- The counters that a redaction meets stay below their limit. -/
def CountersFit (runtime : Runtime) (prior : Option RedactionSession)
    (externalId scopeId : Text)
    (artifact : RedactorInstance.RedactionArtifact) : Prop :=
  ∀ processor,
    ReplacementProcessor.withPriorSession runtime prior (some externalId)
        scopeId = .ok processor →
      StaysBelowLimit runtime processor.state artifact.result.findings

/-- What a request makes of the session that it has loaded. -/
def RedactsTo (request : ι) (prior : Option RedactionSession)
    (artifact : RedactorInstance.RedactionArtifact) : Prop :=
  ∃ externalId redactor,
    (requests request).externalId = some externalId ∧
      state.redactorFor (requests request) = .ok redactor ∧
      CountersFit state.environment.runtime prior externalId
        (draws request).scopeId artifact ∧
      state.redactStateful redactor (requests request) (draws request)
          externalId prior = .ok artifact

/-- What makes a request fail that has not saved.  The connection may be lost
whenever it is used. -/
inductive Refuses (service : Service ι) (request : ι) : ServiceError → Prop
  | policy (message : Text) :
      service.progress request = .waiting →
      state.redactorFor (requests request) = .error message →
      Refuses service request { message }
  | load (connection : Option Records) (redactor : RedactorInstance)
      (externalId : Text) (error : ServiceError) :
      service.progress request = .waiting →
      connection = none ∨ connection = some service.records →
      (requests request).externalId = some externalId →
      state.redactorFor (requests request) = .ok redactor →
      state.loadStateful connection externalId = .error error →
      Refuses service request error
  | redact (stored : Option StoredSession) (redactor : RedactorInstance)
      (externalId : Text) (error : ServiceError) :
      service.progress request = .loaded stored →
      (requests request).externalId = some externalId →
      state.redactorFor (requests request) = .ok redactor →
      state.redactStateful redactor (requests request) (draws request)
          externalId (stored.map StoredSession.session) = .error error →
      Refuses service request error
  | save (connection : Option Records) (stored : Option StoredSession)
      (artifact : RedactorInstance.RedactionArtifact) (externalId : Text)
      (error : ServiceError) :
      service.progress request = .redacted stored artifact →
      connection = none ∨ connection = some service.records →
      (requests request).externalId = some externalId →
      state.saveStateful connection (draws request) externalId stored
          artifact = some (.error error) →
      Refuses service request error

/-- A step of one request, or the end of a record, while versions and counters
stay below their limits and the reply to a save arrives. -/
inductive ServiceStep : Service ι → Service ι → Prop
  | load (service : Service ι) (request : ι) (externalId checked : Text)
      (stored : Option StoredSession) (redactor : RedactorInstance) :
      service.progress request = .waiting →
      (requests request).externalId = some externalId →
      state.redactorFor (requests request) = .ok redactor →
      state.loadStateful (some service.records) externalId =
        .ok (checked, stored) →
      ServiceStep service (service.set request (.loaded stored))
  | redact (service : Service ι) (request : ι)
      (stored : Option StoredSession)
      (artifact : RedactorInstance.RedactionArtifact) :
      service.progress request = .loaded stored →
      RedactsTo state requests draws request
        (stored.map StoredSession.session) artifact →
      ServiceStep service (service.set request (.redacted stored artifact))
  | save (service : Service ι) (request : ι) (externalId version : Text)
      (stored : Option StoredSession)
      (artifact : RedactorInstance.RedactionArtifact) (records : Records) :
      service.progress request = .redacted stored artifact →
      (requests request).externalId = some externalId →
      VersionsBelow numberTextLimit service.records →
      state.saveStateful (some service.records) (draws request) externalId
          stored artifact = some (.ok (records, version)) →
      ServiceStep service
        { records
          progress :=
            Function.update service.progress request
              (.saved stored artifact) }
  | answer (service : Service ι) (request : ι)
      (stored : Option StoredSession)
      (artifact : RedactorInstance.RedactionArtifact)
      (response : RedactTextResponse) :
      service.progress request = .saved stored artifact →
      state.answerStateful artifact (draws request) = .ok response →
      ServiceStep service
        (service.set request (.answered stored artifact response))
  | lose (service : Service ι) (request : ι)
      (stored : Option StoredSession)
      (artifact : RedactorInstance.RedactionArtifact)
      (error : Option ServiceError) :
      service.progress request = .saved stored artifact →
      (∀ reason, error = some reason →
        state.answerStateful artifact (draws request) = .error reason) →
      ServiceStep service (service.set request (.lost stored artifact error))
  | refuse (service : Service ι) (request : ι)
      (error : Option ServiceError) :
      (∀ stored artifact,
        ¬ (service.progress request).HasSaved stored artifact) →
      (∀ reason, error = some reason →
        Refuses state requests draws service request reason) →
      ServiceStep service (service.set request (.refused error))
  | expire (service : Service ι) (store : ValkeySessionStore)
      (seconds : Nat) (key : Text) :
      state.sessionStore = some store →
      store.ttlSeconds = some seconds →
      ServiceStep service (service.expire key)

inductive ServiceReachable : Service ι → Prop
  | initial : ServiceReachable .initial
  | step {service next : Service ι} :
      ServiceReachable service →
      ServiceStep state requests draws service next →
      ServiceReachable next

/-- A run of the service. -/
abbrev ServiceRun : Service ι → Service ι → Prop :=
  Relation.ReflTransGen (ServiceStep state requests draws)

variable {state requests draws}

theorem ServiceReachable.after {service next : Service ι}
    (reachable : ServiceReachable state requests draws service)
    (run : ServiceRun state requests draws service next) :
    ServiceReachable state requests draws next := by
  induction run with
  | refl =>
      exact reachable
  | tail _ step inductionHypothesis =>
      exact .step inductionHypothesis step

end Steps

/-! ## One redaction -/

section Redaction

variable {state : HttpState} {request : RedactTextRequest} {draws : Draws}
  {redactor : RedactorInstance} {externalId : Text}
  {prior : Option RedactionSession}
  {artifact : RedactorInstance.RedactionArtifact}

theorem plainError_eq_ok {α : Type} {result : Except Text α} {value : α} :
    plainError result = .ok value ↔ result = .ok value := by
  cases result <;> simp [plainError]

theorem storeError_eq_ok {α : Type} {message : Text}
    {result : Except SessionStoreError α} {value : α} :
    storeError message result = .ok value ↔ result = .ok value := by
  cases result <;> simp [storeError]

theorem redactStateful_eq_ok :
    state.redactStateful redactor request draws externalId prior =
        .ok artifact ↔
      redactor.redactArtifact state.environment
          { inputKind := request.inputKind
            sourcePath := request.sourcePath
            priorSession := prior
            externalId := some externalId
            scopeId := draws.scopeId
            sessionId := draws.sessionId }
          request.text = some (.ok artifact) := by
  unfold HttpState.redactStateful redactTextArtifactInternal
  generalize redactor.redactArtifact _ _ _ = outcome
  cases outcome with
  | none =>
      simp [context, plainError, bind, Except.bind]
  | some result =>
      cases result <;> simp [context, plainError, withContext, bind,
        Except.bind]

/-- The findings of a redaction that ended, as a request for their
replacement. -/
def Redacted.statefulRequest {environment : Environment}
    {given : RedactionRequest} {text : Text}
    (redacted : Redacted environment redactor given text artifact)
    (draws : Draws) : StatefulRequest where
  text := text
  findings := artifact.result.findings
  policy := redactor.compiledPolicy.policy
  scopeId := draws.scopeId
  sessionId := draws.sessionId
  permitId := draws.permitId
  draw := draws.stored
  ordered := by
    rw [redacted.findings]
    exact ReplacementProcessor.inOrder_of_redactFrom
      (fun finding member =>
        (confined_detected redacted.detected finding member).inText)
      redacted.replaced
  scopeDrawn := draws.scopeDrawn
  sessionNamed := draws.sessionNamed

/-- The artifact without its findings and statistics. -/
def plainArtifact (artifact : RedactorInstance.RedactionArtifact) :
    RedactionArtifact where
  redactedText := artifact.result.redactedText
  appliedReplacements := artifact.result.appliedReplacements
  session := artifact.session

theorem Redacted.statefulRequest_redactArtifact {environment : Environment}
    {given : RedactionRequest} {text : Text}
    (redacted : Redacted environment redactor given text artifact)
    (scope : given.scopeId = draws.scopeId)
    (session : given.sessionId = draws.sessionId)
    (external : given.externalId = some externalId) :
    (redacted.statefulRequest draws).redactArtifact environment.runtime
        given.priorSession (some externalId) =
      some (.ok (plainArtifact artifact)) := by
  have started := redacted.continued
  rw [scope, external] at started
  have replaced := redacted.replaced
  rw [← redacted.findings] at replaced
  have built := redacted.session
  rw [session] at built
  simp only [StatefulRequest.redactArtifact, Redacted.statefulRequest,
    started, replaced, plainArtifact,
    redacted.applied, built, Option.bind_eq_bind, Option.bind_some]

end Redaction

section Requests

variable {ι : Type} {state : HttpState} {requests : ι → RedactTextRequest}
  {draws : ι → Draws}

/-- What one request makes: a session that is well formed and continues the one
that was loaded, and a redacted text that its own tokens resolve. -/
theorem redactsTo_spec {request : ι} {prior : Option RedactionSession}
    {artifact : RedactorInstance.RedactionArtifact} {externalId : Text}
    (named : (requests request).externalId = some externalId)
    (redacts : RedactsTo state requests draws request prior artifact)
    (good : ∀ before, prior = some before →
      StoredWell state.environment.runtime externalId before) :
    StoredWell state.environment.runtime externalId artifact.session ∧
      (∀ before, prior = some before →
        Continues before artifact.session) ∧
      artifact.session.redactedText = artifact.result.redactedText ∧
      (({ text := (requests request).text
          findings := artifact.result.findings } : Fragment).Placed →
        Woven
          (fun token original =>
            token ∈ artifact.session.issuedTokens ∧
              IsToken state.environment.runtime token ∧
              (RestoreContext.new artifact.session).original? token =
                some original)
          (requests request).text artifact.result.redactedText
          artifact.result.findings.length) := by
  obtain ⟨found, redactor, isFound, _, countersFit, done⟩ := redacts
  rw [named] at isFound
  cases isFound
  obtain ⟨redacted⟩ := redactArtifact_eq_ok (redactStateful_eq_ok.mp done)
  have again :=
    redacted.statefulRequest_redactArtifact
      (show _ = (draws request).scopeId from rfl)
      (show _ = (draws request).sessionId from rfl)
      (show _ = some externalId from rfl)
  have makes :
      Makes state.environment.runtime externalId
        (fun _ : Unit => redacted.statefulRequest (draws request)) ()
        prior (plainArtifact artifact) :=
    ⟨countersFit, again⟩
  obtain ⟨well, continues, woven⟩ := makes_spec makes good
  refine ⟨well, continues, ?_, woven⟩
  rw [redacted.session]
  rfl

end Requests

end Redactor
