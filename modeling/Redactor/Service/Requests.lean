import Mathlib.Logic.Function.Basic
import Redactor.Service.Store

/-!
# Stateful redaction requests

Every request loads the latest session, redacts with it, and saves the session
it has built.  Any number of requests for one external identifier take their
steps in any order.
-/

namespace Redactor

open Utf8 Fallible

/-- A request with its findings, and with what it draws at random. -/
structure StatefulRequest where
  text : Text
  findings : List Finding
  policy : RedactionPolicy
  scopeId : Text
  sessionId : Text
  permitId : Text
  draw : Nat
  ordered : ({ text, findings } : Fragment).InOrder
  scopeDrawn : IsHexId scopeId
  sessionNamed : sessionId ≠ []

def StatefulRequest.fragment (request : StatefulRequest) : Fragment where
  text := request.text
  findings := request.findings

structure RedactionArtifact where
  redactedText : Text
  appliedReplacements : List AppliedReplacement
  session : RedactionSession
  deriving DecidableEq, Repr

/-- There is no result when an operation aborts. -/
def StatefulRequest.redactArtifact (runtime : Runtime)
    (request : StatefulRequest) (prior : Option RedactionSession)
    (externalId : Option Text) : Option (Except Text RedactionArtifact) :=
  match ReplacementProcessor.withPriorSession runtime prior externalId
      request.scopeId with
  | .error message => some (.error message)
  | .ok processor => do
      let (processor, redactedText) ←
        processor.redactFragment runtime request.text request.findings
      let session :=
        processor.buildSession runtime request.text redactedText
          request.policy request.sessionId
      some (.ok
        { redactedText
          appliedReplacements := processor.appliedReplacements
          session })

/-- How far a request has come, with what it has loaded. -/
inductive Progress where
  | waiting
  | loaded (stored : Option StoredSession)
  | redacted (stored : Option StoredSession) (artifact : RedactionArtifact)
  | succeeded (stored : Option StoredSession) (artifact : RedactionArtifact)
      (version : Text)
  | failed

structure Server (ι σ : Type) where
  store : Option (SessionEnvelope σ)
  progress : ι → Progress

section Steps

variable {ι σ : Type} [DecidableEq ι] (runtime : Runtime)
  (backend : StoreBackend σ) (externalId : Text)
  (requests : ι → StatefulRequest)

def Server.set (server : Server ι σ) (request : ι) (progress : Progress) :
    Server ι σ :=
  { server with progress := Function.update server.progress request progress }

def Server.initial : Server ι σ where
  store := none
  progress := fun _ => .waiting

/-- The counters that a redaction meets stay below their limit. -/
def StatefulRequest.CountersFit (request : StatefulRequest)
    (prior : Option RedactionSession) : Prop :=
  ∀ processor,
    ReplacementProcessor.withPriorSession runtime prior (some externalId)
        request.scopeId = .ok processor →
      StaysBelowLimit runtime processor.state request.findings

/-- A step of one request, while versions and counters stay below their limits.
A request that has not succeeded may fail at any time: it may be refused, or
lose the store. -/
inductive Step : Server ι σ → Server ι σ → Prop
  | load (server : Server ι σ) (request : ι)
      (stored : Option StoredSession) :
      server.progress request = .waiting →
      requireExternalId (some externalId) = .ok externalId →
      loadLatest backend server.store = .ok stored →
      Step server (server.set request (.loaded stored))
  | redact (server : Server ι σ) (request : ι)
      (stored : Option StoredSession) (artifact : RedactionArtifact) :
      server.progress request = .loaded stored →
      (requests request).CountersFit runtime externalId
        (stored.map StoredSession.session) →
      (requests request).redactArtifact runtime
          (stored.map StoredSession.session) (some externalId) =
        some (.ok artifact) →
      Step server (server.set request (.redacted stored artifact))
  | save (server : Server ι σ) (request : ι)
      (stored : Option StoredSession) (artifact : RedactionArtifact)
      (written : SessionEnvelope σ) (version : Text) :
      server.progress request = .redacted stored artifact →
      (∀ current, server.store = some current →
        current.version < numberTextLimit) →
      saveLatest runtime backend server.store (requests request).draw
          artifact.session (stored.map StoredSession.version) =
        some (.ok (written, version)) →
      Step server
        { store := some written
          progress :=
            Function.update server.progress request
              (.succeeded stored artifact version) }
  | fail (server : Server ι σ) (request : ι) :
      (∀ stored artifact version,
        server.progress request ≠ .succeeded stored artifact version) →
      Step server (server.set request .failed)

inductive ReachableServer : Server ι σ → Prop
  | initial : ReachableServer .initial
  | step {server next : Server ι σ} :
      ReachableServer server →
      Step runtime backend externalId requests server next →
      ReachableServer next

end Steps

end Redactor
