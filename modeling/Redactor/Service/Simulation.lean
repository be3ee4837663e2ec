import Redactor.Library.VersionedStore
import Redactor.Service.Requests

/-!
# The store as a versioned value

The store is a versioned value and the requests are its clients: every step of
the server is a step of the versioned value.
-/

namespace Redactor

open Utf8 Fallible VersionedStore

def toStored (versioned : Versioned RedactionSession) : StoredSession where
  session := versioned.value
  version := numeral versioned.version

def toProgress : Phase RedactionSession RedactionArtifact → Progress
  | .idle => .waiting
  | .loaded seen => .loaded (seen.map toStored)
  | .computed seen artifact => .redacted (seen.map toStored) artifact
  | .saved seen artifact =>
      .succeeded (seen.map toStored) artifact (numeral (versionOf seen + 1))
  | .failed => .failed

section Simulation

variable {ι σ : Type} (runtime : Runtime) (backend : StoreBackend σ)
  (externalId : Text) (requests : ι → StatefulRequest)

/-- The envelope holds the versioned session. -/
def Holds : Option (SessionEnvelope σ) →
    Option (Versioned RedactionSession) → Prop
  | none, none => True
  | some envelope, some versioned =>
      envelope.version = versioned.version ∧
        backend.decrypt envelope.encryptedSession = some versioned.value
  | _, _ => False

/-- What a request makes of the session that it has loaded. -/
def Makes (request : ι) (prior : Option RedactionSession)
    (artifact : RedactionArtifact) : Prop :=
  (requests request).CountersFit runtime externalId prior ∧
    (requests request).redactArtifact runtime prior (some externalId) =
      some (.ok artifact)

structure Represents (server : Server ι σ)
    (system : System ι RedactionSession RedactionArtifact) : Prop where
  store : Holds backend server.store system.stored
  progress : ∀ request, server.progress request =
    toProgress (system.phase request)

variable {runtime backend externalId requests}

theorem loadLatest_of_holds {stored : Option (SessionEnvelope σ)}
    {versioned : Option (Versioned RedactionSession)}
    (holds : Holds backend stored versioned) :
    loadLatest backend stored = .ok (versioned.map toStored) := by
  cases stored with
  | none =>
      cases versioned with
      | none =>
          rfl
      | some _ =>
          exact holds.elim
  | some envelope =>
      cases versioned with
      | none =>
          exact holds.elim
      | some versioned =>
          obtain ⟨sameVersion, opened⟩ := holds
          simp [loadLatest, opened, toStored, sameVersion]

/-- A save that succeeds is over the version that was seen. -/
theorem holds_of_saveLatest {current : Option (SessionEnvelope σ)}
    {stored seen : Option (Versioned RedactionSession)}
    {artifact : RedactionArtifact} {draw : Nat}
    {written : SessionEnvelope σ} {version : Text}
    (holds : Holds backend current stored)
    (below : ∀ decoded, current = some decoded →
      decoded.version < numberTextLimit)
    (done :
      saveLatest runtime backend current draw artifact.session
          ((seen.map toStored).map StoredSession.version) =
        some (.ok (written, version))) :
    versionOf stored = versionOf seen ∧
      version = numeral (versionOf seen + 1) ∧
      Holds backend (some written)
        (some (replacing RedactionArtifact.session seen artifact)) := by
  cases seen with
  | none =>
      obtain ⟨empty, returned, shape⟩ := saveLatest_none_eq done below
      rw [empty] at holds
      rw [shape]
      cases stored with
      | none =>
          exact ⟨rfl, returned, rfl, backend.decrypt_encrypt _ _⟩
      | some _ =>
          exact holds.elim
  | some found =>
      obtain ⟨⟨decoded, present, sameVersion⟩, returned, shape⟩ :=
        saveLatest_some_eq done below
      rw [present] at holds
      rw [shape]
      cases stored with
      | none =>
          exact holds.elim
      | some versioned =>
          refine ⟨?_, returned, rfl, backend.decrypt_encrypt _ _⟩
          exact holds.1.symm.trans sameVersion

variable [DecidableEq ι]

theorem Represents.set {server : Server ι σ}
    {system : System ι RedactionSession RedactionArtifact}
    (represents : Represents backend server system) (request : ι)
    (phase : Phase RedactionSession RedactionArtifact) :
    Represents backend (server.set request (toProgress phase))
      (system.set request phase) := by
  refine ⟨represents.store, ?_⟩
  intro other
  by_cases same : other = request
  · rw [same]
    simp [Server.set, System.set]
  · simp only [Server.set, System.set, Function.update_of_ne same]
    exact represents.progress other

/-- Every step of the server is a step of the versioned value. -/
theorem represents_step {server next : Server ι σ}
    {system : System ι RedactionSession RedactionArtifact}
    (represents : Represents backend server system)
    (step : Step runtime backend externalId requests server next) :
    ∃ after,
      VersionedStore.Step RedactionArtifact.session
          (Makes runtime externalId requests) system after ∧
        Represents backend next after := by
  cases step with
  | load request stored waiting named done =>
      have shape := (represents.progress request).symm.trans waiting
      have idle : system.phase request = .idle := by
        cases phase : system.phase request <;>
          simp [phase, toProgress] at shape
        rfl
      rw [loadLatest_of_holds represents.store] at done
      cases done
      exact ⟨_, .load system request idle,
        represents.set request (.loaded system.stored)⟩
  | redact request stored artifact isLoaded fits done =>
      have shape := (represents.progress request).symm.trans isLoaded
      obtain ⟨seen, phase, same⟩ :
          ∃ seen, system.phase request = .loaded seen ∧
            stored = seen.map toStored := by
        cases phase : system.phase request <;>
          simp [phase, toProgress] at shape
        exact ⟨_, rfl, shape.symm⟩
      have prior :
          stored.map StoredSession.session =
            seen.map Versioned.value := by
        rw [same]
        cases seen <;> rfl
      rw [prior] at fits done
      rw [same]
      exact ⟨_, .compute system request seen artifact phase ⟨fits, done⟩,
        represents.set request (.computed seen artifact)⟩
  | save request stored artifact written version isRedacted below done =>
      have shape := (represents.progress request).symm.trans isRedacted
      obtain ⟨seen, phase, same⟩ :
          ∃ seen, system.phase request = .computed seen artifact ∧
            stored = seen.map toStored := by
        cases phase : system.phase request <;>
          simp [phase, toProgress] at shape
        exact ⟨_, by rw [shape.2], shape.1.symm⟩
      rw [same] at done
      obtain ⟨current, returned, holds⟩ :=
        holds_of_saveLatest represents.store below done
      refine ⟨_, .save system request seen artifact phase current, holds, ?_⟩
      intro other
      by_cases here : other = request
      · rw [here, same, returned]
        simp [toProgress]
      · simp only [Function.update_of_ne here]
        exact represents.progress other
  | fail request unsaved =>
      have open_ :
          ∀ seen artifact,
            system.phase request ≠ .saved seen artifact := by
        intro seen artifact isSaved
        apply unsaved (seen.map toStored) artifact
          (numeral (versionOf seen + 1))
        rw [represents.progress request, isSaved]
        rfl
      exact ⟨_, .fail system request open_, represents.set request .failed⟩

/-- Every reachable server is a reachable versioned value with its clients. -/
theorem represents_of_reachable {server : Server ι σ}
    (reachable :
      ReachableServer runtime backend externalId requests server) :
    ∃ system,
      VersionedStore.Reachable RedactionArtifact.session
          (Makes runtime externalId requests) system ∧
        Represents backend server system := by
  induction reachable with
  | initial =>
      exact ⟨.initial, .initial, trivial, fun _ => rfl⟩
  | step _ step inductionHypothesis =>
      obtain ⟨system, reached, represents⟩ := inductionHypothesis
      obtain ⟨after, stepped, represented⟩ := represents_step represents step
      exact ⟨after, .step reached stepped, represented⟩

end Simulation

end Redactor
