import Redactor.Service.Concurrency

/-!
# Why a request is refused

A redaction request of a reachable service is refused for one of six reasons,
each with a status of its own kind.  What is stored is never the reason: every
stored session is opened, and accepted as a prior session.
-/

namespace Redactor

open Utf8 Fallible VersionedStore

section Reasons

variable {ι : Type} [DecidableEq ι] (state : HttpState)
  (requests : ι → RedactTextRequest) (draws : ι → Draws)

end Reasons

section Stored

variable {ι : Type} [DecidableEq ι] {state : HttpState}
  {store : ValkeySessionStore} {requests : ι → RedactTextRequest}
  {draws : ι → Draws} {service : Service ι} {request : ι}
  {externalId : Text} {stored : Option StoredSession}

/-- Where the session comes from that a request goes on with. -/
theorem LoadedBefore.current {moment : Service ι}
    (configured : state.sessionStore = some store)
    (named : (requests request).externalId = some externalId)
    (loaded :
      LoadedBefore state requests draws service request stored moment) :
    ServiceReachable state requests draws moment ∧
      ServiceRun state requests draws moment service ∧
      store.loadLatest state.environment.runtime (some moment.records)
        externalId = .ok stored := by
  obtain ⟨early, late, found, _, isFound, _, isLoaded⟩ := loaded
  rw [named] at isFound
  cases isFound
  exact ⟨ServiceReachable.initial.after early, late,
    (loadStateful_eq_ok configured isLoaded).2⟩

end Stored

end Redactor
