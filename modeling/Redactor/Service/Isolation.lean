import Redactor.Service.Handler

/-!
# Identifiers do not see each other

What the service does for one identifier it could have done had nobody asked
for another one: without the steps of the other requests a run is still a run,
with the same answers, and every restore for the identifier comes out the same.
-/

namespace Redactor

open Utf8 Fallible VersionedStore

section Isolation

variable {ι : Type} [DecidableEq ι] {state : HttpState}
  {store : ValkeySessionStore} {requests : ι → RedactTextRequest}
  {draws : ι → Draws} {service next : Service ι} {externalId : Text}

/-- What is stored under one key. -/
def recordsAt (key : Text) (records : Records) : Records :=
  fun other => if other = key then records key else none

theorem recordsAt_self (key : Text) (records : Records) :
    recordsAt key records key = records key :=
  if_pos rfl

theorem recordsAt_none (key : Text) :
    recordsAt key (fun _ => none) = fun _ => none := by
  funext other
  simp [recordsAt]

theorem recordsAt_update_self (key : Text) (records : Records)
    (record : Option (SessionEnvelope Text)) :
    recordsAt key (Function.update records key record) =
      Function.update (recordsAt key records) key record := by
  funext other
  by_cases here : other = key
  · rw [here, recordsAt_self, Function.update_self, Function.update_self]
  · rw [Function.update_of_ne here, recordsAt, recordsAt, if_neg here,
      if_neg here]

theorem recordsAt_update_other {key other : Text} (different : key ≠ other)
    (records : Records) (record : Option (SessionEnvelope Text)) :
    recordsAt key (Function.update records other record) =
      recordsAt key records := by
  unfold recordsAt
  rw [Function.update_of_ne different]

theorem versionsBelow_recordsAt {limit : Nat} {records : Records}
    (below : VersionsBelow limit records) (key : Text) :
    VersionsBelow limit (recordsAt key records) := by
  intro other envelope present
  by_cases here : other = key
  · rw [here, recordsAt_self] at present
    exact below key envelope present
  · rw [recordsAt, if_neg here] at present
    cases present

section Operations

variable {records : Records} {stored : Option StoredSession}

theorem loadLatest_recordsAt (runtime : Runtime) :
    store.loadLatest runtime
        (some (recordsAt (store.keyFor runtime externalId) records))
        externalId =
      store.loadLatest runtime (some records) externalId := by
  unfold ValkeySessionStore.loadLatest
  simp only [recordsAt_self]

theorem loadStateful_recordsAt (configured : state.sessionStore = some store) :
    state.loadStateful
        (some (recordsAt
          (store.keyFor state.environment.runtime externalId) records))
        externalId =
      state.loadStateful (some records) externalId := by
  unfold HttpState.loadStateful
  rw [configuredStore_eq_ok.mpr configured]
  simp only [plainError, ok_bind]
  cases accepted : requireExternalId (some externalId) with
  | error message =>
      rfl
  | ok checked =>
      rw [requireExternalId_eq_ok accepted]
      simp only [ok_bind, loadLatest_recordsAt]

theorem saveStateful_recordsAt (configured : state.sessionStore = some store)
    (given : Draws) (artifact : RedactorInstance.RedactionArtifact) :
    state.saveStateful
        (some (recordsAt
          (store.keyFor state.environment.runtime externalId) records))
        given externalId stored artifact =
      (state.saveStateful (some records) given externalId stored
        artifact).map fun saved =>
          saved.map fun (after, version) =>
            (recordsAt (store.keyFor state.environment.runtime externalId)
              after, version) := by
  rw [saveStateful_eq configured, saveStateful_eq configured, recordsAt_self,
    Option.map_map]
  congr 1
  funext outcome
  cases outcome with
  | error error =>
      rfl
  | ok result =>
      simp only [Function.comp_apply, Except.map, storeError,
        recordsAt_update_self]

/-- A restore looks at nothing but the record of its identifier. -/
theorem restoreTextInner_recordsAt
    (configured : state.sessionStore = some store) (text : Text)
    (permits : List Text) :
    state.restoreTextInner
        (some (recordsAt
          (store.keyFor state.environment.runtime externalId) records))
        { text, externalId := some externalId, restorePermits := permits } =
      state.restoreTextInner (some records)
        { text, externalId := some externalId, restorePermits := permits } := by
  simp only [HttpState.restoreTextInner, restoreStored,
    configuredStore_eq_ok.mpr configured, plainError, ok_bind]
  cases decryptPermits state.crypto permits state.sessionPassphrase with
  | error message =>
      rfl
  | ok opened =>
      simp only [ok_bind]
      cases accepted : requireExternalId (some externalId) with
      | error message =>
          rfl
      | ok checked =>
          rw [requireExternalId_eq_ok accepted]
          simp only [ok_bind, loadLatest_recordsAt]

end Operations

/-! ## The service of one identifier -/

/-- The service without the requests of other identifiers and without what they
have stored. -/
def Service.only (service : Service ι) (runtime : Runtime)
    (store : ValkeySessionStore) (requests : ι → RedactTextRequest)
    (externalId : Text) : Service ι where
  records := recordsAt (store.keyFor runtime externalId) service.records
  progress := fun request =>
    if (requests request).externalId = some externalId then
      service.progress request
    else
      .waiting

section Only

variable {runtime : Runtime} {request : ι} {progress : RequestProgress}

omit [DecidableEq ι] in
theorem only_progress
    (named : (requests request).externalId = some externalId) :
    (service.only runtime store requests externalId).progress request =
      service.progress request :=
  if_pos named

theorem only_update_of_named (records : Records)
    (named : (requests request).externalId = some externalId) :
    ({ records
       progress := Function.update service.progress request progress } :
          Service ι).only runtime store requests externalId =
      { records := recordsAt (store.keyFor runtime externalId) records
        progress :=
          Function.update
            (service.only runtime store requests externalId).progress request
            progress } := by
  simp only [Service.only, Service.mk.injEq, true_and]
  funext other
  by_cases here : other = request
  · rw [here, if_pos named, Function.update_self, Function.update_self]
  · rw [Function.update_of_ne here, Function.update_of_ne here]

theorem only_update_of_other (records : Records)
    (other : (requests request).externalId ≠ some externalId)
    (same :
      recordsAt (store.keyFor runtime externalId) records =
        recordsAt (store.keyFor runtime externalId) service.records) :
    ({ records
       progress := Function.update service.progress request progress } :
          Service ι).only runtime store requests externalId =
      service.only runtime store requests externalId := by
  simp only [Service.only, same, Service.mk.injEq, true_and]
  funext asked
  by_cases here : asked = request
  · rw [here, if_neg other, if_neg other]
  · rw [Function.update_of_ne here]

theorem only_set_of_named
    (named : (requests request).externalId = some externalId) :
    (service.set request progress).only runtime store requests externalId =
      (service.only runtime store requests externalId).set request
        progress :=
  only_update_of_named service.records named

theorem only_set_of_other
    (other : (requests request).externalId ≠ some externalId) :
    (service.set request progress).only runtime store requests externalId =
      service.only runtime store requests externalId :=
  only_update_of_other service.records other rfl

omit [DecidableEq ι] in
theorem only_expire (key : Text) :
    (service.expire key).only runtime store requests externalId =
      if key = store.keyFor runtime externalId then
        (service.only runtime store requests externalId).expire key
      else
        service.only runtime store requests externalId := by
  by_cases here : key = store.keyFor runtime externalId
  · rw [if_pos here]
    simp only [Service.only, Service.expire, here, recordsAt_update_self]
  · rw [if_neg here]
    simp only [Service.only, Service.expire,
      recordsAt_update_other (Ne.symm here)]

end Only

omit [DecidableEq ι] in
/-- Whatever refuses a request refuses it among the requests of its identifier
alone. -/
theorem Refuses.only (configured : state.sessionStore = some store)
    {request : ι} {error : ServiceError}
    (named : (requests request).externalId = some externalId)
    (refuses : Refuses state requests draws service request error) :
    Refuses state requests draws
      (service.only state.environment.runtime store requests externalId)
      request error := by
  have progress {reached : RequestProgress}
      (isReached : service.progress request = reached) :
      (service.only state.environment.runtime store requests
        externalId).progress request = reached :=
    (only_progress named).trans isReached
  cases refuses with
  | policy message waiting built =>
      exact .policy message (progress waiting) built
  | load connection redactor otherId _ waiting same otherNamed built
      refused =>
      rw [named] at otherNamed
      cases otherNamed
      rcases same with rfl | rfl
      · exact .load none redactor externalId error (progress waiting)
          (.inl rfl) named built refused
      · refine .load _ redactor externalId error (progress waiting)
          (.inr rfl) named built ?_
        exact (loadStateful_recordsAt configured).trans refused
  | redact stored redactor otherId _ isLoaded otherNamed built refused =>
      exact .redact stored redactor otherId error (progress isLoaded)
        otherNamed built refused
  | save connection stored artifact otherId _ isRedacted same otherNamed
      refused =>
      rw [named] at otherNamed
      cases otherNamed
      rcases same with rfl | rfl
      · exact .save none stored artifact externalId error
          (progress isRedacted) (.inl rfl) named refused
      · refine .save _ stored artifact externalId error
          (progress isRedacted) (.inr rfl) named ?_
        refine (saveStateful_recordsAt configured _ artifact).trans ?_
        rw [refused]
        rfl

/-- A step of a request of the identifier is one of the service of the
identifier, and a step of another request does not show there. -/
theorem only_step (configured : state.sessionStore = some store)
    (apart : DigestsApart state.environment.runtime requests)
    {used : ι} (isUsed : (requests used).externalId = some externalId)
    (step : ServiceStep state requests draws service next) :
    ServiceRun state requests draws
      (service.only state.environment.runtime store requests externalId)
      (next.only state.environment.runtime store requests externalId) := by
  -- a step that stores nothing
  have quiet (moved : ι) (progress : RequestProgress)
      (here : (requests moved).externalId = some externalId →
        ServiceStep state requests draws
          (service.only state.environment.runtime store requests externalId)
          ((service.only state.environment.runtime store requests
            externalId).set moved progress)) :
      ServiceRun state requests draws
        (service.only state.environment.runtime store requests externalId)
        ((service.set moved progress).only state.environment.runtime store
          requests externalId) := by
    by_cases named : (requests moved).externalId = some externalId
    · rw [only_set_of_named named]
      exact .single (here named)
    · rw [only_set_of_other named]
  cases step with
  | load moved otherId checked stored redactor waiting otherNamed built
      loaded =>
      refine quiet moved _ fun named => ?_
      rw [named] at otherNamed
      cases otherNamed
      refine .load _ moved externalId checked stored redactor
        ((only_progress named).trans waiting) named built ?_
      exact (loadStateful_recordsAt configured).trans loaded
  | redact moved stored artifact isLoaded redacts =>
      exact quiet moved _ fun named =>
        .redact _ moved stored artifact
          ((only_progress named).trans isLoaded) redacts
  | save moved otherId version stored artifact records isRedacted otherNamed
      below saved =>
      by_cases named : (requests moved).externalId = some externalId
      · rw [only_update_of_named records named]
        rw [named] at otherNamed
        cases otherNamed
        refine .single (.save _ moved externalId version stored artifact _
          ((only_progress named).trans isRedacted) named
          (versionsBelow_recordsAt below _) ?_)
        refine (saveStateful_recordsAt configured _ artifact).trans ?_
        rw [saved]
        rfl
      · obtain ⟨written, _, isRecords⟩ := saveStateful_eq_ok configured saved
        have different :
            store.keyFor state.environment.runtime externalId ≠
              store.keyFor state.environment.runtime otherId := by
          intro sameKey
          apply named
          rw [keyFor_injective_of_apart apart isUsed otherNamed sameKey]
          exact otherNamed
        rw [only_update_of_other records named]
        rw [isRecords]
        exact recordsAt_update_other different _ _
  | answer moved stored artifact response hasSaved answered =>
      exact quiet moved _ fun named =>
        .answer _ moved stored artifact response
          ((only_progress named).trans hasSaved) answered
  | lose moved stored artifact error hasSaved reason =>
      exact quiet moved _ fun named =>
        .lose _ moved stored artifact error
          ((only_progress named).trans hasSaved) reason
  | refuse moved error unsaved refuses =>
      refine quiet moved _ fun named => .refuse _ moved error ?_ ?_
      · rw [only_progress named]
        exact unsaved
      · exact fun reason isReason =>
          (refuses reason isReason).only configured named
  | expire found seconds key isFound isSeconds =>
      rw [only_expire]
      by_cases here :
          key = store.keyFor state.environment.runtime externalId
      · rw [if_pos here]
        exact .single (.expire _ found seconds key isFound isSeconds)
      · rw [if_neg here]

theorem only_of_reachable (configured : state.sessionStore = some store)
    (apart : DigestsApart state.environment.runtime requests)
    {used : ι} (isUsed : (requests used).externalId = some externalId)
    (reachable : ServiceReachable state requests draws service) :
    ServiceReachable state requests draws
      (service.only state.environment.runtime store requests externalId) := by
  induction reachable with
  | initial =>
      have empty :
          (Service.initial : Service ι).only state.environment.runtime store
            requests externalId = .initial := by
        simp only [Service.only, Service.initial, recordsAt_none, ite_self]
      rw [empty]
      exact .initial
  | step _ step inductionHypothesis =>
      exact inductionHypothesis.after (only_step configured apart isUsed step)

/-- Whatever the requests of an identifier have come to could have come about
had no other request moved, and with the same records every restore for the
identifier has the same outcome. -/
theorem other_identifiers_do_not_interfere
    (configured : state.sessionStore = some store)
    (apart : DigestsApart state.environment.runtime requests)
    (reachable : ServiceReachable state requests draws service)
    {used : ι} (isUsed : (requests used).externalId = some externalId) :
    ∃ alone : Service ι,
      ServiceReachable state requests draws alone ∧
        (∀ request, (requests request).externalId = some externalId →
          alone.progress request = service.progress request) ∧
        (∀ request, (requests request).externalId ≠ some externalId →
          alone.progress request = .waiting) ∧
        ∀ text permits,
          state.restoreTextInner (some alone.records)
              { text
                externalId := some externalId
                restorePermits := permits } =
            state.restoreTextInner (some service.records)
              { text
                externalId := some externalId
                restorePermits := permits } :=
  ⟨service.only state.environment.runtime store requests externalId,
    only_of_reachable configured apart isUsed reachable,
    fun _ named => only_progress named, fun _ other => if_neg other,
    fun text permits => restoreTextInner_recordsAt configured text permits⟩

end Isolation

/-- Requests 0 and 1 without request 2. -/
theorem other_identifiers_do_not_interfere_two_identifiers :
    ∃ (service alone : Service (Fin 3))
      (other : RedactorInstance.RedactionArtifact)
      (response : RedactTextResponse),
      service.progress 2 = .answered none other response ∧
        ServiceReachable sampleState sampleAsked sampleDraws alone ∧
        alone.progress 0 = service.progress 0 ∧
        alone.progress 1 = service.progress 1 ∧
        alone.progress 2 = .waiting := by
  obtain ⟨early, late, _, _, _, other, answers, reachable, _, run, _, _,
    isOther⟩ := sample_in_turn
  obtain ⟨alone, isReachable, same, waiting, _⟩ :=
    @other_identifiers_do_not_interfere (Fin 3) _ sampleState sampleStore
      sampleAsked sampleDraws late (lit "u1") rfl sample_apart
      (reachable.after run) 0 rfl
  exact ⟨late, alone, other, answers 2, isOther, isReachable, same 0 rfl,
    same 1 rfl, waiting 2 (by decide)⟩

end Redactor
