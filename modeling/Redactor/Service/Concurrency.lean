import Redactor.Service.Handler

/-!
# Requests for many identifiers

The requests of one identifier that save stand in a row, whatever the requests
of other identifiers do, and a save is refused exactly when another request of
the same identifier has saved since the session was loaded.
-/

namespace Redactor

open Utf8 Fallible VersionedStore

/-- What the request goes on with; a refused request goes on with nothing. -/
def RequestProgress.GoesOnWith (progress : RequestProgress)
    (stored : Option StoredSession) : Prop :=
  progress = .loaded stored ∨
    (∃ artifact, progress = .redacted stored artifact) ∨
    (∃ artifact, progress.HasSaved stored artifact) ∨
    ∃ error, progress = .refused error

section Stays

variable {ι : Type} [DecidableEq ι] {state : HttpState}
  {requests : ι → RedactTextRequest} {draws : ι → Draws}
  {service next : Service ι} {request : ι} {stored : Option StoredSession}
  {artifact : RedactorInstance.RedactionArtifact}

/-- What one step can make of the progress of a request. -/
inductive ProgressStep (state : HttpState) (request : RedactTextRequest)
    (draws : Draws) : RequestProgress → RequestProgress → Prop
  | load (externalId : Text) (stored : Option StoredSession) :
      request.externalId = some externalId →
      requireExternalId (some externalId) = .ok externalId →
      ProgressStep state request draws .waiting (.loaded stored)
  | redact (stored : Option StoredSession)
      (artifact : RedactorInstance.RedactionArtifact) :
      ProgressStep state request draws (.loaded stored)
        (.redacted stored artifact)
  | save (stored : Option StoredSession)
      (artifact : RedactorInstance.RedactionArtifact) :
      ProgressStep state request draws (.redacted stored artifact)
        (.saved stored artifact)
  | answer (stored : Option StoredSession)
      (artifact : RedactorInstance.RedactionArtifact)
      (response : RedactTextResponse) :
      state.answerStateful artifact draws = .ok response →
      ProgressStep state request draws (.saved stored artifact)
        (.answered stored artifact response)
  | lose (stored : Option StoredSession)
      (artifact : RedactorInstance.RedactionArtifact)
      (error : Option ServiceError) :
      ProgressStep state request draws (.saved stored artifact)
        (.lost stored artifact error)
  | refuse (progress : RequestProgress) (error : Option ServiceError) :
      (∀ stored artifact, ¬ progress.HasSaved stored artifact) →
      ProgressStep state request draws progress (.refused error)

theorem ServiceStep.progress
    (step : ServiceStep state requests draws service next) (request : ι) :
    next.progress request = service.progress request ∨
      ProgressStep state (requests request) (draws request)
        (service.progress request) (next.progress request) := by
  have moves (moved : ι) (progress : RequestProgress)
      (here :
        ProgressStep state (requests moved) (draws moved)
          (service.progress moved) progress) :
      Function.update service.progress moved progress request =
          service.progress request ∨
        ProgressStep state (requests request) (draws request)
          (service.progress request)
          (Function.update service.progress moved progress request) := by
    by_cases same : request = moved
    · rw [same, Function.update_self]
      exact .inr here
    · exact .inl (Function.update_of_ne same _ _)
  cases step with
  | load moved externalId checked stored _ waiting named _ loaded =>
      have accepted := (checked_of_loadStateful loaded).1
      exact moves moved _ (waiting ▸ .load externalId stored named accepted)
  | redact moved stored artifact isLoaded =>
      exact moves moved _ (isLoaded ▸ .redact stored artifact)
  | save moved _ _ stored artifact _ isRedacted =>
      exact moves moved _ (isRedacted ▸ .save stored artifact)
  | answer moved stored artifact response isSaved answered =>
      exact moves moved _
        (isSaved ▸ .answer stored artifact response answered)
  | lose moved stored artifact error isSaved =>
      exact moves moved _ (isSaved ▸ .lose stored artifact error)
  | refuse moved error unsaved =>
      exact moves moved _ (.refuse _ error unsaved)
  | expire =>
      exact .inl rfl

theorem ProgressStep.hasSaved {progress after : RequestProgress}
    {asked : RedactTextRequest} {drawn : Draws}
    (step : ProgressStep state asked drawn progress after)
    (hasSaved : progress.HasSaved stored artifact) :
    after.HasSaved stored artifact := by
  cases step with
  | load | redact | save =>
      simp [RequestProgress.HasSaved] at hasSaved
  | answer _ _ response =>
      simp only [RequestProgress.HasSaved, RequestProgress.saved.injEq,
        reduceCtorEq, exists_false, or_false] at hasSaved
      exact .inr (.inl ⟨response, by rw [hasSaved.1, hasSaved.2]⟩)
  | lose _ _ error =>
      simp only [RequestProgress.HasSaved, RequestProgress.saved.injEq,
        reduceCtorEq, exists_false, or_false] at hasSaved
      exact .inr (.inr ⟨error, by rw [hasSaved.1, hasSaved.2]⟩)
  | refuse _ error unsaved =>
      exact absurd hasSaved (unsaved stored artifact)

theorem ProgressStep.goesOnWith {progress after : RequestProgress}
    {asked : RedactTextRequest} {drawn : Draws}
    (step : ProgressStep state asked drawn progress after)
    (goesOn : progress.GoesOnWith stored) :
    after.GoesOnWith stored := by
  simp only [RequestProgress.GoesOnWith, RequestProgress.HasSaved] at goesOn ⊢
  cases step <;> simp_all

theorem ServiceStep.hasSaved
    (step : ServiceStep state requests draws service next)
    (hasSaved : (service.progress request).HasSaved stored artifact) :
    (next.progress request).HasSaved stored artifact := by
  rcases step.progress request with same | moved
  · rw [same]
    exact hasSaved
  · exact moved.hasSaved hasSaved

theorem ServiceStep.goesOnWith
    (step : ServiceStep state requests draws service next)
    (goesOn : (service.progress request).GoesOnWith stored) :
    (next.progress request).GoesOnWith stored := by
  rcases step.progress request with same | moved
  · rw [same]
    exact goesOn
  · exact moved.goesOnWith goesOn

/-- What a whole run leaves of the requests. -/
theorem run_keeps (run : ServiceRun state requests draws service next) :
    (∀ request stored artifact,
      (service.progress request).HasSaved stored artifact →
      (next.progress request).HasSaved stored artifact) ∧
    ∀ request stored,
      (service.progress request).GoesOnWith stored →
      (next.progress request).GoesOnWith stored := by
  induction run with
  | refl =>
      exact ⟨fun _ _ _ => id, fun _ _ => id⟩
  | tail _ step inductionHypothesis =>
      obtain ⟨saved, goesOn⟩ := inductionHypothesis
      exact
        ⟨fun request stored artifact before =>
          step.hasSaved (saved request stored artifact before),
        fun request stored before =>
          step.goesOnWith (goesOn request stored before)⟩

end Stays

section Row

variable {ι : Type} [DecidableEq ι] {state : HttpState}
  {store : ValkeySessionStore} {requests : ι → RedactTextRequest}
  {draws : ι → Draws} {service : Service ι} {externalId : Text}
  {system :
    KeyedSystem (Option Text) ι RedactionSession
      RedactorInstance.RedactionArtifact}

/-- The versioned session of one identifier. -/
abbrev sessionsOf (requests : ι → RedactTextRequest)
    (system :
      KeyedSystem (Option Text) ι RedactionSession
        RedactorInstance.RedactionArtifact) (externalId : Text) :
    System ι RedactionSession RedactorInstance.RedactionArtifact :=
  system.through (fun request => (requests request).externalId)
    (some externalId)

omit [DecidableEq ι] in
theorem phase_sessionsOf {request : ι}
    (named : (requests request).externalId = some externalId) :
    (sessionsOf requests system externalId).phase request =
      system.phase request :=
  if_pos named

omit [DecidableEq ι] in
theorem sessionsOf_phase {request : ι}
    {phase : Phase RedactionSession RedactorInstance.RedactionArtifact}
    (isPhase : (sessionsOf requests system externalId).phase request = phase)
    (moved : phase ≠ .idle) :
    (requests request).externalId = some externalId ∧
      system.phase request = phase := by
  by_cases named : (requests request).externalId = some externalId
  · exact ⟨named, (phase_sessionsOf named).symm.trans isPhase⟩
  · have idle :
        (sessionsOf requests system externalId).phase request = .idle :=
      if_neg named
    exact absurd (isPhase.symm.trans idle) moved

omit [DecidableEq ι] in
/-- The requests of an identifier that have saved, seen from both sides. -/
theorem mem_row_iff
    (mirrors :
      Mirrors state.environment.runtime store requests service system)
    {order : List ι}
    (inRow :
      InRow storedSession (RedactsTo state requests draws)
        (sessionsOf requests system externalId) order) (request : ι) :
    request ∈ order ↔
      (requests request).externalId = some externalId ∧
        ∃ stored artifact,
          (service.progress request).HasSaved stored artifact := by
  rw [inRow.members]
  constructor
  · intro isSaved
    obtain ⟨seen, artifact, through⟩ := isSaved
    obtain ⟨named, phase⟩ := sessionsOf_phase through (by simp)
    have inStep := mirrors.progress request
    rw [phase] at inStep
    exact ⟨named, _, artifact, inStep.of_saved⟩
  · intro found
    obtain ⟨named, stored, artifact, hasSaved⟩ := found
    obtain ⟨seen, phase, _⟩ := (mirrors.progress request).hasSaved hasSaved
    exact ⟨seen, artifact, (phase_sessionsOf named).trans phase⟩

omit [DecidableEq ι] in
/-- Versions count the requests that have saved. -/
theorem versionOf_eq_length {order : List ι}
    (inRow :
      InRow storedSession (RedactsTo state requests draws)
        (sessionsOf requests system externalId) order) :
    versionOf (system.stored (some externalId)) = order.length :=
  inRow.row.versionOf_eq.trans (Nat.zero_add _)

/-- Every request that has saved leaves a session that the latest one
continues. -/
theorem row_continues
    (reached :
      VersionedStore.Reachable storedSession (RedactsTo state requests draws)
        (sessionsOf requests system externalId)) :
    (∀ last,
      (sessionsOf requests system externalId).stored.map Versioned.value =
          some last →
        StoredWell state.environment.runtime externalId last) ∧
    ∀ request seen artifact,
      (sessionsOf requests system externalId).phase request =
          .saved seen artifact →
        RedactsTo state requests draws request (seen.map Versioned.value)
          artifact ∧
        (∀ before, seen.map Versioned.value = some before →
          StoredWell state.environment.runtime externalId before) ∧
        StoredWell state.environment.runtime externalId artifact.session ∧
        ∃ last,
          (sessionsOf requests system externalId).stored.map
              Versioned.value = some last ∧
            Continues artifact.session last := by
  obtain ⟨order, inRow⟩ := inRow_of_reachable reached
  obtain ⟨wellLatest, _, along⟩ :=
    inRow.row.spreads
      (fun session
          (well :
            StoredWell state.environment.runtime externalId session) =>
        Continues.refl well.formatted.valid)
      (fun _ _ _ first second => first.trans second)
      (fun request _ seen artifact isSaved good => by
        have named := (sessionsOf_phase isSaved (by simp)).1
        have spec :=
          redactsTo_spec named (inRow.saved request seen artifact isSaved)
            good
        exact ⟨spec.1, spec.2.1⟩)
      (by simp)
  refine ⟨wellLatest, ?_⟩
  intro request seen artifact isSaved
  have member := (inRow.members request).mpr ⟨seen, artifact, isSaved⟩
  exact ⟨inRow.saved request seen artifact isSaved,
    along request member seen artifact isSaved⟩

end Row

/-! ## Requests in turn -/

section Turns

variable {ι : Type} [DecidableEq ι] (state : HttpState)
  (requests : ι → RedactTextRequest) (draws : ι → Draws)

/-- The requests have saved one after the other, with consecutive versions,
each what it has made of the session of the one before it. -/
def InTurn (service : Service ι) :
    Nat → Option StoredSession → List ι → Option StoredSession → Prop
  | _, prior, [], latest => latest = prior
  | version, prior, request :: rest, latest =>
      ∃ artifact,
        (service.progress request).HasSaved prior artifact ∧
          RedactsTo state requests draws request
            (prior.map StoredSession.session) artifact ∧
          InTurn service (version + 1)
            (some
              { session := artifact.session
                version := numeral (version + 1) })
            rest latest

variable {state requests draws} {store : ValkeySessionStore}
  {service : Service ι} {externalId : Text}
  {system :
    KeyedSystem (Option Text) ι RedactionSession
      RedactorInstance.RedactionArtifact}

omit [DecidableEq ι] in
theorem session_toStored (seen : Option (Versioned RedactionSession)) :
    (seen.map toStored).map StoredSession.session =
      seen.map Versioned.value := by
  cases seen <;> rfl

omit [DecidableEq ι] in
theorem inTurn_of_row
    (mirrors :
      Mirrors state.environment.runtime store requests service system)
    (made :
      ∀ request seen artifact,
        (sessionsOf requests system externalId).phase request =
            .saved seen artifact →
          RedactsTo state requests draws request
            (seen.map Versioned.value) artifact)
    {order : List ι} {seen latest : Option (Versioned RedactionSession)}
    (row :
      Row storedSession (sessionsOf requests system externalId).phase seen
        order latest) :
    InTurn state requests draws service (versionOf seen) (seen.map toStored)
      order (latest.map toStored) := by
  induction order generalizing seen with
  | nil =>
      exact congrArg _ row
  | cons request rest inductionHypothesis =>
      obtain ⟨artifact, isSaved, later⟩ := row
      have phase := (sessionsOf_phase isSaved (by simp)).2
      have inStep := mirrors.progress request
      rw [phase] at inStep
      refine ⟨artifact, inStep.of_saved, ?_, inductionHypothesis later⟩
      rw [session_toStored]
      exact made request seen artifact isSaved

/-- In every interleaving of requests for any identifiers, the requests of one
identifier that have saved stand in a row with consecutive versions, each of
them working on the session of the one before it, and the store, where records
do not expire, returns the session of the last one. -/
theorem identifiers_in_turn (configured : state.sessionStore = some store)
    (lasting : store.ttlSeconds = none)
    (apart : DigestsApart state.environment.runtime requests)
    (reachable : ServiceReachable state requests draws service)
    (used : ι) (named : (requests used).externalId = some externalId) :
    ∃ order latest,
      order.Nodup ∧
        (∀ request, request ∈ order ↔
          (requests request).externalId = some externalId ∧
            ∃ stored artifact,
              (service.progress request).HasSaved stored artifact) ∧
        InTurn state requests draws service 0 none order latest ∧
        store.loadLatest state.environment.runtime (some service.records)
          externalId = .ok latest := by
  obtain ⟨system, reached, mirrors⟩ :=
    mirrors_of_reachable configured lasting apart reachable
  obtain ⟨order, inRow⟩ :=
    inRow_of_reachable (reached.through (some externalId))
  refine ⟨order, (system.stored (some externalId)).map toStored, inRow.nodup,
    mem_row_iff mirrors inRow, inTurn_of_row mirrors inRow.saved inRow.row,
    ?_⟩
  exact loadLatest_of_holds (mirrors.records used externalId named)

/-- Requests 0 and 1 stand in a row, and request 2 stands elsewhere. -/
theorem identifiers_in_turn_two_identifiers :
    ∃ (service : Service (Fin 3)) (order : List (Fin 3))
      (latest : Option StoredSession),
      0 ∈ order ∧ 1 ∈ order ∧ 2 ∉ order ∧
        InTurn sampleState sampleAsked sampleDraws service 0 none order
          latest ∧
        sampleStore.loadLatest sampleServiceRuntime (some service.records)
          (lit "u1") = .ok latest := by
  obtain ⟨early, late, stored, first, second, other, answers, reachable, _,
    run, isFirst, isSecond, _⟩ := sample_in_turn
  obtain ⟨order, latest, _, members, inTurn, loaded⟩ :=
    @identifiers_in_turn (Fin 3) _ sampleState sampleAsked sampleDraws
      sampleStore late (lit "u1") rfl rfl sample_apart (reachable.after run)
      0 rfl
  refine ⟨late, order, latest, ?_, ?_, ?_, inTurn, loaded⟩
  · exact (members 0).mpr ⟨rfl, none, first, .inr (.inl ⟨_, isFirst⟩)⟩
  · exact (members 1).mpr
      ⟨rfl, some stored, second, .inr (.inl ⟨_, isSecond⟩)⟩
  · intro inside
    have named := ((members 2).mp inside).1
    cases named

/-- The version that was loaded, when the store still has what was loaded. -/
theorem versionOf_eq_of_toStored
    {left right : Option (Versioned RedactionSession)}
    (same : left.map toStored = right.map toStored) :
    versionOf left = versionOf right := by
  cases left with
  | none =>
      cases right with
      | none =>
          rfl
      | some _ =>
          cases same
  | some found =>
      cases right with
      | none =>
          cases same
      | some other =>
          have versions :=
            congrArg StoredSession.version (Option.some.inj same)
          exact numeral_injective versions

/-- What the save of the service comes to. -/
theorem saveStateful_of_conflict
    (configured : state.sessionStore = some store) {records : Records}
    {given : Draws} {stored : Option StoredSession}
    {artifact : RedactorInstance.RedactionArtifact}
    (refused :
      saveLatest state.environment.runtime (store.backend externalId)
          (records (store.keyFor state.environment.runtime externalId))
          given.stored artifact.session
          (stored.map StoredSession.version) =
        some (.error .conflict)) :
    state.saveStateful (some records) given externalId stored artifact =
      some (.error
        { message := lit "failed to save stateful session"
          storeErrors := [.conflict] }) := by
  rw [saveStateful_eq configured, refused]
  rfl

/-- A request of the identifier has saved on the way from one state to
another. -/
def SavedBetween (requests : ι → RedactTextRequest) (externalId : Text)
    (service later : Service ι) : Prop :=
  ∃ other, (requests other).externalId = some externalId ∧
    (∃ stored artifact,
      (later.progress other).HasSaved stored artifact) ∧
    ∀ stored artifact,
      ¬ (service.progress other).HasSaved stored artifact

/-- What the save of a request comes to that goes on with the latest session of
`service`. -/
theorem save_after_load (configured : state.sessionStore = some store)
    (lasting : store.ttlSeconds = none)
    (apart : DigestsApart state.environment.runtime requests)
    {later : Service ι}
    (reachable : ServiceReachable state requests draws service)
    (run : ServiceRun state requests draws service later)
    {request : ι} (named : (requests request).externalId = some externalId)
    {stored : Option StoredSession}
    {artifact : RedactorInstance.RedactionArtifact}
    (current :
      store.loadLatest state.environment.runtime (some service.records)
        externalId = .ok stored)
    (isRedacted : later.progress request = .redacted stored artifact)
    (below : VersionsBelow numberTextLimit later.records) :
    (SavedBetween requests externalId service later →
      state.saveStateful (some later.records) (draws request) externalId
          stored artifact =
        some (.error
          { message := lit "failed to save stateful session"
            storeErrors := [.conflict] })) ∧
    (¬ SavedBetween requests externalId service later →
      ∃ records version,
        state.saveStateful (some later.records) (draws request) externalId
            stored artifact = some (.ok (records, version))) := by
  have keepsSaved := (run_keeps run).1
  obtain ⟨before, reachedBefore, mirrorsBefore⟩ :=
    mirrors_of_reachable configured lasting apart reachable
  obtain ⟨after, reachedAfter, mirrorsAfter⟩ :=
    mirrors_of_reachable configured lasting apart (reachable.after run)
  obtain ⟨orderBefore, inRowBefore⟩ :=
    inRow_of_reachable (reachedBefore.through (some externalId))
  obtain ⟨order, inRow⟩ :=
    inRow_of_reachable (reachedAfter.through (some externalId))
  obtain ⟨seen, phase, isSeen⟩ :=
    (mirrorsAfter.progress request).computed isRedacted
  have through :=
    (@phase_sessionsOf ι requests externalId after request named).trans phase
  have seenIn := (inRow.computed request seen artifact through).1
  have holds := mirrorsAfter.records request externalId named
  have belowHere := fun decoded => below
    (store.keyFor state.environment.runtime externalId) decoded
  have small := versionOf_lt_of_holds holds (by decide) belowHere
  have loadedVersion :
      versionOf seen = versionOf (before.stored (some externalId)) := by
    apply versionOf_eq_of_toStored
    rw [← isSeen]
    have loaded :=
      loadLatest_of_holds (mirrorsBefore.records request externalId named)
    exact Except.ok.inj (current.symm.trans loaded)
  have countBefore := versionOf_eq_length inRowBefore
  have count := versionOf_eq_length inRow
  have included : orderBefore ⊆ order := by
    intro other member
    obtain ⟨otherNamed, found, made, saved⟩ :=
      (mem_row_iff mirrorsBefore inRowBefore other).mp member
    exact (mem_row_iff mirrorsAfter inRow other).mpr
      ⟨otherNamed, found, made, keepsSaved other found made saved⟩
  have conflicts (between : SavedBetween requests externalId service later) :
      state.saveStateful (some later.records) (draws request) externalId
          stored artifact =
        some (.error
          { message := lit "failed to save stateful session"
            storeErrors := [.conflict] }) := by
    obtain ⟨other, otherNamed, ⟨found, made, saved⟩, unsaved⟩ := between
    have member : other ∈ order :=
      (mem_row_iff mirrorsAfter inRow other).mpr
        ⟨otherNamed, found, made, saved⟩
    have outside : other ∉ orderBefore := by
      intro inside
      obtain ⟨_, found, made, saved⟩ :=
        (mem_row_iff mirrorsBefore inRowBefore other).mp inside
      exact unsaved found made saved
    have longer : (other :: orderBefore).length ≤ order.length :=
      (List.subperm_of_subset
        (List.nodup_cons.mpr ⟨outside, inRowBefore.nodup⟩)
        (List.cons_subset.mpr ⟨member, included⟩)).length_le
    rw [List.length_cons] at longer
    apply saveStateful_of_conflict configured
    rw [isSeen]
    apply saveLatest_moved holds belowHere
    · have limit : numberTextLimit ≤ unsignedMax := by decide
      omega
    · omega
  have saves (quiet : ¬ SavedBetween requests externalId service later) :
      ∃ records version,
        state.saveStateful (some later.records) (draws request) externalId
            stored artifact = some (.ok (records, version)) := by
    have back : order ⊆ orderBefore := by
      intro other member
      obtain ⟨otherNamed, found, made, saved⟩ :=
        (mem_row_iff mirrorsAfter inRow other).mp member
      by_contra outside
      refine quiet ⟨other, otherNamed, ⟨found, made, saved⟩, ?_⟩
      intro found made early
      exact outside ((mem_row_iff mirrorsBefore inRowBefore other).mpr
        ⟨otherNamed, found, made, early⟩)
    have shorter : order.length ≤ orderBefore.length :=
      (List.subperm_of_subset inRow.nodup back).length_le
    have longer : orderBefore.length ≤ order.length :=
      (List.subperm_of_subset inRowBefore.nodup included).length_le
    have latest : after.stored (some externalId) = seen := by
      apply seenIn.eq_of_versionOf_eq inRow.row
      change versionOf (after.stored (some externalId)) = versionOf seen
      omega
    rw [latest] at holds
    obtain ⟨⟨written, version⟩, done⟩ :=
      @saveLatest_current Text state.environment.runtime _ _ seen
        (draws request).stored artifact.session holds belowHere
    refine
      ⟨Function.update later.records
        (store.keyFor state.environment.runtime externalId) (some written),
        version, ?_⟩
    rw [saveStateful_eq configured, isSeen, done]
    rfl
  exact ⟨conflicts, saves⟩

/-- Request 1 saves while request 0 redacts. -/
theorem sample_overtaken :
    ∃ (later : Service (Fin 3))
      (artifact : RedactorInstance.RedactionArtifact),
      ServiceReachable sampleState sampleAsked sampleDraws
          (Service.initial.set 0 (.loaded none)) ∧
        ServiceRun sampleState sampleAsked sampleDraws
          (Service.initial.set 0 (.loaded none)) later ∧
        later.progress 0 = .redacted none artifact ∧
        VersionsBelow numberTextLimit later.records ∧
        SavedBetween sampleAsked (lit "u1")
          (Service.initial.set 0 (.loaded none)) later := by
  obtain ⟨first, _, anew, _, redactsFirst, _, redactsAnew, _⟩ :=
    sample_redacts
  have reachable :
      ServiceReachable sampleState sampleAsked sampleDraws
        (Service.initial.set 0 (.loaded none)) :=
    .step .initial
      (.load .initial 0 (lit "u1") (lit "u1") none sampleMailRedactor rfl rfl
        (withContext_eq_ok.mpr tryBuild_sampleMail) rfl)
  obtain ⟨records, response, run, savedOver⟩ :=
    @sample_answered_alone _ reachable 1 rfl (sample_below _) none
      (sample_loaded_nothing _) anew redactsAnew
  have below := savedOver.versions 1 (by decide) (sample_below 1)
  obtain ⟨later, toLater, isRedacted, answered, belowLater⟩ :
      ∃ later,
        ServiceRun sampleState sampleAsked sampleDraws
            (Service.initial.set 0 (.loaded none)) later ∧
          later.progress 0 = .redacted none first ∧
          later.progress 1 = .answered none anew response ∧
          VersionsBelow 2 later.records :=
    ⟨_, run.tail (.redact _ 0 none first rfl redactsFirst), rfl, rfl, below⟩
  refine ⟨later, first, reachable, toLater, isRedacted,
    belowLater.mono (by decide), 1, rfl,
    ⟨none, anew, .inr (.inl ⟨response, answered⟩)⟩, ?_⟩
  simp [RequestProgress.HasSaved, Service.set, Service.initial]

/-- Where records do not expire, a request that has loaded the latest session of
`service` is refused by the store later on, with a conflict, exactly when
another request of its identifier has saved in between; otherwise it saves. -/
theorem save_conflicts_iff_overtaken
    (configured : state.sessionStore = some store)
    (lasting : store.ttlSeconds = none)
    (apart : DigestsApart state.environment.runtime requests)
    {later : Service ι}
    (reachable : ServiceReachable state requests draws service)
    (run : ServiceRun state requests draws service later)
    {request : ι} (named : (requests request).externalId = some externalId)
    {stored stored' : Option StoredSession}
    {artifact : RedactorInstance.RedactionArtifact}
    (isLoaded : service.progress request = .loaded stored)
    (current :
      store.loadLatest state.environment.runtime (some service.records)
        externalId = .ok stored)
    (isRedacted : later.progress request = .redacted stored' artifact)
    (below : VersionsBelow numberTextLimit later.records) :
    (state.saveStateful (some later.records) (draws request) externalId
          stored' artifact =
        some (.error
          { message := lit "failed to save stateful session"
            storeErrors := [.conflict] }) ↔
      SavedBetween requests externalId service later) ∧
    (¬ SavedBetween requests externalId service later →
      ∃ records version,
        state.saveStateful (some later.records) (draws request) externalId
            stored' artifact = some (.ok (records, version))) := by
  -- the request still has what it has loaded
  have same : stored' = stored := by
    have goesOn := (run_keeps run).2 request stored (.inl isLoaded)
    rw [isRedacted] at goesOn
    simpa [RequestProgress.GoesOnWith, RequestProgress.HasSaved] using goesOn
  subst same
  obtain ⟨conflicts, saves⟩ :=
    save_after_load configured lasting apart reachable run named current
      isRedacted below
  refine ⟨⟨?_, conflicts⟩, saves⟩
  intro refused
  by_contra quiet
  obtain ⟨records, version, saved⟩ := saves quiet
  rw [refused] at saved
  cases saved

end Turns

/-- The save of request 0 after the one of request 1. -/
theorem save_conflicts_iff_overtaken_in_between :
    ∃ (service later : Service (Fin 3))
      (artifact : RedactorInstance.RedactionArtifact),
      service.progress 0 = .loaded none ∧
        later.progress 0 = .redacted none artifact ∧
        SavedBetween sampleAsked (lit "u1") service later ∧
        sampleState.saveStateful (some later.records) (sampleDraws 0)
            (lit "u1") none artifact =
          some (.error
            { message := lit "failed to save stateful session"
              storeErrors := [.conflict] }) := by
  obtain ⟨later, artifact, reachable, run, isRedacted, below, between⟩ :=
    sample_overtaken
  have decided :=
    (@save_conflicts_iff_overtaken (Fin 3) _ sampleState sampleAsked
      sampleDraws sampleStore (Service.initial.set 0 (.loaded none))
      (lit "u1") rfl rfl sample_apart later reachable run 0 rfl none none
      artifact rfl (sample_loaded_nothing _) isRedacted below).1
  exact ⟨_, later, artifact, rfl, isRedacted, between, decided.mpr between⟩

end Redactor
