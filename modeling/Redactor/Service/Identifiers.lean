import Redactor.Service.Runs
import Redactor.Session.Separation

/-!
# One versioned session for every identifier

The keys of the store are digests, and the digests of the identifiers in use
are distinct.  So the service keeps one versioned session for every identifier,
and every step of the service is a step of one of them, or does not show.
-/

namespace Redactor

open Utf8 Fallible VersionedStore

/-- No two identifiers in use have one digest. -/
def DigestsApart {ι : Type} (runtime : Runtime)
    (requests : ι → RedactTextRequest) : Prop :=
  ∀ first second left right,
    (requests first).externalId = some left →
    (requests second).externalId = some right →
    runtime.sha256Hex left = runtime.sha256Hex right →
    left = right

section Save

variable {σ : Type} {runtime : Runtime} {backend : StoreBackend σ}
  {current : Option (SessionEnvelope σ)}
  {stored seen : Option (Versioned RedactionSession)} {draw : Nat}
  {session : RedactionSession}

theorem numeral_ne_nil (number : Nat) : numeral number ≠ [] := by
  simp [numeral, Nat.toDigits_ne_nil]

theorem versionOf_lt_of_holds (holds : Holds backend current seen)
    {limit : Nat} (positive : 0 < limit)
    (below : ∀ decoded, current = some decoded → decoded.version < limit) :
    versionOf seen < limit := by
  cases seen with
  | none =>
      exact positive
  | some versioned =>
      cases current with
      | none =>
          exact holds.elim
      | some decoded =>
          have small := below decoded rfl
          rw [holds.1] at small
          exact small

/-- A save over the version that was seen succeeds. -/
theorem saveLatest_current (holds : Holds backend current seen)
    (below : ∀ decoded, current = some decoded →
      decoded.version < numberTextLimit) :
    ∃ saved,
      saveLatest runtime backend current draw session
          ((seen.map toStored).map StoredSession.version) =
        some (.ok saved) := by
  cases seen with
  | none =>
      cases current with
      | none =>
          exact ⟨_, rfl⟩
      | some _ =>
          exact holds.elim
  | some found =>
      cases current with
      | none =>
          exact holds.elim
      | some decoded =>
          obtain ⟨sameVersion, _⟩ := holds
          have small := below decoded rfl
          have written := backend.numberText_of_lt _ small
          rw [sameVersion] at small written
          have fits : found.version < unsignedMax :=
            Nat.lt_trans small (by decide)
          have read :
              parseUnsigned unsignedMax (numeral found.version) =
                some found.version :=
            parseUnsigned_numeral (Nat.le_of_lt fits)
          simp only [saveLatest, nextVersion, Option.map_some, toStored, read,
            increment_of_lt fits, Option.bind_eq_bind, Option.bind_some,
            ok_bind, saveScript, sameVersion, written, Option.getD_some,
            ne_eq, not_true_eq_false, if_false]
          exact ⟨_, rfl⟩

/-- A save over another version is refused. -/
theorem saveLatest_moved (holds : Holds backend current stored)
    (below : ∀ decoded, current = some decoded →
      decoded.version < numberTextLimit)
    (fits : versionOf seen < unsignedMax)
    (moved : versionOf stored ≠ versionOf seen) :
    saveLatest runtime backend current draw session
        ((seen.map toStored).map StoredSession.version) =
      some (.error .conflict) := by
  cases seen with
  | none =>
      cases stored with
      | none =>
          exact absurd rfl moved
      | some versioned =>
          cases current with
          | none =>
              exact holds.elim
          | some decoded =>
              have written :=
                backend.numberText_of_lt _ (below decoded rfl)
              simp only [saveLatest, nextVersion, Option.map_none,
                Option.bind_eq_bind, Option.bind_some, ok_bind, saveScript,
                written, Option.getD_none, ne_eq, numeral_ne_nil,
                not_false_eq_true, if_true]
              rfl
  | some found =>
      have read :
          parseUnsigned unsignedMax (numeral found.version) =
            some found.version :=
        parseUnsigned_numeral (Nat.le_of_lt fits)
      have next :
          nextVersion runtime (some (numeral found.version)) =
            some (.ok (found.version + 1)) := by
        have incremented := @increment_of_lt runtime _ fits
        simp only [nextVersion, read]
        exact congrArg (Option.map Except.ok) incremented
      simp only [saveLatest, Option.map_some, toStored, next,
        Option.bind_eq_bind, Option.bind_some, ok_bind, Option.getD_some]
      cases current with
      | none =>
          simp only [saveScript, ne_eq, numeral_ne_nil, not_false_eq_true,
            if_true]
          rfl
      | some decoded =>
          cases stored with
          | none =>
              exact holds.elim
          | some versioned =>
              have written :=
                backend.numberText_of_lt _ (below decoded rfl)
              have different :
                  numeral decoded.version ≠ numeral found.version := by
                intro same
                apply moved
                have versions := numeral_injective same
                rw [holds.1] at versions
                exact versions
              simp only [saveScript, written, ne_eq, different,
                not_false_eq_true, if_true]
              rfl

end Save

section Operations

variable {state : HttpState} {store : ValkeySessionStore} {records : Records}
  {externalId : Text} {stored : Option StoredSession}

theorem requireExternalId_eq_ok {checked : Text}
    (accepted : requireExternalId (some externalId) = .ok checked) :
    checked = externalId := by
  unfold requireExternalId at accepted
  by_cases blank : (!(trim externalId).isEmpty) = true
  · rw [Option.filter_some, if_pos blank] at accepted
    simp only at accepted
    split at accepted
    · cases accepted
    · exact (Except.ok.inj accepted).symm
  · rw [Option.filter_some, if_neg blank] at accepted
    cases accepted

theorem configuredStore_eq_ok :
    state.configuredStore = .ok store ↔ state.sessionStore = some store :=
  context_eq_ok

theorem loadStateful_eq_ok (configured : state.sessionStore = some store)
    {checked : Text}
    (loaded :
      state.loadStateful (some records) externalId = .ok (checked, stored)) :
    checked = externalId ∧
      loadLatest (store.backend externalId)
          (records (store.keyFor state.environment.runtime externalId)) =
        .ok stored := by
  obtain ⟨found, isFound, rest⟩ := bind_eq_ok.mp loaded
  rw [plainError_eq_ok, configuredStore_eq_ok, configured] at isFound
  cases isFound
  obtain ⟨given, isGiven, later⟩ := bind_eq_ok.mp rest
  obtain ⟨latest, isLatest, last⟩ := bind_eq_ok.mp later
  cases last
  have same := requireExternalId_eq_ok (plainError_eq_ok.mp isGiven)
  rw [same] at isLatest
  exact ⟨same, storeError_eq_ok.mp isLatest⟩

theorem checked_of_loadStateful {connection : Option Records}
    {checked : Text}
    (loaded :
      state.loadStateful connection externalId = .ok (checked, stored)) :
    requireExternalId (some externalId) = .ok externalId ∧
      checked = externalId := by
  obtain ⟨_, _, rest⟩ := bind_eq_ok.mp loaded
  obtain ⟨given, isGiven, later⟩ := bind_eq_ok.mp rest
  obtain ⟨_, _, last⟩ := bind_eq_ok.mp later
  cases last
  have accepted := plainError_eq_ok.mp isGiven
  have same := requireExternalId_eq_ok accepted
  rw [same] at accepted
  exact ⟨accepted, same⟩

/-- A save of the service is a save under the key of the identifier. -/
theorem saveStateful_eq (configured : state.sessionStore = some store)
    (draws : Draws) (artifact : RedactorInstance.RedactionArtifact) :
    state.saveStateful (some records) draws externalId stored artifact =
      (saveLatest state.environment.runtime (store.backend externalId)
          (records (store.keyFor state.environment.runtime externalId))
          draws.stored artifact.session
          (stored.map StoredSession.version)).map fun saved =>
        storeError (lit "failed to save stateful session")
          (saved.map fun (written, version) =>
            (Function.update records
              (store.keyFor state.environment.runtime externalId)
              (some written), version)) := by
  unfold HttpState.saveStateful
  rw [configuredStore_eq_ok.mpr configured]
  simp only [ValkeySessionStore.saveLatest, Option.map_map]
  rfl

theorem saveStateful_eq_ok (configured : state.sessionStore = some store)
    {draws : Draws} {artifact : RedactorInstance.RedactionArtifact}
    {after : Records} {version : Text}
    (saved :
      state.saveStateful (some records) draws externalId stored artifact =
        some (.ok (after, version))) :
    ∃ written,
      saveLatest state.environment.runtime (store.backend externalId)
          (records (store.keyFor state.environment.runtime externalId))
          draws.stored artifact.session
          (stored.map StoredSession.version) =
        some (.ok (written, version)) ∧
      after =
        Function.update records
          (store.keyFor state.environment.runtime externalId)
          (some written) := by
  rw [saveStateful_eq configured, Option.map_eq_some_iff] at saved
  obtain ⟨outcome, done, isOk⟩ := saved
  rw [storeError_eq_ok] at isOk
  cases outcome with
  | error error =>
      cases isOk
  | ok result =>
      obtain ⟨written, version'⟩ := result
      cases isOk
      exact ⟨written, done, rfl⟩

theorem keyFor_injective_of_apart {ι : Type} {runtime : Runtime}
    {requests : ι → RedactTextRequest}
    (apart : DigestsApart runtime requests) {first second : ι}
    {left right : Text}
    (firstNamed : (requests first).externalId = some left)
    (secondNamed : (requests second).externalId = some right)
    (same : store.keyFor runtime left = store.keyFor runtime right) :
    left = right :=
  apart first second left right firstNamed secondNamed
    (List.append_cancel_left same)

end Operations

/-! ## The service and the versioned sessions -/

/-- The session that an artifact stores. -/
def storedSession (artifact : RedactorInstance.RedactionArtifact) :
    RedactionSession :=
  artifact.session

/-- A request is as far as a client that has seen the same. -/
def InStep : RequestProgress →
    Phase RedactionSession RedactorInstance.RedactionArtifact → Prop
  | .waiting, .idle => True
  | .loaded stored, .loaded seen => stored = seen.map toStored
  | .redacted stored artifact, .computed seen outcome =>
      stored = seen.map toStored ∧ artifact = outcome
  | .saved stored artifact, .saved seen outcome =>
      stored = seen.map toStored ∧ artifact = outcome
  | .answered stored artifact _, .saved seen outcome =>
      stored = seen.map toStored ∧ artifact = outcome
  | .lost stored artifact _, .saved seen outcome =>
      stored = seen.map toStored ∧ artifact = outcome
  | .refused _, .failed => True
  | _, _ => False

section InStep

variable {progress : RequestProgress}
  {phase : Phase RedactionSession RedactorInstance.RedactionArtifact}

theorem InStep.idle (follows : InStep progress phase)
    (waiting : progress = .waiting) : phase = .idle := by
  subst waiting
  cases phase <;> first | rfl | exact follows.elim

theorem InStep.loaded (follows : InStep progress phase)
    {stored : Option StoredSession} (isLoaded : progress = .loaded stored) :
    ∃ seen, phase = .loaded seen ∧ stored = seen.map toStored := by
  subst isLoaded
  cases phase <;> first | exact ⟨_, rfl, follows⟩ | exact follows.elim

theorem InStep.computed (follows : InStep progress phase)
    {stored : Option StoredSession}
    {artifact : RedactorInstance.RedactionArtifact}
    (isRedacted : progress = .redacted stored artifact) :
    ∃ seen, phase = .computed seen artifact ∧
      stored = seen.map toStored := by
  subst isRedacted
  cases phase with
  | computed seen outcome =>
      obtain ⟨same, rfl⟩ := follows
      exact ⟨seen, rfl, same⟩
  | idle | loaded | saved | failed =>
      exact follows.elim

theorem InStep.hasSaved (follows : InStep progress phase)
    {stored : Option StoredSession}
    {artifact : RedactorInstance.RedactionArtifact}
    (hasSaved : progress.HasSaved stored artifact) :
    ∃ seen, phase = .saved seen artifact ∧ stored = seen.map toStored := by
  have ofSaved {seen : Option (Versioned RedactionSession)}
      {outcome : RedactorInstance.RedactionArtifact}
      (same : stored = seen.map toStored ∧ artifact = outcome) :
      ∃ found, Phase.saved seen outcome = .saved found artifact ∧
        stored = found.map toStored :=
    ⟨seen, by rw [same.2], same.1⟩
  rcases hasSaved with rfl | ⟨response, rfl⟩ | ⟨error, rfl⟩ <;>
    cases phase <;> first | exact ofSaved follows | exact follows.elim

theorem InStep.of_saved {seen : Option (Versioned RedactionSession)}
    {artifact : RedactorInstance.RedactionArtifact}
    (follows : InStep progress (.saved seen artifact)) :
    progress.HasSaved (seen.map toStored) artifact := by
  cases progress with
  | saved stored outcome =>
      obtain ⟨rfl, rfl⟩ := follows
      exact .inl rfl
  | answered stored outcome response =>
      obtain ⟨rfl, rfl⟩ := follows
      exact .inr (.inl ⟨response, rfl⟩)
  | lost stored outcome error =>
      obtain ⟨rfl, rfl⟩ := follows
      exact .inr (.inr ⟨error, rfl⟩)
  | waiting | loaded | redacted | refused =>
      exact follows.elim

end InStep

section Mirrors

variable {ι : Type} [DecidableEq ι] {state : HttpState}
  {store : ValkeySessionStore} {requests : ι → RedactTextRequest}
  {draws : ι → Draws}

/-- The service keeps under the key of every identifier what the versioned
sessions keep for it, and its requests are as far as the clients. -/
structure Mirrors (runtime : Runtime) (store : ValkeySessionStore)
    (requests : ι → RedactTextRequest) (service : Service ι)
    (system :
      KeyedSystem (Option Text) ι RedactionSession
        RedactorInstance.RedactionArtifact) : Prop where
  records :
    ∀ request externalId, (requests request).externalId = some externalId →
      Holds (store.backend externalId)
        (service.records (store.keyFor runtime externalId))
        (system.stored (some externalId))
  progress :
    ∀ request, InStep (service.progress request) (system.phase request)

variable {service next : Service ι}
  {system :
    KeyedSystem (Option Text) ι RedactionSession
      RedactorInstance.RedactionArtifact}
  {runtime : Runtime}

theorem Mirrors.set (mirrors : Mirrors runtime store requests service system)
    {request : ι} {progress : RequestProgress}
    {phase : Phase RedactionSession RedactorInstance.RedactionArtifact}
    (follows : InStep progress phase) :
    Mirrors runtime store requests (service.set request progress)
      (system.set request phase) := by
  refine ⟨mirrors.records, ?_⟩
  intro other
  by_cases same : other = request
  · rw [same]
    simpa [Service.set, KeyedSystem.set] using follows
  · simp only [Service.set, KeyedSystem.set, Function.update_of_ne same]
    exact mirrors.progress other

/-- A step of a request that has saved does not show. -/
theorem Mirrors.settle
    (mirrors : Mirrors runtime store requests service system)
    {request : ι} {stored : Option StoredSession}
    {artifact : RedactorInstance.RedactionArtifact}
    (hasSaved : service.progress request = .saved stored artifact)
    {progress : RequestProgress}
    (follows :
      ∀ seen, stored = seen.map toStored →
        InStep progress (.saved seen artifact)) :
    Mirrors runtime store requests (service.set request progress) system := by
  obtain ⟨seen, phase, same⟩ :=
    (mirrors.progress request).hasSaved (Or.inl hasSaved)
  refine ⟨mirrors.records, ?_⟩
  intro other
  by_cases here : other = request
  · rw [here, phase]
    simpa [Service.set] using follows seen same
  · simp only [Service.set, Function.update_of_ne here]
    exact mirrors.progress other

omit [DecidableEq ι] in
/-- When a record expires, the versioned session of its identifier is gone. -/
theorem Mirrors.expire
    (mirrors : Mirrors runtime store requests service system) (key : Text) :
    Mirrors runtime store requests (service.expire key)
      { system with
        stored := fun name =>
          if name.map (store.keyFor runtime) = some key then
            none
          else
            system.stored name } := by
  refine ⟨?_, mirrors.progress⟩
  intro request externalId named
  by_cases here : store.keyFor runtime externalId = key
  · simp [Service.expire, Holds, here]
  · simpa [Service.expire, here] using
      mirrors.records request externalId named

/-- Every step of the service is a step of the versioned sessions, or does not
show, or a record expires. -/
theorem mirrors_step (configured : state.sessionStore = some store)
    (apart : DigestsApart state.environment.runtime requests)
    (mirrors :
      Mirrors state.environment.runtime store requests service system)
    (step : ServiceStep state requests draws service next) :
    ∃ after,
      (after = system ∨
        KeyedStep (fun request => (requests request).externalId)
          storedSession (RedactsTo state requests draws) system after ∨
        store.ttlSeconds ≠ none) ∧
      Mirrors state.environment.runtime store requests next after := by
  cases step with
  | load request externalId checked stored redactor waiting named built
      loaded =>
      have idle := (mirrors.progress request).idle waiting
      have found := (loadStateful_eq_ok configured loaded).2
      rw [loadLatest_of_holds (mirrors.records request externalId named)]
        at found
      refine ⟨_, .inr (.inl (.load system request idle)),
        mirrors.set ?_⟩
      rw [named]
      exact (Except.ok.inj found).symm
  | redact request stored artifact isLoaded redacts =>
      obtain ⟨seen, phase, same⟩ :=
        (mirrors.progress request).loaded isLoaded
      have prior :
          stored.map StoredSession.session =
            seen.map Versioned.value := by
        rw [same]
        cases seen <;> rfl
      rw [prior] at redacts
      exact
        ⟨_, .inr (.inl (.compute system request seen artifact phase redacts)),
          mirrors.set ⟨same, rfl⟩⟩
  | save request externalId version stored artifact records isRedacted named
      below saved =>
      obtain ⟨seen, phase, same⟩ :=
        (mirrors.progress request).computed isRedacted
      obtain ⟨written, done, isRecords⟩ := saveStateful_eq_ok configured saved
      rw [same] at done
      obtain ⟨current, _, holds⟩ :=
        @holds_of_saveLatest _ state.environment.runtime _ _
          (system.stored (some externalId)) seen (plainArtifact artifact) _ _
          _ (mirrors.records request externalId named)
          (fun envelope => below _ envelope) done
      rw [← named] at current
      refine
        ⟨_, .inr (.inl (.save system request seen artifact phase current)),
          ?_, ?_⟩
      · intro other otherId otherNamed
        rw [isRecords]
        by_cases here : otherId = externalId
        · simp only [here, named, Function.update_self]
          exact holds
        · have keys :
              store.keyFor state.environment.runtime otherId ≠
                store.keyFor state.environment.runtime externalId :=
            fun sameKey =>
              here (keyFor_injective_of_apart apart otherNamed named sameKey)
          have names :
              (some otherId : Option Text) ≠
                (requests request).externalId := by
            rw [named]
            exact fun sameName => here (Option.some.inj sameName)
          simp only [Function.update_of_ne keys, Function.update_of_ne names]
          exact mirrors.records other otherId otherNamed
      · intro other
        by_cases here : other = request
        · rw [here]
          simpa [InStep] using same
        · simp only [Function.update_of_ne here]
          exact mirrors.progress other
  | answer request stored artifact response hasSaved answered =>
      exact ⟨system, .inl rfl,
        mirrors.settle hasSaved fun seen same => ⟨same, rfl⟩⟩
  | lose request stored artifact error hasSaved reason =>
      exact ⟨system, .inl rfl,
        mirrors.settle hasSaved fun seen same => ⟨same, rfl⟩⟩
  | refuse request error unsaved reason =>
      have open_ :
          ∀ seen outcome, system.phase request ≠ .saved seen outcome := by
        intro seen outcome phase
        have follows := mirrors.progress request
        rw [phase] at follows
        exact unsaved _ _ follows.of_saved
      exact ⟨_, .inr (.inl (.fail system request open_)),
        mirrors.set trivial⟩
  | expire found seconds key isFound isSeconds =>
      rw [configured] at isFound
      cases isFound
      exact ⟨_, .inr (.inr (by simp [isSeconds])), mirrors.expire key⟩

/-- Every reachable service mirrors some versioned sessions. -/
theorem exists_mirrors (configured : state.sessionStore = some store)
    (apart : DigestsApart state.environment.runtime requests)
    (reachable : ServiceReachable state requests draws service) :
    ∃ system,
      Mirrors state.environment.runtime store requests service system := by
  induction reachable with
  | initial =>
      exact ⟨.initial, fun _ _ _ => trivial, fun _ => trivial⟩
  | step _ step inductionHypothesis =>
      obtain ⟨system, mirrors⟩ := inductionHypothesis
      obtain ⟨after, _, mirrored⟩ := mirrors_step configured apart mirrors step
      exact ⟨after, mirrored⟩

/-- Where records do not expire, every reachable service mirrors reachable
versioned sessions. -/
theorem mirrors_of_reachable (configured : state.sessionStore = some store)
    (lasting : store.ttlSeconds = none)
    (apart : DigestsApart state.environment.runtime requests)
    (reachable : ServiceReachable state requests draws service) :
    ∃ system,
      KeyedReachable (fun request => (requests request).externalId)
          storedSession (RedactsTo state requests draws) system ∧
        Mirrors state.environment.runtime store requests service system := by
  induction reachable with
  | initial =>
      exact ⟨.initial, .initial, fun _ _ _ => trivial, fun _ => trivial⟩
  | step _ step inductionHypothesis =>
      obtain ⟨system, reached, mirrors⟩ := inductionHypothesis
      obtain ⟨after, stepped, mirrored⟩ :=
        mirrors_step configured apart mirrors step
      rcases stepped with same | stepped | expires
      · rw [same] at mirrored
        exact ⟨system, reached, mirrored⟩
      · exact ⟨after, .step reached stepped, mirrored⟩
      · exact absurd lasting expires

end Mirrors

end Redactor
