import Redactor.Library.ConditionalWrites
import Redactor.Service.Succession

/-!
# Sessions that expire

With a time to live the key of an external identifier may vanish between a load
and the save that follows it.  The versions then begin again at one, and a
version that a client still holds can come up for another session.
-/

namespace Redactor

open Utf8 Fallible ConditionalWrites

/-- A client between a load and its save has the answer of the load; `record`
is what was stored at the load. -/
inductive StoreClient (σ : Type) where
  | idle
  | loaded (record : Option (Record (SessionEnvelope σ)))
      (answer : Option StoredSession)

/-- The key of one external identifier, and its clients. -/
structure ExpiringStore (ι σ : Type) where
  stored : Option (Record (SessionEnvelope σ))
  writes : Nat
  clients : ι → StoreClient σ

inductive StoreEvent (ι : Type) where
  | load (client : ι)
  | save (client : ι) (draw : Nat) (session : RedactionSession)
  | giveUp (client : ι)
  | expire

section Steps

variable {ι σ : Type} [DecidableEq ι] (runtime : Runtime)
  (backend : StoreBackend σ)

namespace ExpiringStore

/-- The value of the key. -/
def envelope (store : ExpiringStore ι σ) : Option (SessionEnvelope σ) :=
  store.stored.map Record.value

def set (store : ExpiringStore ι σ) (client : ι) (state : StoreClient σ) :
    ExpiringStore ι σ :=
  { store with clients := Function.update store.clients client state }

/-- The store after a save that succeeds. -/
def save (store : ExpiringStore ι σ) (client : ι)
    (written : SessionEnvelope σ) : ExpiringStore ι σ where
  stored := some { stamp := store.writes, value := written }
  writes := store.writes + 1
  clients := Function.update store.clients client .idle

def initial : ExpiringStore ι σ where
  stored := none
  writes := 0
  clients := fun _ => .idle

end ExpiringStore

inductive StoreStep :
    ExpiringStore ι σ → StoreEvent ι → ExpiringStore ι σ → Prop
  | load (store : ExpiringStore ι σ) (client : ι)
      (answer : Option StoredSession) :
      loadLatest backend store.envelope = .ok answer →
      StoreStep store (.load client)
        (store.set client (.loaded store.stored answer))
  | save (store : ExpiringStore ι σ) (client : ι) (draw : Nat)
      (session : RedactionSession)
      (record : Option (Record (SessionEnvelope σ)))
      (answer : Option StoredSession) (written : SessionEnvelope σ)
      (version : Text) :
      store.clients client = .loaded record answer →
      saveLatest runtime backend store.envelope draw session
          (answer.map StoredSession.version) =
        some (.ok (written, version)) →
      StoreStep store (.save client draw session) (store.save client written)
  | giveUp (store : ExpiringStore ι σ) (client : ι) :
      StoreStep store (.giveUp client) (store.set client .idle)
  | expire (store : ExpiringStore ι σ) :
      StoreStep store .expire { store with stored := none }

/-- The stores that are reached by steps that are all allowed. -/
inductive StoreReachedBy
    (allowed : ExpiringStore ι σ → StoreEvent ι → Prop) :
    ExpiringStore ι σ → Prop
  | initial : StoreReachedBy allowed .initial
  | step {store next : ExpiringStore ι σ} {event : StoreEvent ι} :
      StoreReachedBy allowed store → allowed store event →
      StoreStep runtime backend store event next →
      StoreReachedBy allowed next

/-- No save writes a version that the script takes for one which another client
still holds. -/
def KeepsVersions (store : ExpiringStore ι σ) : StoreEvent ι → Prop
  | .save client _ _ =>
      ∀ record answer, store.clients client = .loaded record answer →
        ∀ other held otherAnswer, other ≠ client →
          store.clients other = .loaded (some held) otherAnswer →
          backend.numberText (versionOf SessionEnvelope.version record + 1) ≠
            numeral held.value.version
  | _ => True

/-- The key expires only while no client holds a record. -/
def ExpiresUnheld (store : ExpiringStore ι σ) : StoreEvent ι → Prop
  | .expire =>
      ∀ client record answer,
        store.clients client ≠ .loaded (some record) answer
  | _ => True

end Steps

/-- Numbers from the limit on are written with an exponent. -/
def StoreBackend.WritesExponents {σ : Type} (backend : StoreBackend σ) :
    Prop :=
  ∀ version, numberTextLimit ≤ version → 'e' ∈ backend.numberText version

section Save

variable {σ : Type} {runtime : Runtime} {backend : StoreBackend σ}

theorem not_mem_numeral (version : Nat) : 'e' ∉ numeral version :=
  fun member => absurd (isDigit_of_mem_numeral member) (by decide)

/-- The script reads a version as itself, and takes no other one for it. -/
theorem numberText_eq_numeral_iff (exponents : backend.WritesExponents)
    {current seen : Nat} :
    backend.numberText current = numeral seen ↔
      current = seen ∧ seen < numberTextLimit := by
  constructor
  · intro same
    have small : current < numberTextLimit := by
      by_contra large
      have exponent := exponents current (Nat.le_of_not_lt large)
      rw [same] at exponent
      exact not_mem_numeral seen exponent
    rw [backend.numberText_of_lt current small] at same
    have equal := numeral_injective same
    exact ⟨equal, equal ▸ small⟩
  · intro equal
    rw [equal.1]
    exact backend.numberText_of_lt seen equal.2

/-- The script only passes over versions that are written in full. -/
theorem below_of_saveLatest (exponents : backend.WritesExponents)
    {current : Option (SessionEnvelope σ)} {draw : Nat}
    {session : RedactionSession} {expected : Option Text}
    (plain : ∀ text ∈ expected, 'e' ∉ text)
    {result : SessionEnvelope σ × Text}
    (saved :
      saveLatest runtime backend current draw session expected =
        some (.ok result)) :
    ∀ decoded, current = some decoded →
      decoded.version < numberTextLimit := by
  intro decoded isCurrent
  by_contra large
  have exponent := exponents decoded.version (Nat.le_of_not_lt large)
  obtain ⟨next, _, script⟩ := Option.bind_eq_some_iff.mp saved
  obtain ⟨written, _, rest⟩ := bind_eq_ok.mp (Option.some.inj script)
  obtain ⟨kept, accepted, _⟩ := bind_eq_ok.mp rest
  rw [isCurrent] at accepted
  simp only [saveScript, ite_error_eq_ok, not_not] at accepted
  rw [accepted.1] at exponent
  cases expected with
  | none =>
      cases exponent
  | some text =>
      exact plain text rfl exponent

/-- The script takes the stored envelope for the loaded one. -/
def Taken (backend : StoreBackend σ) (current seen : SessionEnvelope σ) :
    Prop :=
  backend.numberText current.version = numeral seen.version

/-- The version that a client names when it saves. -/
def expectedVersion (record : Option (Record (SessionEnvelope σ))) :
    Option Text :=
  record.map fun loaded => numeral loaded.value.version

/-- A save that succeeds has passed the check of the script, and counts on. -/
theorem passes_of_saveLatest (exponents : backend.WritesExponents)
    {stored record : Option (Record (SessionEnvelope σ))} {draw : Nat}
    {session : RedactionSession} {written : SessionEnvelope σ}
    {version : Text}
    (saved :
      saveLatest runtime backend (stored.map Record.value) draw session
          (expectedVersion record) =
        some (.ok (written, version))) :
    Passes (Taken backend) stored record ∧
      written.version = versionOf SessionEnvelope.version record + 1 := by
  have plain : ∀ text ∈ expectedVersion record, 'e' ∉ text := by
    intro text named
    obtain ⟨loaded, _, shape⟩ := Option.map_eq_some_iff.mp named
    rw [← shape]
    exact not_mem_numeral _
  have below := below_of_saveLatest exponents plain saved
  cases record with
  | none =>
      obtain ⟨empty, _, shape⟩ := saveLatest_none_eq saved below
      have absent := Option.map_eq_none_iff.mp empty
      rw [absent, shape]
      exact ⟨trivial, rfl⟩
  | some seen =>
      obtain ⟨⟨decoded, present, same⟩, _, shape⟩ :=
        saveLatest_some_eq saved below
      obtain ⟨current, isStored, isDecoded⟩ :=
        Option.map_eq_some_iff.mp present
      rw [isStored, shape]
      refine ⟨?_, rfl⟩
      have small := below decoded present
      rw [← isDecoded] at same small
      exact (numberText_eq_numeral_iff exponents).mpr ⟨same, same ▸ small⟩

/-- A save whose check passes over a stored session succeeds. -/
theorem saveLatest_of_taken (exponents : backend.WritesExponents)
    {current seen : SessionEnvelope σ} (taken : Taken backend current seen)
    (draw : Nat) (session : RedactionSession) :
    ∃ result,
      saveLatest runtime backend (some current) draw session
          (some (numeral seen.version)) =
        some (.ok result) := by
  obtain ⟨_, small⟩ := (numberText_eq_numeral_iff exponents).mp taken
  have fits : seen.version < unsignedMax :=
    Nat.lt_trans small (by decide)
  have read :
      parseUnsigned unsignedMax (numeral seen.version) =
        some seen.version :=
    parseUnsigned_numeral (Nat.le_of_lt fits)
  have accepted :
      saveScript backend (some current)
          { version := seen.version + 1
            encryptedSession := backend.encrypt draw session }
          (numeral seen.version) =
        .ok
          { version := seen.version + 1
            encryptedSession := backend.encrypt draw session } :=
    if_neg (not_not.mpr taken)
  refine
    ⟨({ version := seen.version + 1
        encryptedSession := backend.encrypt draw session },
      numeral (seen.version + 1)), ?_⟩
  simp only [saveLatest, nextVersion, read, increment_of_lt fits,
    Option.map_some, Option.bind_eq_bind, Option.bind_some, ok_bind,
    Option.getD_some, accepted]

end Save

/-! ## The store as a key with conditional writes -/

section Translation

variable {ι σ : Type} {backend : StoreBackend σ}
  {store : ExpiringStore ι σ} {event : StoreEvent ι}

/-- What was stored when the client loaded. -/
def StoreClient.held :
    StoreClient σ → Option (Option (Record (SessionEnvelope σ)))
  | .idle => none
  | .loaded record _ => some record

def ExpiringStore.toSystem (store : ExpiringStore ι σ) :
    System ι (SessionEnvelope σ) where
  stored := store.stored
  writes := store.writes
  held := fun client => (store.clients client).held

/-- Every client was answered with the version of its record. -/
def Answered (store : ExpiringStore ι σ) : Prop :=
  ∀ client record answer, store.clients client = .loaded record answer →
    answer.map StoredSession.version = expectedVersion record

/-- The event as one of a key with conditional writes. -/
def Translates (store : ExpiringStore ι σ) :
    StoreEvent ι → Event ι (SessionEnvelope σ) → Prop
  | .load client, .load other => client = other
  | .save client _ _, .write other value =>
      client = other ∧
        ∃ record answer, store.clients client = .loaded record answer ∧
          value.version = versionOf SessionEnvelope.version record + 1
  | .giveUp client, .drop other => client = other
  | .expire, .vanish => True
  | _, _ => False

theorem held_eq_some {state : StoreClient σ}
    {record : Option (Record (SessionEnvelope σ))}
    (holds : state.held = some record) :
    ∃ answer, state = .loaded record answer := by
  cases state with
  | idle =>
      cases holds
  | loaded seen answer =>
      cases holds
      exact ⟨answer, rfl⟩

theorem fresh_iff_keepsVersions {event' : Event ι (SessionEnvelope σ)}
    (translates : Translates store event event') :
    Fresh (Taken backend) store.toSystem event' ↔
      KeepsVersions backend store event := by
  cases event with
  | save client draw session =>
      cases event' with
      | write other value =>
          obtain ⟨same, record, answer, holds, counted⟩ := translates
          subst same
          constructor
          · intro fresh record' answer' holds' other held otherAnswer
              different otherHolds taken
            rw [holds] at holds'
            cases holds'
            apply fresh other held different
            · simp only [ExpiringStore.toSystem, otherHolds,
                StoreClient.held]
            · unfold Taken
              rw [counted]
              exact taken
          · intro keeps other held different otherHolds taken
            obtain ⟨otherAnswer, isLoaded⟩ := held_eq_some otherHolds
            unfold Taken at taken
            rw [counted] at taken
            exact keeps record answer holds other held otherAnswer different
              isLoaded taken
      | load _ | drop _ | vanish =>
          exact translates.elim
  | load client | giveUp client | expire =>
      cases event' <;> first | exact translates.elim | exact Iff.rfl

theorem quiet_of_expiresUnheld {event' : Event ι (SessionEnvelope σ)}
    (translates : Translates store event event')
    (unheld : ExpiresUnheld store event) :
    Quiet SessionEnvelope.version store.toSystem event' := by
  cases event with
  | save client draw session =>
      cases event' with
      | write other value =>
          obtain ⟨same, record, answer, holds, counted⟩ := translates
          subst same
          intro seen isHeld
          simp only [ExpiringStore.toSystem, holds, StoreClient.held] at isHeld
          cases isHeld
          exact counted
      | load _ | drop _ | vanish =>
          exact translates.elim
  | expire =>
      cases event' with
      | vanish =>
          intro client record holds
          obtain ⟨answer, isLoaded⟩ := held_eq_some holds
          exact unheld client record answer isLoaded
      | load _ | drop _ | write _ _ =>
          exact translates.elim
  | load client | giveUp client =>
      cases event' <;> first | exact translates.elim | trivial

end Translation

section Simulation

variable {ι σ : Type} [DecidableEq ι] {runtime : Runtime}
  {backend : StoreBackend σ} {store next : ExpiringStore ι σ}
  {event : StoreEvent ι}

theorem toSystem_set (client : ι) (state : StoreClient σ) :
    (store.set client state).toSystem =
      store.toSystem.hold client state.held := by
  unfold ExpiringStore.set ExpiringStore.toSystem System.hold
  simp only [Function.apply_update fun _ => StoreClient.held]

theorem toSystem_save (client : ι) (written : SessionEnvelope σ) :
    (store.save client written).toSystem =
      store.toSystem.write client written := by
  unfold ExpiringStore.save ExpiringStore.toSystem System.write
  simp only [Function.apply_update fun _ => StoreClient.held]
  rfl

theorem answered_set (answered : Answered store) (client : ι)
    {state : StoreClient σ}
    (here :
      ∀ record answer, state = .loaded record answer →
        answer.map StoredSession.version = expectedVersion record) :
    ∀ other record answer,
      Function.update store.clients client state other =
          .loaded record answer →
        answer.map StoredSession.version = expectedVersion record := by
  intro other record answer holds
  by_cases same : other = client
  · rw [same, Function.update_self] at holds
    exact here record answer holds
  · rw [Function.update_of_ne same] at holds
    exact answered other record answer holds

theorem version_loadLatest
    {stored : Option (Record (SessionEnvelope σ))}
    {answer : Option StoredSession}
    (loaded :
      loadLatest backend (stored.map Record.value) = .ok answer) :
    answer.map StoredSession.version = expectedVersion stored := by
  cases stored with
  | none =>
      cases loaded
      rfl
  | some record =>
      simp only [loadLatest, Option.map_some] at loaded
      cases opened : backend.decrypt record.value.encryptedSession with
      | none =>
          rw [opened] at loaded
          cases loaded
      | some session =>
          rw [opened] at loaded
          cases loaded
          rfl

/-- Every step of the store is a step of a key with conditional writes. -/
theorem translates_step (exponents : backend.WritesExponents)
    (answered : Answered store)
    (step : StoreStep runtime backend store event next) :
    (∃ event', Translates store event event' ∧
      ConditionalWrites.Step (Taken backend) store.toSystem event'
        next.toSystem) ∧
    Answered next := by
  cases step with
  | load client answer loaded =>
      constructor
      · refine ⟨.load client, rfl, ?_⟩
        rw [toSystem_set]
        exact .load store.toSystem client
      · apply answered_set answered client
        intro record answer' same
        cases same
        exact version_loadLatest loaded
  | save client draw session record answer written version holds saved =>
      rw [answered client record answer holds] at saved
      obtain ⟨passes, counted⟩ := passes_of_saveLatest exponents saved
      constructor
      · refine ⟨.write client written,
          ⟨rfl, record, answer, holds, counted⟩, ?_⟩
        rw [toSystem_save]
        apply
          ConditionalWrites.Step.write store.toSystem client record written _
            passes
        simp only [ExpiringStore.toSystem, holds, StoreClient.held]
      · apply answered_set answered client
        intro record' answer' same
        cases same
  | giveUp client =>
      constructor
      · refine ⟨.drop client, rfl, ?_⟩
        rw [toSystem_set]
        exact .drop store.toSystem client
      · apply answered_set answered client
        intro record answer same
        cases same
  | expire =>
      exact ⟨⟨.vanish, trivial, .vanish store.toSystem⟩, answered⟩

/-- Runs of the store are runs of a key with conditional writes. -/
theorem reachedBy_toSystem (exponents : backend.WritesExponents)
    {allowed : ExpiringStore ι σ → StoreEvent ι → Prop}
    {allowed' :
      System ι (SessionEnvelope σ) → Event ι (SessionEnvelope σ) → Prop}
    (carried :
      ∀ store event event', Translates store event event' →
        allowed store event → allowed' store.toSystem event')
    (reached : StoreReachedBy runtime backend allowed store) :
    ReachedBy (Taken backend) allowed' store.toSystem ∧ Answered store := by
  induction reached with
  | initial =>
      refine ⟨.initial, ?_⟩
      intro client record answer holds
      cases holds
  | step _ permitted step inductionHypothesis =>
      obtain ⟨reached, answered⟩ := inductionHypothesis
      obtain ⟨⟨event', translates, step'⟩, answered'⟩ :=
        translates_step exponents answered step
      exact ⟨reached.step (carried _ _ event' translates permitted) step',
        answered'⟩

theorem keepsVersions_of_expiresUnheld
    (exponents : backend.WritesExponents)
    (reached : StoreReachedBy runtime backend ExpiresUnheld store)
    (unheld : ExpiresUnheld store event)
    (step : StoreStep runtime backend store event next) :
    KeepsVersions backend store event := by
  have carried :
      ∀ (store : ExpiringStore ι σ) (event : StoreEvent ι) event',
        Translates store event event' → ExpiresUnheld store event →
          Quiet SessionEnvelope.version store.toSystem event' :=
    fun _ _ _ => quiet_of_expiresUnheld
  obtain ⟨run, answered⟩ := reachedBy_toSystem exponents carried reached
  obtain ⟨⟨event', translates, step'⟩, _⟩ :=
    translates_step exponents answered step
  apply (fresh_iff_keepsVersions translates).mp
  apply fresh_of_quiet _ run (quiet_of_expiresUnheld translates unheld) step'
  intro current seen taken
  exact ((numberText_eq_numeral_iff exponents).mp taken).1

/-- As long as the key expires only while no client holds a record, versions
are kept. -/
theorem reachedBy_keepsVersions (exponents : backend.WritesExponents)
    (reached : StoreReachedBy runtime backend ExpiresUnheld store) :
    StoreReachedBy runtime backend (KeepsVersions backend) store := by
  induction reached with
  | initial =>
      exact .initial
  | step before unheld step inductionHypothesis =>
      exact inductionHypothesis.step
        (keepsVersions_of_expiresUnheld exponents before unheld step) step

end Simulation

/-- In a run in which no save writes a version that another client still holds,
a save that succeeds overwrites the record that its client has loaded.  After
any other save the holder of the version can overwrite a record that it has
not loaded. -/
theorem saves_overwrite_loaded_record {ι σ : Type} [DecidableEq ι]
    (runtime : Runtime) (backend : StoreBackend σ)
    (exponents : backend.WritesExponents) :
    (∀ store : ExpiringStore ι σ,
      StoreReachedBy runtime backend (KeepsVersions backend) store →
      ∀ client record answer,
        store.clients client = .loaded record answer →
        ∀ draw session written version,
          saveLatest runtime backend store.envelope draw session
              (answer.map StoredSession.version) =
            some (.ok (written, version)) →
          store.stored = record) ∧
    ∀ store : ExpiringStore ι σ,
      StoreReachedBy runtime backend (fun _ _ => True) store →
      ∀ event next, StoreStep runtime backend store event next →
        ¬ KeepsVersions backend store event →
        ∃ client record answer,
          next.clients client = .loaded record answer ∧
          next.stored ≠ record ∧
          ∀ draw session, ∃ result,
            saveLatest runtime backend next.envelope draw session
                (answer.map StoredSession.version) =
              some (.ok result) := by
  constructor
  · intro store reached client record answer holds draw session written
      version saved
    have carried :
        ∀ (store : ExpiringStore ι σ) (event : StoreEvent ι) event',
          Translates store event event' →
          KeepsVersions backend store event →
            Fresh (Taken backend) store.toSystem event' :=
      fun _ _ _ translates => (fresh_iff_keepsVersions translates).mpr
    obtain ⟨run, answered⟩ := reachedBy_toSystem exponents carried reached
    rw [answered client record answer holds] at saved
    apply stored_eq_of_passes run _
      (passes_of_saveLatest exponents saved).1
    · exact client
    · simp only [ExpiringStore.toSystem, holds, StoreClient.held]
  · intro store reached event next step reused
    obtain ⟨run, answered⟩ :=
      @reachedBy_toSystem ι σ _ runtime backend store exponents _
        (fun _ _ => True) (fun _ _ _ _ _ => trivial) reached
    obtain ⟨_, answeredNext⟩ := translates_step exponents answered step
    cases step with
    | save client draw session record answer written version holds saved =>
        rw [answered client record answer holds] at saved
        have counted := (passes_of_saveLatest exponents saved).2
        have translates :
            Translates store (.save client draw session)
              (.write client written) :=
          ⟨rfl, record, answer, holds, counted⟩
        have stale := mt (fresh_iff_keepsVersions translates).mp reused
        obtain ⟨other, seen, otherHolds, taken, different⟩ :=
          exists_mistaken run stale
        rw [← toSystem_save] at otherHolds taken different
        obtain ⟨otherAnswer, isLoaded⟩ := held_eq_some otherHolds
        refine ⟨other, some seen, otherAnswer, isLoaded, different, ?_⟩
        intro draw' session'
        rw [answeredNext other (some seen) otherAnswer isLoaded]
        exact saveLatest_of_taken exponents taken draw' session'
    | load _ _ _ | giveUp _ | expire =>
        exact absurd trivial reused

/-- A backend that keeps sessions as they are, and writes large numbers with an
exponent. -/
def sampleScriptBackend : StoreBackend RedactionSession :=
  { sampleBackend with
    numberText := fun version =>
      if version < numberTextLimit then numeral version else lit "1e+14"
    numberText_of_lt := fun _ small => if_pos small }

theorem writesExponents_sample : sampleScriptBackend.WritesExponents := by
  intro version large
  have notSmall : ¬ version < numberTextLimit := Nat.not_lt.mpr large
  simp [sampleScriptBackend, notSmall, lit]

def sampleStoredSession (sessionId : Text) : RedactionSession where
  version := 2
  sessionId := sessionId
  scopeId := lit "ab"
  externalId := some (lit "u1")
  fingerprint := []
  redactedFingerprint := []
  redactedText := []
  policy := {}
  entries := []
  issuedTokens := []

/-- Client 0 saves, loads what it has saved, and nothing expires. -/
theorem saves_overwrite_loaded_record_unexpired :
    ∃ store : ExpiringStore (Fin 2) RedactionSession,
      ∃ record answer,
        store.clients 0 = .loaded record answer ∧
        (∃ written version,
          saveLatest sampleRuntime sampleScriptBackend store.envelope 1
              (sampleStoredSession (lit "s2"))
              (answer.map StoredSession.version) =
            some (.ok (written, version))) ∧
        store.stored = record := by
  have start :=
    @StoreReachedBy.initial (Fin 2) RedactionSession _ sampleRuntime
      sampleScriptBackend (KeepsVersions sampleScriptBackend)
  have loaded :=
    start.step
      (show KeepsVersions sampleScriptBackend .initial (.load 0) from trivial)
      (.load _ 0 none rfl)
  have saved :=
    loaded.step
      (by
        intro record answer _ other held otherAnswer different isLoaded
        simp [ExpiringStore.set, ExpiringStore.initial,
          Function.update_of_ne different] at isLoaded)
      (.save _ 0 0 (sampleStoredSession (lit "s1")) _ _ _ _ rfl rfl)
  have again :=
    saved.step
      (show KeepsVersions sampleScriptBackend _ (.load 0) from trivial)
      (.load _ 0 _ rfl)
  have hit :=
    (saves_overwrite_loaded_record sampleRuntime sampleScriptBackend
      writesExponents_sample).1 _ again 0 _ _ rfl 1
      (sampleStoredSession (lit "s2")) _ _ rfl
  exact ⟨_, _, _, by rfl, ⟨_, _, by rfl⟩, hit⟩

/-- Client 0 loads version 1, the key expires, client 1 saves another session as
version 1, and client 0 overwrites it. -/
theorem stale_version_overwrites :
    ¬ ∀ (runtime : Runtime) (backend : StoreBackend RedactionSession),
      backend.WritesExponents →
      ∀ store : ExpiringStore (Fin 2) RedactionSession,
        StoreReachedBy runtime backend (fun _ _ => True) store →
        ∀ client record answer,
          store.clients client = .loaded record answer →
          ∀ draw session written version,
            saveLatest runtime backend store.envelope draw session
                (answer.map StoredSession.version) =
              some (.ok (written, version)) →
            store.stored = record := by
  intro exact
  have start :=
    @StoreReachedBy.initial (Fin 2) RedactionSession _ sampleRuntime
      sampleScriptBackend (fun _ _ => True)
  have loaded := start.step trivial (.load _ 0 none rfl)
  have saved :=
    loaded.step trivial
      (.save _ 0 0 (sampleStoredSession (lit "s1")) _ _ _ _ rfl rfl)
  have again := saved.step trivial (.load _ 0 _ rfl)
  have expired := again.step trivial (.expire _)
  have loadedOther := expired.step trivial (.load _ 1 none rfl)
  have savedOther :=
    loadedOther.step trivial
      (.save _ 1 1 (sampleStoredSession (lit "s2")) _ _ _ _ rfl rfl)
  have same :=
    exact sampleRuntime sampleScriptBackend writesExponents_sample _
      savedOther 0 _ _ rfl 2 (sampleStoredSession (lit "s3")) _ _ rfl
  have stamps := congrArg (Option.map Record.stamp) same
  exact absurd stamps (by decide)

end Redactor
