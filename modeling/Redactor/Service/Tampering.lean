import Redactor.Service.Handler

/-!
# A store that is tampered with

Whoever can write to the store cannot open what is sealed there.  They can take
a record away, move it under another key, or put an earlier one back, at any
time.  To the clients of an identifier this looks like a run of the service in
which some of the requests were never made.
-/

namespace Redactor

open Utf8 Fallible VersionedStore

/-- What a request has made, as long as its progress tells. -/
def RequestProgress.artifact? :
    RequestProgress → Option RedactorInstance.RedactionArtifact
  | .redacted _ artifact | .saved _ artifact | .answered _ artifact _
  | .lost _ artifact _ => some artifact
  | _ => none

/-- The service, and what every request has made, whether it was saved or
not. -/
structure Tampered (ι : Type) where
  service : Service ι
  made : ι → Option RedactorInstance.RedactionArtifact

section Runs

variable {ι : Type} [DecidableEq ι] (state : HttpState)
  (store : ValkeySessionStore) (requests : ι → RedactTextRequest)
  (draws : ι → Draws)

/-- What opens for an identifier in use is a session that was made for it. -/
def Genuine (made : ι → Option RedactorInstance.RedactionArtifact)
    (records : Records) : Prop :=
  ∀ request externalId key envelope session,
    (requests request).externalId = some externalId →
    records key = some envelope →
    store.openStored externalId envelope.encryptedSession = some session →
    ∃ maker artifact,
      (requests maker).externalId = some externalId ∧
        made maker = some artifact ∧ artifact.session = session

namespace Tampered

def initial : Tampered ι where
  service := .initial
  made := fun _ => none

/-- The service has moved on. -/
def after (tampered : Tampered ι) (next : Service ι) : Tampered ι where
  service := next
  made request :=
    (next.progress request).artifact?.or (tampered.made request)

end Tampered

/-- A step of the service, also of a save next to versions of any size, or a
change of what is stored. -/
inductive TamperedStep : Tampered ι → Tampered ι → Prop
  | serve (tampered : Tampered ι) (next : Service ι) :
      ServiceStep state requests draws tampered.service next →
      TamperedStep tampered (tampered.after next)
  | save (tampered : Tampered ι) (request : ι) (externalId version : Text)
      (stored : Option StoredSession)
      (artifact : RedactorInstance.RedactionArtifact) (records : Records) :
      tampered.service.progress request = .redacted stored artifact →
      (requests request).externalId = some externalId →
      state.saveStateful (some tampered.service.records) (draws request)
          externalId stored artifact = some (.ok (records, version)) →
      TamperedStep tampered
        (tampered.after
          { records
            progress :=
              Function.update tampered.service.progress request
                (.saved stored artifact) })
  | tamper (tampered : Tampered ι) (records : Records) :
      Genuine store requests tampered.made records →
      TamperedStep tampered
        { tampered with service := { tampered.service with records } }

inductive TamperedReachable : Tampered ι → Prop
  | initial : TamperedReachable .initial
  | step {tampered next : Tampered ι} :
      TamperedReachable tampered →
      TamperedStep state store requests draws tampered next →
      TamperedReachable next

/-- A sealed session does not open for another identifier in use. -/
def SealsApart : Prop :=
  ∀ first second left right,
    (requests first).externalId = some left →
    (requests second).externalId = some right →
    left ≠ right →
    ∀ key nonce plaintext ciphertext,
      store.crypto.encrypt key nonce (asBytes (storageAad left))
          plaintext = some ciphertext →
      store.crypto.decrypt key nonce (asBytes (storageAad right))
          ciphertext = none

/-- Requests for the identifier, each of which goes on from the session of the
one before it, and the session of the last one. -/
inductive Branch (externalId : Text) :
    List ι → Option RedactionSession → Prop
  | root : Branch externalId [] none
  | grow (order : List ι) (prior : Option RedactionSession) (request : ι)
      (artifact : RedactorInstance.RedactionArtifact) :
      Branch externalId order prior →
      request ∉ order →
      (requests request).externalId = some externalId →
      requireExternalId (some externalId) = .ok externalId →
      RedactsTo state requests draws request prior artifact →
      Branch externalId (order ++ [request]) (some artifact.session)

/-- The session comes from requests that have made something. -/
def Grown (made : ι → Option RedactorInstance.RedactionArtifact)
    (externalId : Text) (prior : Option RedactionSession)
    (order : List ι) : Prop :=
  Branch state requests draws externalId order prior ∧
    ∀ request ∈ order, (made request).isSome = true

/-- What a request has made, and from what. -/
def MadeFrom (made : ι → Option RedactorInstance.RedactionArtifact)
    (request : ι) (artifact : RedactorInstance.RedactionArtifact) : Prop :=
  ∃ externalId prior order,
    (requests request).externalId = some externalId ∧
      requireExternalId (some externalId) = .ok externalId ∧
      Grown state requests draws made externalId prior order ∧
      request ∉ order ∧
      RedactsTo state requests draws request prior artifact

/-- Nothing that was made is lost. -/
def KeepsMade (made more : ι → Option RedactorInstance.RedactionArtifact) :
    Prop :=
  ∀ request artifact, made request = some artifact →
    more request = some artifact

/-- How far a request can be, by what has been made. -/
def Sound (made : ι → Option RedactorInstance.RedactionArtifact)
    (request : ι) : RequestProgress → Prop
  | .waiting => made request = none
  | .loaded stored =>
      made request = none ∧
        ∃ externalId order,
          (requests request).externalId = some externalId ∧
            requireExternalId (some externalId) = .ok externalId ∧
            Grown state requests draws made externalId
              (stored.map StoredSession.session) order
  | .redacted _ artifact | .saved _ artifact | .lost _ artifact _ =>
      made request = some artifact
  | .answered _ artifact response =>
      made request = some artifact ∧
        state.answerStateful artifact (draws request) = .ok response
  | .refused _ => True

/-- What holds in every state of a tampered run. -/
structure Upheld (tampered : Tampered ι) : Prop where
  genuine : Genuine store requests tampered.made tampered.service.records
  sound :
    ∀ request,
      Sound state requests draws tampered.made request
        (tampered.service.progress request)
  made :
    ∀ request artifact, tampered.made request = some artifact →
      MadeFrom state requests draws tampered.made request artifact

end Runs

section Growing

variable {ι : Type} [DecidableEq ι] {state : HttpState}
  {store : ValkeySessionStore} {requests : ι → RedactTextRequest}
  {draws : ι → Draws}
  {made more : ι → Option RedactorInstance.RedactionArtifact}
  {externalId : Text} {prior : Option RedactionSession} {order : List ι}

omit [DecidableEq ι] in
theorem Genuine.mono {records : Records}
    (genuine : Genuine store requests made records)
    (kept : KeepsMade made more) :
    Genuine store requests more records := by
  intro request externalId key envelope session named present opened
  obtain ⟨maker, artifact, makerNamed, isMade, same⟩ :=
    genuine request externalId key envelope session named present opened
  exact ⟨maker, artifact, makerNamed, kept maker artifact isMade, same⟩

omit [DecidableEq ι] in
/-- Records may be moved, put back and taken away. -/
theorem Genuine.rearranged {records moved : Records}
    (genuine : Genuine store requests made records)
    (known : ∀ key envelope, moved key = some envelope →
      ∃ other, records other = some envelope) :
    Genuine store requests made moved := by
  intro request externalId key envelope session named present opened
  obtain ⟨other, isThere⟩ := known key envelope present
  exact genuine request externalId other envelope session named isThere opened

omit [DecidableEq ι] in
theorem Grown.mono
    (grown : Grown state requests draws made externalId prior order)
    (kept : KeepsMade made more) :
    Grown state requests draws more externalId prior order := by
  refine ⟨grown.1, fun request member => ?_⟩
  obtain ⟨artifact, isMade⟩ :=
    Option.isSome_iff_exists.mp (grown.2 request member)
  rw [kept request artifact isMade]
  rfl

omit [DecidableEq ι] in
theorem MadeFrom.mono {request : ι}
    {artifact : RedactorInstance.RedactionArtifact}
    (madeFrom : MadeFrom state requests draws made request artifact)
    (kept : KeepsMade made more) :
    MadeFrom state requests draws more request artifact := by
  obtain ⟨externalId, prior, order, named, accepted, grown, new, redacts⟩ :=
    madeFrom
  exact ⟨externalId, prior, order, named, accepted, grown.mono kept, new,
    redacts⟩

omit [DecidableEq ι] in
theorem Grown.grow {request : ι}
    {artifact : RedactorInstance.RedactionArtifact}
    (grown : Grown state requests draws made externalId prior order)
    (new : request ∉ order)
    (named : (requests request).externalId = some externalId)
    (accepted : requireExternalId (some externalId) = .ok externalId)
    (redacts : RedactsTo state requests draws request prior artifact)
    (isMade : made request = some artifact) :
    Grown state requests draws made externalId (some artifact.session)
      (order ++ [request]) := by
  refine ⟨.grow order prior request artifact grown.1 new named accepted
    redacts, ?_⟩
  intro member listed
  rcases List.mem_append.mp listed with earlier | last
  · exact grown.2 member earlier
  · rw [List.mem_singleton.mp last, isMade]
    rfl

omit [DecidableEq ι] in
/-- The session that was made is at the end of a branch. -/
theorem MadeFrom.grown {request : ι}
    {artifact : RedactorInstance.RedactionArtifact}
    (madeFrom : MadeFrom state requests draws made request artifact)
    (isMade : made request = some artifact)
    (named : (requests request).externalId = some externalId) :
    ∃ order,
      Grown state requests draws made externalId (some artifact.session)
        order := by
  obtain ⟨found, prior, order, isFound, accepted, grown, new, redacts⟩ :=
    madeFrom
  rw [named] at isFound
  cases isFound
  exact ⟨_, grown.grow new named accepted redacts isMade⟩

omit [DecidableEq ι] in
theorem Sound.mono {request : ι} {progress : RequestProgress}
    (sound : Sound state requests draws made request progress)
    (kept : KeepsMade made more)
    (same : more request = made request) :
    Sound state requests draws more request progress := by
  cases progress with
  | waiting =>
      exact same.trans sound
  | loaded stored =>
      obtain ⟨unmade, externalId, order, named, accepted, grown⟩ := sound
      exact ⟨same.trans unmade, externalId, order, named, accepted,
        grown.mono kept⟩
  | redacted stored artifact | saved stored artifact
  | lost stored artifact error =>
      exact same.trans sound
  | answered stored artifact response =>
      exact ⟨same.trans sound.1, sound.2⟩
  | refused error =>
      trivial

omit [DecidableEq ι] in
/-- The progress tells nothing new of what was made. -/
theorem Sound.kept {request : ι} {progress : RequestProgress}
    (sound : Sound state requests draws made request progress) :
    progress.artifact?.or (made request) = made request := by
  cases progress with
  | waiting | loaded stored | refused error =>
      rfl
  | redacted stored artifact | saved stored artifact
  | lost stored artifact error =>
      exact sound.symm
  | answered stored artifact response =>
      exact sound.1.symm

omit [DecidableEq ι] in
theorem nodup_of_branch
    (branch : Branch state requests draws externalId order prior) :
    order.Nodup ∧
      ∀ request ∈ order, (requests request).externalId = some externalId := by
  induction branch with
  | root =>
      exact ⟨.nil, by simp⟩
  | grow order prior request artifact _ new named _ _ inductionHypothesis =>
      obtain ⟨nodup, each⟩ := inductionHypothesis
      constructor
      · exact List.nodup_append.mpr
          ⟨nodup, List.nodup_singleton request, fun earlier member last =>
            by
              rintro isLast rfl
              rw [List.mem_singleton.mp isLast] at member
              exact new member⟩
      · intro member listed
        rcases List.mem_append.mp listed with earlier | last
        · exact each member earlier
        · rw [List.mem_singleton.mp last]
          exact named

end Growing

section Sealed

variable {ι : Type} {store : ValkeySessionStore}
  {requests : ι → RedactTextRequest}

/-- A session sealed for one identifier in use does not open for another. -/
theorem openStored_eq_none (lossless : store.crypto.Lossless)
    (sealsApart : SealsApart store requests) {first second : ι}
    {left right : Text}
    (firstNamed : (requests first).externalId = some left)
    (secondNamed : (requests second).externalId = some right)
    (different : left ≠ right) (draw : Nat) (session : RedactionSession) :
    store.openStored right (store.sealStored left draw session) = none := by
  obtain ⟨data, isSealed, _⟩ := store.reopens left draw session
  have isData : store.sealStored left draw session = data := by
    rw [ValkeySessionStore.sealStored, isSealed]
  obtain ⟨ciphertext, encrypted, last⟩ := bind_eq_ok.mp isSealed
  have refused :=
    sealsApart first second left right firstNamed secondNamed different _ _ _
      _ (context_eq_ok.mp encrypted)
  rw [isData, ← Except.ok.inj last]
  simp only [ValkeySessionStore.openStored, decryptSessionFromStorage,
    openJson, lossless.payload, context, ok_bind, ne_eq, not_true_eq_false,
    if_false, decodeExact_encode lossless, lossless.base64, refused,
    error_bind, withContext, Except.toOption]

theorem sealed_of_saveLatest {σ : Type} {runtime : Runtime}
    {backend : StoreBackend σ} {current : Option (SessionEnvelope σ)}
    {draw : Nat} {session : RedactionSession}
    {expectedVersion : Option Text} {written : SessionEnvelope σ}
    {version : Text}
    (saved :
      saveLatest runtime backend current draw session expectedVersion =
        some (.ok (written, version))) :
    written.encryptedSession = backend.encrypt draw session := by
  obtain ⟨next, _, rest⟩ := Option.bind_eq_some_iff.mp saved
  obtain ⟨number, _, rest⟩ := bind_eq_ok.mp (Option.some.inj rest)
  obtain ⟨stored, scripted, last⟩ := bind_eq_ok.mp rest
  cases last
  unfold saveScript at scripted
  cases current with
  | none =>
      rw [← Except.ok.inj (ite_error_eq_ok.mp scripted).2]
  | some decoded =>
      rw [← Except.ok.inj (ite_error_eq_ok.mp scripted).2]

end Sealed

/-! ## Steps -/

section Steps

variable {ι : Type} [DecidableEq ι] {state : HttpState}
  {store : ValkeySessionStore} {requests : ι → RedactTextRequest}
  {draws : ι → Draws} {tampered next : Tampered ι}

omit [DecidableEq ι] in
/-- A save leaves nothing that was not made. -/
theorem genuine_save (configured : state.sessionStore = some store)
    (lossless : store.crypto.Lossless)
    (sealsApart : SealsApart store requests)
    {made : ι → Option RedactorInstance.RedactionArtifact}
    {before after : Records} (genuine : Genuine store requests made before)
    {request : ι} {externalId version : Text}
    (named : (requests request).externalId = some externalId)
    {stored : Option StoredSession}
    {artifact : RedactorInstance.RedactionArtifact}
    (isMade : made request = some artifact)
    (saved :
      state.saveStateful (some before) (draws request) externalId stored
          artifact = some (.ok (after, version))) :
    Genuine store requests made after := by
  obtain ⟨written, done, rfl⟩ := saveStateful_eq_ok configured saved
  intro other otherId key envelope session otherNamed present opened
  by_cases here : key = store.keyFor state.environment.runtime externalId
  · rw [here, Function.update_self] at present
    cases present
    rw [sealed_of_saveLatest done] at opened
    change
      store.openStored otherId
          (store.sealStored externalId (draws request).stored
            artifact.session) = some session at opened
    by_cases same : externalId = otherId
    · rw [← same, store.openStored_sealStored] at opened
      cases opened
      rw [← same]
      exact ⟨request, artifact, named, isMade, rfl⟩
    · rw [openStored_eq_none lossless sealsApart named otherNamed same]
        at opened
      cases opened
  · rw [Function.update_of_ne here] at present
    exact genuine other otherId key envelope session otherNamed present opened

omit [DecidableEq ι] in
theorem made_after {service : Service ι}
    (sound : ∀ request,
      Sound state requests draws tampered.made request
        (service.progress request)) :
    (tampered.after service).made = tampered.made :=
  funext fun request => (sound request).kept

theorem sound_update {made : ι → Option RedactorInstance.RedactionArtifact}
    {progress : ι → RequestProgress}
    (sound : ∀ request,
      Sound state requests draws made request (progress request))
    {moved : ι} {reached : RequestProgress}
    (here : Sound state requests draws made moved reached) (request : ι) :
    Sound state requests draws made request
      (Function.update progress moved reached request) := by
  by_cases same : request = moved
  · rw [same, Function.update_self]
    exact here
  · rw [Function.update_of_ne same]
    exact sound request

/-- A request moves, and makes nothing. -/
theorem Upheld.move
    (upheld : Upheld state store requests draws tampered) {moved : ι}
    {reached : RequestProgress} {records : Records}
    (genuine : Genuine store requests tampered.made records)
    (here : Sound state requests draws tampered.made moved reached) :
    Upheld state store requests draws
      (tampered.after
        { records
          progress :=
            Function.update tampered.service.progress moved reached }) := by
  have sound := sound_update upheld.sound here
  have same :
      (tampered.after
          { records
            progress :=
              Function.update tampered.service.progress moved
                reached }).made = tampered.made :=
    made_after sound
  exact ⟨by rw [same]; exact genuine, by rw [same]; exact sound,
    by rw [same]; exact upheld.made⟩

omit [DecidableEq ι] in
/-- A record expires. -/
theorem Upheld.expire
    (upheld : Upheld state store requests draws tampered) (key : Text) :
    Upheld state store requests draws
      (tampered.after (tampered.service.expire key)) := by
  have same :
      (tampered.after (tampered.service.expire key)).made =
        tampered.made :=
    made_after upheld.sound
  refine ⟨?_, by rw [same]; exact upheld.sound,
    by rw [same]; exact upheld.made⟩
  rw [same]
  intro request externalId other envelope session named present opened
  by_cases here : other = key
  · rw [here] at present
    simp [Tampered.after, Service.expire] at present
  · simp only [Tampered.after, Service.expire,
      Function.update_of_ne here] at present
    exact upheld.genuine request externalId other envelope session named
      present opened

omit [DecidableEq ι] in
/-- What is loaded has been made by a branch of requests. -/
theorem Upheld.grown_of_load
    (upheld : Upheld state store requests draws tampered) {request : ι}
    {externalId : Text}
    (named : (requests request).externalId = some externalId)
    {stored : Option StoredSession}
    (loaded :
      store.loadLatest state.environment.runtime
          (some tampered.service.records) externalId = .ok stored) :
    ∃ order,
      Grown state requests draws tampered.made externalId
        (stored.map StoredSession.session) order := by
  change Redactor.loadLatest _ _ = _ at loaded
  unfold loadLatest at loaded
  split at loaded
  · cases loaded
    exact ⟨[], .root, by simp⟩
  · rename_i envelope present
    split at loaded
    · cases loaded
    · rename_i session opened
      cases loaded
      obtain ⟨maker, artifact, makerNamed, isMade, rfl⟩ :=
        upheld.genuine request externalId _ envelope session named present
          opened
      exact (upheld.made maker artifact isMade).grown isMade makerNamed

theorem keepsMade_update
    {made : ι → Option RedactorInstance.RedactionArtifact} {request : ι}
    (unmade : made request = none)
    (artifact : RedactorInstance.RedactionArtifact) :
    KeepsMade made (Function.update made request (some artifact)) := by
  intro other found isFound
  have different : other ≠ request := by
    intro same
    rw [same, unmade] at isFound
    cases isFound
  rw [Function.update_of_ne different]
  exact isFound

/-- The request that redacts makes its artifact. -/
theorem made_after_redact
    (upheld : Upheld state store requests draws tampered) (request : ι)
    (stored : Option StoredSession)
    (artifact : RedactorInstance.RedactionArtifact) :
    (tampered.after
        (tampered.service.set request (.redacted stored artifact))).made =
      Function.update tampered.made request (some artifact) := by
  funext other
  by_cases same : other = request
  · rw [same, Function.update_self]
    simp only [Tampered.after, Service.set, Function.update_self,
      RequestProgress.artifact?, Option.some_or]
  · simp only [Tampered.after, Service.set, Function.update_of_ne same]
    exact (upheld.sound other).kept

theorem Upheld.redact
    (upheld : Upheld state store requests draws tampered) {request : ι}
    {stored : Option StoredSession}
    {artifact : RedactorInstance.RedactionArtifact}
    (isLoaded : tampered.service.progress request = .loaded stored)
    (redacts :
      RedactsTo state requests draws request
        (stored.map StoredSession.session) artifact) :
    Upheld state store requests draws
      (tampered.after
        (tampered.service.set request (.redacted stored artifact))) := by
  have here := upheld.sound request
  rw [isLoaded] at here
  obtain ⟨unmade, externalId, order, named, accepted, grown⟩ := here
  have isMade := made_after_redact upheld request stored artifact
  have kept := keepsMade_update unmade artifact
  refine ⟨?_, ?_, ?_⟩
  · rw [isMade]
    exact upheld.genuine.mono kept
  · intro other
    rw [isMade]
    simp only [Tampered.after, Service.set]
    by_cases same : other = request
    · rw [same, Function.update_self]
      exact Function.update_self request (some artifact) tampered.made
    · rw [Function.update_of_ne same]
      exact (upheld.sound other).mono kept (Function.update_of_ne same _ _)
  · intro other found isFound
    rw [isMade] at isFound ⊢
    by_cases same : other = request
    · rw [same, Function.update_self] at isFound
      cases isFound
      rw [same]
      -- whoever made the loaded session has redacted, this request has not
      have new : request ∉ order := by
        intro listed
        have isSome := grown.2 request listed
        rw [unmade] at isSome
        cases isSome
      exact ⟨externalId, _, order, named, accepted, grown.mono kept, new,
        redacts⟩
    · rw [Function.update_of_ne same] at isFound
      exact (upheld.made other found isFound).mono kept

theorem Upheld.save (configured : state.sessionStore = some store)
    (lossless : store.crypto.Lossless)
    (sealsApart : SealsApart store requests)
    (upheld : Upheld state store requests draws tampered) {request : ι}
    {externalId version : Text} {stored : Option StoredSession}
    {artifact : RedactorInstance.RedactionArtifact} {records : Records}
    (isRedacted :
      tampered.service.progress request = .redacted stored artifact)
    (named : (requests request).externalId = some externalId)
    (saved :
      state.saveStateful (some tampered.service.records) (draws request)
          externalId stored artifact = some (.ok (records, version))) :
    Upheld state store requests draws
      (tampered.after
        { records
          progress :=
            Function.update tampered.service.progress request
              (.saved stored artifact) }) := by
  have here := upheld.sound request
  rw [isRedacted] at here
  have genuine :=
    genuine_save configured lossless sealsApart upheld.genuine named here
      saved
  exact upheld.move genuine here

theorem upheld_step (configured : state.sessionStore = some store)
    (lossless : store.crypto.Lossless)
    (sealsApart : SealsApart store requests)
    (upheld : Upheld state store requests draws tampered)
    (step : TamperedStep state store requests draws tampered next) :
    Upheld state store requests draws next := by
  cases step with
  | serve after served =>
      cases served with
      | load request externalId checked stored redactor waiting named built
          loaded =>
          have here := upheld.sound request
          rw [waiting] at here
          obtain ⟨order, grown⟩ :=
            upheld.grown_of_load named
              (loadStateful_eq_ok configured loaded).2
          exact upheld.move upheld.genuine
            ⟨here, externalId, order, named,
              (checked_of_loadStateful loaded).1, grown⟩
      | redact request stored artifact isLoaded redacts =>
          exact upheld.redact isLoaded redacts
      | save request externalId version stored artifact records isRedacted
          named _ saved =>
          exact upheld.save configured lossless sealsApart isRedacted named
            saved
      | answer request stored artifact response isSaved answered =>
          have here := upheld.sound request
          rw [isSaved] at here
          exact upheld.move upheld.genuine ⟨here, answered⟩
      | lose request stored artifact error isSaved reason =>
          have here := upheld.sound request
          rw [isSaved] at here
          exact upheld.move upheld.genuine here
      | refuse request error unsaved reason =>
          exact upheld.move upheld.genuine trivial
      | expire _ _ key =>
          exact upheld.expire key
  | save request externalId version stored artifact records isRedacted named
      saved =>
      exact upheld.save configured lossless sealsApart isRedacted named saved
  | tamper records genuine =>
      exact ⟨genuine, upheld.sound, upheld.made⟩

theorem upheld_of_reachable (configured : state.sessionStore = some store)
    (lossless : store.crypto.Lossless)
    (sealsApart : SealsApart store requests)
    (reachable : TamperedReachable state store requests draws tampered) :
    Upheld state store requests draws tampered := by
  induction reachable with
  | initial =>
      refine ⟨?_, fun _ => rfl, ?_⟩
      · intro _ _ _ _ _ _ present
        cases present
      · intro _ _ isMade
        cases isMade
  | step _ step inductionHypothesis =>
      exact upheld_step configured lossless sealsApart inductionHypothesis
        step

/-- Nobody has to tamper. -/
theorem exists_tampered_of_reachable {service : Service ι}
    (reachable : ServiceReachable state requests draws service) :
    ∃ made,
      TamperedReachable state store requests draws ⟨service, made⟩ := by
  induction reachable with
  | initial =>
      exact ⟨_, .initial⟩
  | step _ step inductionHypothesis =>
      obtain ⟨made, reached⟩ := inductionHypothesis
      exact ⟨_, .step reached (.serve ⟨_, made⟩ _ step)⟩

end Steps

/-! ## Runs without tampering -/

section Honest

variable {ι : Type} [DecidableEq ι] {state : HttpState}
  {store : ValkeySessionStore} {requests : ι → RedactTextRequest}
  {draws : ι → Draws} {tampered : Tampered ι} {externalId : Text}
  {prior : Option RedactionSession} {order : List ι}

/-- A run of the service in which requests for the identifier have moved that
have made something, and nobody else has. -/
structure Tampered.Honest (state : HttpState)
    (requests : ι → RedactTextRequest) (draws : ι → Draws)
    (tampered : Tampered ι) (externalId : Text) (honest : Service ι) :
    Prop where
  reachable : ServiceReachable state requests draws honest
  moved :
    ∀ request, honest.progress request ≠ .waiting →
      (requests request).externalId = some externalId ∧
        (tampered.made request).isSome = true

/-- A request that has saved is answered. -/
theorem Tampered.Honest.answer {honest : Service ι}
    (isHonest : tampered.Honest state requests draws externalId honest)
    {request : ι} {seen : Option StoredSession}
    {artifact : RedactorInstance.RedactionArtifact}
    {response : RedactTextResponse}
    (isSaved : honest.progress request = .saved seen artifact)
    (answered :
      state.answerStateful artifact (draws request) = .ok response) :
    tampered.Honest state requests draws externalId
      (honest.set request (.answered seen artifact response)) := by
  refine ⟨.step isHonest.reachable
    (.answer honest request seen artifact response isSaved answered), ?_⟩
  intro other moved
  by_cases same : other = request
  · rw [same]
    exact isHonest.moved request (by rw [isSaved]; simp)
  · apply isHonest.moved other
    simpa only [Service.set, Function.update_of_ne same] using moved

/-- The requests of a branch have saved one after the other. -/
structure Replayed (state : HttpState) (store : ValkeySessionStore)
    (requests : ι → RedactTextRequest) (draws : ι → Draws)
    (externalId : Text) (order : List ι) (prior : Option RedactionSession)
    (honest : Service ι) (stored : Option StoredSession) : Prop where
  reachable : ServiceReachable state requests draws honest
  others : ∀ request, request ∉ order → honest.progress request = .waiting
  loaded :
    store.loadLatest state.environment.runtime (some honest.records)
      externalId = .ok stored
  same : stored.map StoredSession.session = prior
  below : VersionsBelow (order.length + 1) honest.records

theorem Replayed.honest {honest : Service ι}
    {stored : Option StoredSession}
    (replayed :
      Replayed state store requests draws externalId order prior honest
        stored)
    (grown :
      Grown state requests draws tampered.made externalId prior order) :
    tampered.Honest state requests draws externalId honest := by
  refine ⟨replayed.reachable, fun request moved => ?_⟩
  have listed : request ∈ order :=
    Decidable.byContradiction fun new =>
      moved (replayed.others request new)
  exact ⟨(nodup_of_branch grown.1).2 request listed, grown.2 request listed⟩

/-- One more request saves. -/
theorem Replayed.grow (configured : state.sessionStore = some store)
    (apart : DigestsApart state.environment.runtime requests)
    {honest : Service ι} {stored : Option StoredSession}
    (replayed :
      Replayed state store requests draws externalId order prior honest
        stored)
    (fits : order.length < numberTextLimit) {request : ι}
    {artifact : RedactorInstance.RedactionArtifact} (new : request ∉ order)
    (named : (requests request).externalId = some externalId)
    (accepted : requireExternalId (some externalId) = .ok externalId)
    (redacts : RedactsTo state requests draws request prior artifact) :
    ∃ next latest,
      Replayed state store requests draws externalId (order ++ [request])
          (some artifact.session) next latest ∧
        next.progress request = .saved stored artifact := by
  have below : VersionsBelow numberTextLimit honest.records :=
    replayed.below.mono fits
  obtain ⟨records, version, saved, savedOver⟩ :=
    save_over_latest configured apart replayed.reachable named below
      replayed.loaded artifact
  have parts := redacts
  obtain ⟨_, redactor, _, built, _, _⟩ := parts
  rw [← replayed.same] at redacts
  have run :=
    run_to_save (replayed.others request new) named built
      (loadStateful_of_accepted configured accepted replayed.loaded) redacts
      below saved
  obtain ⟨latest, loaded, isSession⟩ := savedOver.latest
  refine ⟨_, some latest,
    ⟨replayed.reachable.after run, ?_, loaded, by rw [← isSession]; rfl, ?_⟩,
    Function.update_self _ _ _⟩
  · intro other unlisted
    rw [List.mem_append, List.mem_singleton, not_or] at unlisted
    exact (Function.update_of_ne unlisted.2 _ _).trans
      (replayed.others other unlisted.1)
  · rw [List.length_append]
    exact savedOver.versions _ (Nat.succ_pos _) replayed.below

/-- Every branch can be replayed. -/
theorem exists_replayed (configured : state.sessionStore = some store)
    (apart : DigestsApart state.environment.runtime requests)
    (branch : Branch state requests draws externalId order prior)
    (fits : order.length ≤ numberTextLimit) :
    ∃ honest stored,
      Replayed state store requests draws externalId order prior honest
        stored := by
  induction branch with
  | root =>
      refine ⟨.initial, none, .initial, fun _ _ => rfl, rfl, rfl, ?_⟩
      intro key envelope present
      cases present
  | grow order prior request artifact _ new named accepted redacts
      inductionHypothesis =>
      rw [List.length_append] at fits
      obtain ⟨honest, stored, replayed⟩ :=
        inductionHypothesis (Nat.le_of_succ_le fits)
      obtain ⟨next, latest, grown, _⟩ :=
        replayed.grow configured apart fits new named accepted redacts
      exact ⟨next, latest, grown⟩

/-- A restore only depends on the session that is loaded. -/
theorem restoreTextInner_congr (configured : state.sessionStore = some store)
    {left right : Option Records} {first second : Option StoredSession}
    (firstLoaded :
      store.loadLatest state.environment.runtime left externalId =
        .ok first)
    (secondLoaded :
      store.loadLatest state.environment.runtime right externalId =
        .ok second)
    (same :
      first.map StoredSession.session = second.map StoredSession.session)
    (text : Text) (permits : List Text) :
    state.restoreTextInner left
        { text, externalId := some externalId, restorePermits := permits } =
      state.restoreTextInner right
        { text, externalId := some externalId,
          restorePermits := permits } := by
  simp only [HttpState.restoreTextInner, restoreStored,
    configuredStore_eq_ok.mpr configured, plainError, ok_bind]
  cases required : requireExternalId (some externalId) with
  | error message =>
      rfl
  | ok checked =>
      rw [requireExternalId_eq_ok required]
      simp only [firstLoaded, secondLoaded, storeError, ok_bind]
      cases first with
      | none =>
          cases second with
          | none =>
              rfl
          | some _ =>
              cases same
      | some _ =>
          cases second with
          | none =>
              cases same
          | some _ =>
              simp only [Option.map_some, Option.some.injEq] at same
              simp only [context, ok_bind, same]

/-- Nothing is restored from a session that does not load. -/
theorem restoreTextInner_of_error
    (configured : state.sessionStore = some store)
    {connection : Option Records} {error : SessionStoreError}
    (unloaded :
      store.loadLatest state.environment.runtime connection externalId =
        .error error)
    (text : Text) (permits : List Text) :
    ∃ reason,
      state.restoreTextInner connection
          { text, externalId := some externalId,
            restorePermits := permits } = .error reason := by
  cases outcome :
      state.restoreTextInner connection
        { text, externalId := some externalId,
          restorePermits := permits } with
  | error reason =>
      exact ⟨reason, rfl⟩
  | ok result =>
      simp only [HttpState.restoreTextInner, restoreStored,
        configuredStore_eq_ok.mpr configured, bind_eq_ok, plainError_eq_ok,
        storeError_eq_ok] at outcome
      obtain ⟨_, isStore, _, _, checked, required, loaded, isLoaded, _⟩ :=
        outcome
      cases isStore
      rw [requireExternalId_eq_ok required, unloaded] at isLoaded
      cases isLoaded

end Honest

theorem sample_sizes (first second : Fin 3) :
    (asBytes (storageAad (sampleId first))).size =
      (asBytes (storageAad (sampleId second))).size := by
  revert first second
  decide

theorem sample_sealsApart : SealsApart sampleStore sampleAsked := by
  intro first second left right firstNamed secondNamed different key nonce
    plaintext ciphertext encrypted
  have sizes :
      (asBytes (storageAad left)).size =
        (asBytes (storageAad right)).size := by
    cases firstNamed
    cases secondNamed
    exact sample_sizes first second
  have fronts :
      sampleSeal key nonce (asBytes (storageAad left)) ≠
        sampleSeal key nonce (asBytes (storageAad right)) :=
    fun same =>
      different
        (storageAad_injective ((ByteArray.append_right_inj _).mp same))
  have long :
      (sampleSeal key nonce (asBytes (storageAad right))).size =
        (sampleSeal key nonce (asBytes (storageAad left))).size := by
    simp only [sampleSeal, ByteArray.size_append, sizes]
  cases encrypted
  simp only [sampleStore, sampleServiceCrypto,
    ByteArray.extract_append_eq_left long, if_neg fronts]

/-- The session of request 0 is put under every key. -/
theorem sample_tampered :
    ∃ tampered : Tampered (Fin 3),
      TamperedReachable sampleState sampleStore sampleAsked sampleDraws
          tampered ∧
        ∃ record, ∀ key, tampered.service.records key = some record := by
  obtain ⟨artifact, _, _, _, redacts, _⟩ := sample_redacts
  obtain ⟨records, _, run, savedOver⟩ :=
    @sample_answered_alone .initial .initial 0 rfl (sample_below _) none
      (sample_loaded_nothing _) artifact redacts
  obtain ⟨made, reached⟩ :=
    @exists_tampered_of_reachable _ _ _ sampleStore _ _ _
      (ServiceReachable.initial.after run)
  have upheld :=
    upheld_of_reachable rfl sampleServiceCrypto_reopens.lossless
      sample_sealsApart reached
  obtain ⟨latest, loaded, _⟩ := savedOver.latest
  cases present :
      records (sampleStore.keyFor sampleServiceRuntime (sampleId 0)) with
  | none =>
      change Redactor.loadLatest _ (records _) = _ at loaded
      rw [present] at loaded
      cases loaded
  | some record =>
      have genuine :
          Genuine sampleStore sampleAsked made fun _ => some record :=
        upheld.genuine.rearranged fun _ other same =>
          ⟨_, present.trans same⟩
      exact ⟨_, .step reached (.tamper _ (fun _ => some record) genuine),
        record, fun _ => rfl⟩

section Result

variable {ι : Type} [DecidableEq ι] {state : HttpState}
  {store : ValkeySessionStore} {requests : ι → RedactTextRequest}
  {draws : ι → Draws} {tampered : Tampered ι} {externalId : Text}

/-- What the clients of an identifier see of a store that is tampered with:
every answer is an answer of a run that nobody has tampered with, and the
restores fail, or come out as in such a run.  In these runs some of the requests
for the identifier are made, and no others. -/
theorem tampering_only_drops_requests
    (configured : state.sessionStore = some store)
    (apart : DigestsApart state.environment.runtime requests)
    (lossless : store.crypto.Lossless)
    (sealsApart : SealsApart store requests)
    (few :
      ∀ order : List ι, order.Nodup →
        (∀ request ∈ order,
          (requests request).externalId = some externalId) →
        order.length ≤ numberTextLimit)
    (reachable : TamperedReachable state store requests draws tampered)
    {used : ι} (isUsed : (requests used).externalId = some externalId) :
    (∀ request stored artifact response,
      (requests request).externalId = some externalId →
      tampered.service.progress request =
        .answered stored artifact response →
      ∃ honest seen,
        tampered.Honest state requests draws externalId honest ∧
          honest.progress request = .answered seen artifact response) ∧
      ((∀ text permits, ∃ reason,
        state.restoreTextInner (some tampered.service.records)
            { text, externalId := some externalId,
              restorePermits := permits } = .error reason) ∨
        ∃ honest,
          tampered.Honest state requests draws externalId honest ∧
            ∀ text permits,
              state.restoreTextInner (some tampered.service.records)
                  { text, externalId := some externalId,
                    restorePermits := permits } =
                state.restoreTextInner (some honest.records)
                  { text, externalId := some externalId,
                    restorePermits := permits }) := by
  have upheld :=
    upheld_of_reachable configured lossless sealsApart reachable
  constructor
  · intro request stored artifact response named isAnswered
    have here := upheld.sound request
    rw [isAnswered] at here
    obtain ⟨isMade, answered⟩ := here
    obtain ⟨found, prior, order, isFound, accepted, grown, new, redacts⟩ :=
      upheld.made request artifact isMade
    rw [named] at isFound
    cases isFound
    have longer := grown.grow new named accepted redacts isMade
    obtain ⟨nodup, each⟩ := nodup_of_branch longer.1
    have fits := few _ nodup each
    rw [List.length_append] at fits
    obtain ⟨early, seen, replayed⟩ :=
      exists_replayed configured apart grown.1 (Nat.le_of_succ_le fits)
    obtain ⟨late, _, last, isSaved⟩ :=
      replayed.grow configured apart fits new named accepted redacts
    exact ⟨_, seen, (last.honest longer).answer isSaved answered,
      Function.update_self _ _ _⟩
  · cases loaded :
        store.loadLatest state.environment.runtime
          (some tampered.service.records) externalId with
    | error error =>
        exact .inl (restoreTextInner_of_error configured loaded)
    | ok stored =>
        obtain ⟨order, grown⟩ := upheld.grown_of_load isUsed loaded
        obtain ⟨nodup, each⟩ := nodup_of_branch grown.1
        obtain ⟨honest, found, replayed⟩ :=
          exists_replayed configured apart grown.1 (few order nodup each)
        exact .inr ⟨honest, replayed.honest grown,
          restoreTextInner_congr configured loaded replayed.loaded
            replayed.same.symm⟩

end Result

theorem tampering_only_drops_requests_moved_record :
    ∃ tampered : Tampered (Fin 3),
      (∃ record, ∀ key, tampered.service.records key = some record) ∧
        ((∀ text permits, ∃ reason,
          sampleState.restoreTextInner (some tampered.service.records)
              { text, externalId := some (lit "u2"),
                restorePermits := permits } = .error reason) ∨
          ∃ honest,
            tampered.Honest sampleState sampleAsked sampleDraws (lit "u2")
                honest ∧
              ∀ text permits,
                sampleState.restoreTextInner (some tampered.service.records)
                    { text, externalId := some (lit "u2"),
                      restorePermits := permits } =
                  sampleState.restoreTextInner (some honest.records)
                    { text, externalId := some (lit "u2"),
                      restorePermits := permits }) := by
  obtain ⟨tampered, reached, record, everywhere⟩ := sample_tampered
  obtain ⟨_, restores⟩ :=
    @tampering_only_drops_requests _ _ sampleState sampleStore sampleAsked
      sampleDraws tampered (lit "u2") rfl sample_apart
      sampleServiceCrypto_reopens.lossless sample_sealsApart
      (fun _ nodup _ => nodup.length_le_card.trans (by decide)) reached 2 rfl
  exact ⟨tampered, ⟨record, everywhere⟩, restores⟩

end Redactor
