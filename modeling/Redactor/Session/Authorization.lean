import Redactor.Session.State
import Mathlib.Data.List.Perm.Subperm

/-!
# Invariants of restore states

A restore state is reached by construction from a session, from parts or by
deserialization, and by any number of advances.  Beside the state, a run
records the permits as they were given; the state authorizes exactly what these
authorize together.
-/

namespace Redactor

open Utf8 Fallible

/-- A permit that normalization accepts. -/
structure PermitAccepted (session : RedactionSession)
    (permit : RestorePermit) : Prop extends PermitFits session permit where
  permitId : permit.permitId ≠ []

section Success

variable {session : RedactionSession}

private theorem validatePermit_eq_ok {permit : RestorePermit}
    {permitIds result : List Text} :
    validatePermit session permit session.tokens permitIds = .ok result ↔
      (permit.permitId ∉ permitIds ∧ PermitAccepted session permit) ∧
        result = permit.permitId :: permitIds := by
  have allKnown :
      (permit.issuedTokens.find? fun token => token ∉ session.tokens) =
          none ↔
        ∀ token ∈ permit.issuedTokens, token ∈ session.tokens := by
    simp [List.find?_eq_none]
  rw [validatePermit]
  simp only [ite_error_eq_ok, not_or, not_not]
  constructor
  · rintro ⟨version, named, fresh, ⟨scopeId, externalId⟩, done⟩
    split at done
    · cases done
    · rename_i noneUnknown
      exact ⟨⟨fresh, ⟨⟨version, scopeId, externalId,
        allKnown.mp noneUnknown⟩, named⟩⟩, (Except.ok.inj done).symm⟩
  · rintro ⟨⟨fresh, accepted⟩, rfl⟩
    refine ⟨accepted.version, accepted.permitId, fresh,
      ⟨accepted.scopeId, accepted.externalId⟩, ?_⟩
    rw [allKnown.mpr accepted.known]

private theorem normalizePermit_eq_ok {progress result : Normalization}
    {permit : RestorePermit} :
    normalizePermit session progress permit = .ok result ↔
      (permit.permitId ∉ progress.permitIds ∧
          PermitAccepted session permit) ∧
        result =
          { progress with
            permitIds := permit.permitId :: progress.permitIds }.retain
              permit := by
  rw [normalizePermit, bind_eq_ok]
  simp only [validatePermit_eq_ok, Except.ok.injEq]
  constructor
  · rintro ⟨_, ⟨accepted, rfl⟩, rfl⟩
    exact ⟨accepted, rfl⟩
  · rintro ⟨accepted, rfl⟩
    exact ⟨_, ⟨accepted, rfl⟩, rfl⟩

private theorem retain_collects (progress : Normalization)
    (permit : RestorePermit) :
    ({ progress with
        permitIds := permit.permitId :: progress.permitIds }.retain
          permit).permitIds =
      permit.permitId :: progress.permitIds := rfl

private theorem normalized_foldl (permits : List RestorePermit)
    (progress : Normalization) :
    (permits.foldl
        (fun progress permit =>
          { progress with
            permitIds := permit.permitId :: progress.permitIds }.retain
              permit)
        progress).normalized =
      progress.normalized ++ keepFirst progress.authorized permits := by
  induction permits generalizing progress with
  | nil =>
      simp [keepFirst]
  | cons head tail inductionHypothesis =>
      rw [List.foldl_cons, inductionHypothesis, keepFirst,
        Normalization.retain]
      simp only
      split
      · rfl
      · rw [List.append_assoc, List.singleton_append]

/-- Permits are normalized when each is acceptable and their identifiers are
distinct. -/
theorem normalizePermits_eq_ok {permits result : List RestorePermit} :
    normalizePermits session permits = .ok result ↔
      ((permits.map RestorePermit.permitId).Nodup ∧
          ∀ permit ∈ permits, PermitAccepted session permit) ∧
        result = keepFirst [] permits := by
  rw [normalizePermits, bind_eq_ok]
  simp only [foldlM_eq_ok_iff (fun _ _ _ => normalizePermit_eq_ok),
    admitted_and, admitted_const,
    admitted_distinct RestorePermit.permitId Normalization.permitIds
      (retain_collects)]
  constructor
  · rintro ⟨progress, ⟨⟨⟨distinct, _⟩, accepted⟩, rfl⟩, done⟩
    refine ⟨⟨distinct, accepted⟩, ?_⟩
    rw [← Except.ok.inj done, normalized_foldl, List.nil_append]
  · rintro ⟨⟨distinct, accepted⟩, rfl⟩
    refine ⟨_, ⟨⟨⟨distinct, by simp⟩, accepted⟩, rfl⟩, ?_⟩
    rw [normalized_foldl, List.nil_append]

end Success

namespace RestoreState

section Success

variable {runtime : Runtime} {session : RedactionSession}

theorem fromParts_eq_ok {permits : List RestorePermit}
    {state : RestoreState} :
    fromParts runtime session permits = .ok state ↔
      ValidSession runtime session ∧
        ((permits.map RestorePermit.permitId).Nodup ∧
          ∀ permit ∈ permits, PermitAccepted session permit) ∧
        state = ⟨session, keepFirst [] permits⟩ := by
  rw [fromParts, check_bind_eq_ok, bind_eq_ok, validateSession_eq_ok]
  simp only [normalizePermits_eq_ok, Except.ok.injEq]
  constructor
  · rintro ⟨valid, _, ⟨accepted, rfl⟩, rfl⟩
    exact ⟨valid, accepted, rfl⟩
  · rintro ⟨valid, accepted, rfl⟩
    exact ⟨valid, _, ⟨accepted, rfl⟩, rfl⟩

theorem new_eq_ok {permitId : Text} {state : RestoreState} :
    new runtime session permitId = .ok state ↔
      fromParts runtime session (issuedPermits session permitId) =
        .ok state := by
  rw [new, check_bind_eq_ok, validateSession_eq_ok]
  exact and_iff_right_of_imp fun done => (fromParts_eq_ok.mp done).1

theorem advance_eq_ok {state later : RestoreState} {permitId : Text} :
    state.advance runtime session permitId = .ok later ↔
      Continues state.session session ∧
        fromParts runtime session
            (state.permits ++ issuedPermits session permitId) =
          .ok later := by
  rw [advance, check_bind_eq_ok, check_bind_eq_ok, validateSession_eq_ok,
    validateContinuity_eq_ok]
  exact and_iff_right_of_imp fun done => (fromParts_eq_ok.mp done.2).1

end Success

end RestoreState

section IssuedPermits

variable {runtime : Runtime} {session : RedactionSession} {permitId : Text}

theorem authorizes_issuedPermits {token : Text} :
    Authorizes (issuedPermits session permitId) token ↔
      token ∈ session.issuedTokens := by
  unfold issuedPermits
  split
  · rename_i nothing
    simp [Authorizes, nothing]
  · simp [Authorizes, createRestorePermit]

theorem issuedPermits_accepted (valid : ValidSession runtime session)
    (named : permitId ≠ []) :
    ∀ permit ∈ issuedPermits session permitId,
      PermitAccepted session permit := by
  intro permit member
  unfold issuedPermits at member
  split at member
  · cases member
  · rw [List.mem_singleton.mp member]
    exact ⟨⟨rfl, rfl, rfl, valid.known⟩, named⟩

theorem permitIds_issuedPermits :
    ((issuedPermits session permitId).map RestorePermit.permitId).Sublist
      [permitId] := by
  unfold issuedPermits
  split
  · exact List.nil_sublist _
  · exact List.Sublist.refl _

end IssuedPermits

/-! ## The invariant -/

/-- What holds of every state that the library can build. -/
structure StateInvariant (runtime : Runtime) (state : RestoreState) : Prop
    where
  session : ValidSession runtime state.session
  nonempty : ∀ permit ∈ state.permits, permit.issuedTokens ≠ []
  accepted : ∀ permit ∈ state.permits, PermitAccepted state.session permit
  permitIds : (state.permits.map RestorePermit.permitId).Nodup
  once : (state.permits.flatMap RestorePermit.issuedTokens).Nodup

/-- The states of all runs, each with the permits that were given in the run,
as they were before normalization. -/
inductive Reachable (runtime : Runtime) :
    RestoreState → List RestorePermit → Prop
  | new {session : RedactionSession} {permitId : Text}
      {state : RestoreState} :
      RestoreState.new runtime session permitId = .ok state →
        Reachable runtime state (issuedPermits session permitId)
  | fromParts {session : RedactionSession} {permits : List RestorePermit}
      {state : RestoreState} :
      RestoreState.fromParts runtime session permits = .ok state →
        Reachable runtime state permits
  | deserialize {parts state : RestoreState} :
      RestoreState.deserialize runtime parts = .ok state →
        Reachable runtime state parts.permits
  | advance {state later : RestoreState} {given : List RestorePermit}
      {session : RedactionSession} {permitId : Text} :
      Reachable runtime state given →
        state.advance runtime session permitId = .ok later →
        Reachable runtime later (given ++ issuedPermits session permitId)

section Invariant

variable {runtime : Runtime}

/-- Whatever the parts are, the state built from them is normal. -/
theorem stateInvariant_of_fromParts {session : RedactionSession}
    {permits : List RestorePermit} {state : RestoreState}
    (built : RestoreState.fromParts runtime session permits = .ok state) :
    StateInvariant runtime state := by
  obtain ⟨valid, ⟨distinct, accepted⟩, rfl⟩ :=
    RestoreState.fromParts_eq_ok.mp built
  refine
    { session := valid
      nonempty := fun permit kept => (of_mem_keepFirst kept).1
      accepted := ?_
      permitIds := distinct.sublist permitIds_keepFirst
      once := nodup_keepFirst }
  intro permit kept
  obtain ⟨_, original, member, shape, subset⟩ := of_mem_keepFirst kept
  have fits := accepted original member
  rw [shape]
  exact ⟨⟨fits.version, fits.scopeId, fits.externalId,
    fun token inside => fits.known token (subset token inside)⟩,
    fits.permitId⟩

/-- A valid session starts a restore state. -/
theorem new_of_valid {session : RedactionSession} {permitId : Text}
    (valid : ValidSession runtime session) (named : permitId ≠ []) :
    ∃ state, RestoreState.new runtime session permitId = .ok state ∧
      state.session = session ∧
      ∀ id ∈ state.permits.map RestorePermit.permitId, id = permitId := by
  refine ⟨_, RestoreState.new_eq_ok.mpr (RestoreState.fromParts_eq_ok.mpr
    ⟨valid, ⟨?_, issuedPermits_accepted valid named⟩, rfl⟩), rfl, ?_⟩
  · exact (List.nodup_singleton permitId).sublist permitIds_issuedPermits
  · intro id member
    exact List.mem_singleton.mp
      (permitIds_issuedPermits.subset
        (permitIds_keepFirst.subset member))

/-- An acceptable permit is acceptable for every continuation. -/
theorem PermitAccepted.continue {previous next : RedactionSession}
    {permit : RestorePermit} (accepted : PermitAccepted previous permit)
    (continues : Continues previous next) :
    PermitAccepted next permit :=
  ⟨⟨accepted.version, accepted.scopeId.trans continues.scopeId,
    accepted.externalId.trans continues.externalId,
    fun token member => continues.tokens (accepted.known token member)⟩,
    accepted.permitId⟩

theorem stateInvariant_of_reachable {state : RestoreState}
    {given : List RestorePermit} (reach : Reachable runtime state given) :
    StateInvariant runtime state := by
  cases reach with
  | new built =>
      exact stateInvariant_of_fromParts (RestoreState.new_eq_ok.mp built)
  | fromParts built =>
      exact stateInvariant_of_fromParts built
  | deserialize built =>
      exact stateInvariant_of_fromParts built
  | advance _ advanced =>
      exact stateInvariant_of_fromParts
        (RestoreState.advance_eq_ok.mp advanced).2

/-- A state has as many references to tokens as it has authorized tokens,
which are entries of its session. -/
theorem StateInvariant.references_le {state : RestoreState}
    (invariant : StateInvariant runtime state) :
    (state.permits.flatMap RestorePermit.issuedTokens).length ≤
      state.session.entries.length := by
  have subset :
      state.permits.flatMap RestorePermit.issuedTokens ⊆
        state.session.tokens := by
    intro token member
    obtain ⟨permit, permitMember, inside⟩ := List.mem_flatMap.mp member
    exact (invariant.accepted permit permitMember).known token inside
  have bound := (List.subperm_of_subset invariant.once subset).length_le
  rwa [RedactionSession.tokens, List.length_map] at bound

/-- Building a state again from its own parts changes nothing. -/
theorem StateInvariant.fromParts_self {state : RestoreState}
    (invariant : StateInvariant runtime state) :
    RestoreState.fromParts runtime state.session state.permits =
      .ok state := by
  refine RestoreState.fromParts_eq_ok.mpr
    ⟨invariant.session, ⟨invariant.permitIds, invariant.accepted⟩, ?_⟩
  rw [keepFirst_eq_self invariant.nonempty invariant.once
    fun _ _ => List.not_mem_nil]

/-- A state advances to every valid continuation of its session. -/
theorem StateInvariant.advance_iff {state : RestoreState}
    (invariant : StateInvariant runtime state) (session : RedactionSession)
    {permitId : Text} (named : permitId ≠ [])
    (fresh : permitId ∉ state.permits.map RestorePermit.permitId) :
    (∃ later, state.advance runtime session permitId = .ok later) ↔
      ValidSession runtime session ∧ Continues state.session session := by
  constructor
  · rintro ⟨later, advanced⟩
    obtain ⟨continues, built⟩ := RestoreState.advance_eq_ok.mp advanced
    exact ⟨(RestoreState.fromParts_eq_ok.mp built).1, continues⟩
  · rintro ⟨valid, continues⟩
    refine ⟨_, RestoreState.advance_eq_ok.mpr ⟨continues,
      RestoreState.fromParts_eq_ok.mpr ⟨valid, ⟨?_, ?_⟩, rfl⟩⟩⟩
    · rw [List.map_append]
      have tail := @permitIds_issuedPermits session permitId
      refine List.Nodup.append invariant.permitIds
        ((List.nodup_singleton permitId).sublist tail) ?_
      intro id inState inNew
      rw [List.mem_singleton.mp (tail.subset inNew)] at inState
      exact fresh inState
    · intro permit member
      rcases List.mem_append.mp member with old | new
      · exact (invariant.accepted permit old).continue continues
      · exact issuedPermits_accepted valid named permit new

/-- The given permits of a run fit its state, and authorize what it does. -/
theorem given_of_reachable {state : RestoreState}
    {given : List RestorePermit} (reach : Reachable runtime state given) :
    (∀ permit ∈ given, PermitAccepted state.session permit) ∧
      ∀ token,
        Authorizes state.permits token ↔ Authorizes given token := by
  have ofParts :
      ∀ {session : RedactionSession} {permits : List RestorePermit}
        {state : RestoreState},
        RestoreState.fromParts runtime session permits = .ok state →
          (∀ permit ∈ permits, PermitAccepted state.session permit) ∧
            ∀ token,
              Authorizes state.permits token ↔ Authorizes permits token := by
    intro session permits state built
    obtain ⟨_, ⟨_, accepted⟩, rfl⟩ := RestoreState.fromParts_eq_ok.mp built
    exact ⟨accepted, fun token => by simp [authorizes_keepFirst]⟩
  induction reach with
  | new built =>
      exact ofParts (RestoreState.new_eq_ok.mp built)
  | fromParts built =>
      exact ofParts built
  | deserialize built =>
      exact ofParts built
  | advance _ advanced inductionHypothesis =>
      obtain ⟨acceptedBefore, sameBefore⟩ := inductionHypothesis
      obtain ⟨continues, built⟩ := RestoreState.advance_eq_ok.mp advanced
      obtain ⟨accepted, same⟩ := ofParts built
      obtain ⟨_, _, rfl⟩ := RestoreState.fromParts_eq_ok.mp built
      refine ⟨?_, fun token => ?_⟩
      · intro permit member
        rcases List.mem_append.mp member with old | new
        · exact (acceptedBefore permit old).continue continues
        · exact accepted permit (List.mem_append_right _ new)
      · rw [same, authorizes_append, authorizes_append, sameBefore]

end Invariant

/-- What a state owes to its callers: its invariant, contexts that never fail,
a bounded size, and an authorized set that follows the rounds of the run. -/
structure AuthorizationAlgebra (runtime : Runtime) (state : RestoreState)
    (given : List RestorePermit) : Prop where
  invariant : StateInvariant runtime state
  restoreContext :
    ∃ context, state.restoreContext = .ok context ∧
      ∀ token,
        token ∈ context.authorizedTokens ↔ Authorizes state.permits token
  streamingRestoreContext :
    ∃ stream, state.streamingRestoreContext = .ok stream
  references :
    (state.permits.flatMap RestorePermit.issuedTokens).length ≤
      state.session.entries.length
  fromParts :
    RestoreState.fromParts runtime state.session state.permits = .ok state
  given :
    ∃ context, RestoreContext.withPermits state.session given = .ok context ∧
      ∀ text,
        state.restoreText runtime text =
          .ok (context.restoreText runtime text)
  advances :
    ∀ session permitId, permitId ≠ [] →
      permitId ∉ state.permits.map RestorePermit.permitId →
      ((∃ later, state.advance runtime session permitId = .ok later) ↔
        validateSession runtime session = .ok () ∧
          validateContinuity state.session session = .ok ())
  advanced :
    ∀ session permitId later,
      state.advance runtime session permitId = .ok later →
        later.session = session ∧
          (∀ token,
            Authorizes later.permits token ↔
              Authorizes state.permits token ∨
                token ∈ session.issuedTokens) ∧
          ∀ token, Authorizes state.permits token →
            ∃ original,
              (RestoreContext.new state.session).original? token =
                  some original ∧
                (RestoreContext.new later.session).original? token =
                  some original

section Algebra

variable {runtime : Runtime} {session : RedactionSession}

/-- Acceptable permits give a context that authorizes their tokens. -/
theorem withPermits_of_accepted {permits : List RestorePermit}
    (accepted : ∀ permit ∈ permits, PermitAccepted session permit) :
    ∃ authorized,
      RestoreContext.withPermits session permits =
          .ok (.fromAuthorizedTokens session authorized) ∧
        ∀ token, token ∈ authorized ↔ Authorizes permits token := by
  obtain ⟨authorized, done, members⟩ :=
    authorizedTokens_of_fits fun permit member =>
      (accepted permit member).toPermitFits
  exact ⟨authorized, by rw [RestoreContext.withPermits, done, ok_bind],
    members⟩

/-- The order and the repetition of authorized tokens do not matter. -/
theorem restoreText_eq_of_sameMembers {left right : List Text}
    (same : ∀ token, token ∈ left ↔ token ∈ right) :
    RestoreContext.restoreText runtime (.fromAuthorizedTokens session left) =
      RestoreContext.restoreText runtime
        (.fromAuthorizedTokens session right) := by
  apply restoreText_congr
  funext candidate
  simp only [RestoreContext.restoreCandidate,
    RestoreContext.authorizedTokens_fromAuthorizedTokens, same,
    original?_fromAuthorizedTokens]

/-- An advance adds the issued tokens, and keeps the originals. -/
theorem StateInvariant.advanced {state later : RestoreState}
    (invariant : StateInvariant runtime state) {permitId : Text}
    (advanced : state.advance runtime session permitId = .ok later) :
    later.session = session ∧
      (∀ token,
        Authorizes later.permits token ↔
          Authorizes state.permits token ∨ token ∈ session.issuedTokens) ∧
      ∀ token, Authorizes state.permits token →
        ∃ original,
          (RestoreContext.new state.session).original? token =
              some original ∧
            (RestoreContext.new later.session).original? token =
              some original := by
  obtain ⟨continues, built⟩ := RestoreState.advance_eq_ok.mp advanced
  obtain ⟨_, _, rfl⟩ := RestoreState.fromParts_eq_ok.mp built
  refine ⟨rfl, fun token => ?_, fun token authorized => ?_⟩
  · simp [authorizes_keepFirst, authorizes_append, authorizes_issuedPermits]
  · obtain ⟨permit, member, inside⟩ := authorized
    exact continues.original?
      ((invariant.accepted permit member).known token inside) _ _

end Algebra

/-- Every state of every run keeps the invariant and the authorization of its
rounds. -/
theorem authorizationAlgebra_of_reachable (runtime : Runtime)
    (state : RestoreState) (given : List RestorePermit)
    (reach : Reachable runtime state given) :
    AuthorizationAlgebra runtime state given := by
  have invariant := stateInvariant_of_reachable reach
  obtain ⟨givenAccepted, sameAuthorized⟩ := given_of_reachable reach
  obtain ⟨authorized, accepted, members⟩ :=
    withPermits_of_accepted invariant.accepted
  obtain ⟨givenAuthorized, acceptedGiven, givenMembers⟩ :=
    withPermits_of_accepted givenAccepted
  exact
    { invariant
      restoreContext := ⟨_, accepted, members⟩
      streamingRestoreContext :=
        ⟨⟨_, []⟩, by
          rw [RestoreState.streamingRestoreContext,
            StreamingRestoreContext.withPermits, accepted, ok_bind]⟩
      references := invariant.references_le
      fromParts := invariant.fromParts_self
      given := by
        refine ⟨_, acceptedGiven, fun text => ?_⟩
        have same : ∀ token, token ∈ authorized ↔ token ∈ givenAuthorized :=
          fun token => by rw [members, givenMembers, sameAuthorized]
        rw [RestoreState.restoreText, RestoreState.restoreContext, accepted,
          ok_bind, restoreText_eq_of_sameMembers same]
      advances := by
        intro session permitId named fresh
        rw [validateSession_eq_ok, validateContinuity_eq_ok]
        exact invariant.advance_iff session named fresh
      advanced := fun _ _ _ => invariant.advanced }

/-- A new state, advanced to a session that has issued both tokens: the token
of the first permit is not kept twice. -/
theorem authorizationAlgebra_of_reachable_two_rounds :
    AuthorizationAlgebra sampleRuntime
      ⟨{ sampleSession (lit "b@b.fr") with
          issuedTokens := [sampleToken 1, sampleToken 2] },
        [samplePermit,
          { samplePermit with
            permitId := lit "p2"
            issuedTokens := [sampleToken 2] }]⟩
      (issuedPermits (sampleSession (lit "b@b.fr")) (lit "p1") ++
        issuedPermits
          { sampleSession (lit "b@b.fr") with
            issuedTokens := [sampleToken 1, sampleToken 2] }
          (lit "p2")) := by
  have started :
      RestoreState.new sampleRuntime (sampleSession (lit "b@b.fr"))
          (lit "p1") =
        .ok ⟨sampleSession (lit "b@b.fr"), [samplePermit]⟩ :=
    rfl
  refine authorizationAlgebra_of_reachable sampleRuntime _ _
    (.advance (.new started) ?_)
  rfl

end Redactor
