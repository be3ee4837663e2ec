import Redactor.Service.Simulation

/-!
# Requests that succeed

The requests that succeed stand in a row, each of them continuing the session
of the one before it.  So the latest session continues the sessions of all of
them, accepts their permits and restores what they have redacted.
-/

namespace Redactor

open Utf8 Fallible VersionedStore

section Redaction

variable {ι : Type} {runtime : Runtime} {externalId : Text}
  {requests : ι → StatefulRequest}

/-- A session that a request for the external identifier has built. -/
structure StoredWell (runtime : Runtime) (externalId : Text)
    (session : RedactionSession) : Prop where
  formatted : FormattedSession runtime session
  external : session.externalId = some externalId

/-- A request is a round of one fragment. -/
def StatefulRequest.round (request : StatefulRequest) (externalId : Text)
    (redactedText : Text) : Round where
  externalId := some externalId
  scopeId := request.scopeId
  fragments := [request.fragment]
  originalText := request.text
  redactedText := redactedText
  policy := request.policy
  sessionId := request.sessionId
  permitId := request.permitId

theorem StatefulRequest.redact_round {request : StatefulRequest}
    {prior : Option RedactionSession} {artifact : RedactionArtifact}
    (done :
      request.redactArtifact runtime prior (some externalId) =
        some (.ok artifact)) :
    (request.round externalId artifact.redactedText).redact runtime prior =
      some
        { session := artifact.session
          outputs := [artifact.redactedText] } := by
  unfold StatefulRequest.redactArtifact at done
  cases start :
      ReplacementProcessor.withPriorSession runtime prior (some externalId)
        request.scopeId with
  | error message =>
      rw [start] at done
      cases done
  | ok processor =>
      rw [start] at done
      simp only [Option.bind_eq_bind, Option.bind_eq_some_iff] at done
      obtain ⟨⟨after, redactedText⟩, redacted, result⟩ := done
      cases result
      have redactedFragments :
          processor.redactFragments runtime [request.fragment] =
            some (after, [redactedText]) := by
        simp [ReplacementProcessor.redactFragments, StatefulRequest.fragment,
          redacted]
      simp [Round.redact, StatefulRequest.round, start, Except.toOption,
        redactedFragments]

theorem StatefulRequest.round_allowed {request : StatefulRequest}
    {prior : Option RedactionSession} (redactedText : Text)
    (countersFit : request.CountersFit runtime externalId prior)
    (good : ∀ before, prior = some before →
      StoredWell runtime externalId before) :
    RoundAllowed runtime prior (request.round externalId redactedText) where
  scopeId := request.scopeDrawn
  sessionId := request.sessionNamed
  externalId := fun session isPrior =>
    .inr (good session isPrior).external.symm
  ordered := by
    intro fragment member
    rw [List.mem_singleton.mp member]
    exact request.ordered
  limits := by
    intro processor started
    have limits := countersFit processor started
    simpa [StatefulRequest.round, StatefulRequest.fragment] using limits

/-- A first session has the external identifier of the request. -/
theorem StatefulRequest.externalId_of_first {request : StatefulRequest}
    {artifact : RedactionArtifact}
    (done :
      request.redactArtifact runtime none (some externalId) =
        some (.ok artifact)) :
    artifact.session.externalId = some externalId := by
  unfold StatefulRequest.redactArtifact at done
  simp only [ReplacementProcessor.withPriorSession, Option.bind_eq_bind,
    Option.bind_eq_some_iff] at done
  obtain ⟨⟨after, redactedText⟩, redacted, result⟩ := done
  cases result
  obtain ⟨allocated, _⟩ :=
    ReplacementProcessor.redactFrom_spec redacted
      (by simp [ReplacementProcessor.Recorded])
  exact (allocateAll_extends allocated).externalId

/-- What one request makes: a session that is well formed and continues the one
that was loaded, and a redacted text that its own tokens resolve. -/
theorem makes_spec {request : ι} {prior : Option RedactionSession}
    {artifact : RedactionArtifact}
    (makes : Makes runtime externalId requests request prior artifact)
    (good : ∀ before, prior = some before →
      StoredWell runtime externalId before) :
    StoredWell runtime externalId artifact.session ∧
      (∀ before, prior = some before →
        Continues before artifact.session) ∧
      ((requests request).fragment.Placed →
        Woven
          (fun token original =>
            token ∈ artifact.session.issuedTokens ∧
              IsToken runtime token ∧
              (RestoreContext.new artifact.session).original? token =
                some original)
          (requests request).text artifact.redactedText
          (requests request).findings.length) := by
  obtain ⟨countersFit, done⟩ := makes
  have allowed :=
    StatefulRequest.round_allowed artifact.redactedText countersFit good
  obtain ⟨outcome, outcomeIs, formatted, continues, woven⟩ :=
    round_redacts allowed fun session isPrior =>
      (good session isPrior).formatted
  rw [StatefulRequest.redact_round done] at outcomeIs
  cases outcomeIs
  refine ⟨⟨formatted, ?_⟩, continues, ?_⟩
  · cases prior with
    | some before =>
        have kept := (continues before rfl).externalId
        exact kept.symm.trans (good before rfl).external
    | none =>
        exact StatefulRequest.externalId_of_first done
  · intro placed
    have outputs :=
      woven fun fragment member => by
        rw [List.mem_singleton.mp member]
        exact placed
    cases outputs with
    | cons first _ =>
        exact first

end Redaction

/-! ## All requests -/

/-- What the latest session owes a request that has succeeded. -/
structure Served (runtime : Runtime) (request : StatefulRequest)
    (artifact : RedactionArtifact) (latest : RedactionSession) : Prop where
  continuity : validateContinuity artifact.session latest = .ok ()
  restored :
    ∃ context,
      RestoreContext.withPermits latest
          [createRestorePermit artifact.session request.permitId] =
        .ok context ∧
      (request.fragment.Placed →
        context.restoreText runtime artifact.redactedText =
          RestoreResult.complete request.text request.findings.length)

section Requests

variable {ι : Type} (runtime : Runtime) (externalId : Text)
  (requests : ι → StatefulRequest)

/-- The requests have succeeded one after the other, with consecutive versions,
each with what it has made of the session of the one before it. -/
def InSuccession (progress : ι → Progress) :
    Nat → Option StoredSession → List ι → Option StoredSession → Prop
  | _, prior, [], latest => latest = prior
  | index, prior, request :: rest, latest =>
      ∃ artifact,
        progress request =
          .succeeded prior artifact (numeral (index + 1)) ∧
        (requests request).redactArtifact runtime
            (prior.map StoredSession.session) (some externalId) =
          some (.ok artifact) ∧
        InSuccession progress (index + 1)
          (some
            { session := artifact.session
              version := numeral (index + 1) })
          rest latest

/-- The requests of `order` are those that have succeeded, one after the other;
the latest session serves all of them, and no token has two meanings. -/
structure Consistent {σ : Type} (backend : StoreBackend σ)
    (server : Server ι σ) (order : List ι) (latest : Option StoredSession) :
    Prop where
  nodup : order.Nodup
  members :
    ∀ request, request ∈ order ↔
      ∃ stored artifact version,
        server.progress request = .succeeded stored artifact version
  loaded : loadLatest backend server.store = .ok latest
  succession :
    InSuccession runtime externalId requests server.progress 0 none order
      latest
  served :
    ∀ request stored artifact version,
      server.progress request = .succeeded stored artifact version →
      ∃ last, latest.map StoredSession.session = some last ∧
        Served runtime (requests request) artifact last
  meanings :
    ∀ first firstStored firstArtifact firstVersion
      second secondStored secondArtifact secondVersion,
      server.progress first =
        .succeeded firstStored firstArtifact firstVersion →
      server.progress second =
        .succeeded secondStored secondArtifact secondVersion →
      ∀ left ∈ firstArtifact.session.entries,
        ∀ right ∈ secondArtifact.session.entries,
          left.token = right.token →
            left.kind = right.kind ∧ left.original = right.original

variable {runtime externalId requests}

theorem inSuccession_of_row {progress : ι → Progress}
    {phase : ι → Phase RedactionSession RedactionArtifact}
    (same : ∀ request, progress request = toProgress (phase request))
    (made :
      ∀ request seen artifact, phase request = .saved seen artifact →
        Makes runtime externalId requests request
          (seen.map Versioned.value) artifact)
    {order : List ι} {seen latest : Option (Versioned RedactionSession)}
    (row : Row RedactionArtifact.session phase seen order latest) :
    InSuccession runtime externalId requests progress (versionOf seen)
      (seen.map toStored) order (latest.map toStored) := by
  induction order generalizing seen with
  | nil =>
      exact congrArg _ row
  | cons request rest inductionHypothesis =>
      obtain ⟨artifact, saved, later⟩ := row
      have prior :
          (seen.map toStored).map StoredSession.session =
            seen.map Versioned.value := by
        cases seen <;> rfl
      refine ⟨artifact, ?_, ?_, inductionHypothesis later⟩
      · rw [same request, saved]
        rfl
      · rw [prior]
        exact (made request seen artifact saved).2

/-- A session that continues the one a request has built serves the request. -/
theorem served_of_continues {request : ι} {prior : Option RedactionSession}
    {artifact : RedactionArtifact} {latest : RedactionSession}
    (makes : Makes runtime externalId requests request prior artifact)
    (good : ∀ before, prior = some before →
      StoredWell runtime externalId before)
    (continues : Continues artifact.session latest) :
    Served runtime (requests request) artifact latest := by
  obtain ⟨⟨formatted, _⟩, _, woven⟩ := makes_spec makes good
  have valid := formatted.valid
  refine ⟨validateContinuity_eq_ok.mpr continues, ?_⟩
  have fits :
      ∀ permit ∈
          [createRestorePermit artifact.session
            (requests request).permitId],
        PermitFits latest permit := by
    intro permit member
    rw [List.mem_singleton.mp member]
    exact ⟨rfl, continues.scopeId, continues.externalId,
      fun token issued => continues.tokens (valid.known token issued)⟩
  obtain ⟨authorized, done, members⟩ := authorizedTokens_of_fits fits
  refine ⟨.fromAuthorizedTokens latest authorized, ?_, ?_⟩
  · rw [RestoreContext.withPermits, done, ok_bind]
  · intro placed
    apply context_restoreText_of_woven
    apply (woven placed).mono
    intro token original resolved
    obtain ⟨issued, isToken, found⟩ := resolved
    obtain ⟨kept, before, after⟩ :=
      continues.original? (valid.known token issued)
        artifact.session.issuedTokens authorized
    rw [RestoreContext.new, before] at found
    cases found
    refine ⟨isToken, (members token).mpr ?_, after⟩
    exact ⟨_, List.mem_singleton_self _, issued⟩

/-- In every interleaving the requests that succeed are consistent. -/
theorem concurrent_requests_consistent {σ : Type} [DecidableEq ι]
    {backend : StoreBackend σ} {server : Server ι σ}
    (reachable :
      ReachableServer runtime backend externalId requests server) :
    ∃ order latest,
      Consistent runtime externalId requests backend server order latest := by
  obtain ⟨system, reached, represents⟩ := represents_of_reachable reachable
  obtain ⟨order, inRow⟩ := inRow_of_reachable reached
  have saved :
      ∀ request stored artifact version,
        server.progress request = .succeeded stored artifact version →
        ∃ seen, system.phase request = .saved seen artifact := by
    intro request stored artifact version succeeded
    rw [represents.progress request] at succeeded
    cases phase : system.phase request <;>
      simp [phase, toProgress] at succeeded
    exact ⟨_, by rw [succeeded.2.1]⟩
  obtain ⟨_, _, along⟩ :=
    inRow.row.spreads
      (fun session good =>
        Continues.refl good.formatted.valid)
      (fun _ _ _ first second => first.trans second)
      (fun request _ seen artifact isSaved good =>
        have spec := makes_spec (inRow.saved request seen artifact isSaved) good
        ⟨spec.1, spec.2.1⟩)
      (by simp)
  -- what every successful request can rely on
  have each :
      ∀ request stored artifact version,
        server.progress request = .succeeded stored artifact version →
        ∃ last, (system.stored.map Versioned.value) = some last ∧
          Continues artifact.session last ∧
          Served runtime (requests request) artifact last := by
    intro request stored artifact version succeeded
    obtain ⟨seen, isSaved⟩ := saved request stored artifact version succeeded
    have member := (inRow.members request).mpr ⟨seen, artifact, isSaved⟩
    obtain ⟨goodBefore, _, last, isLast, continues⟩ :=
      along request member seen artifact isSaved
    exact ⟨last, isLast, continues,
      served_of_continues (inRow.saved request seen artifact isSaved)
        goodBefore continues⟩
  have latestSession :
      (system.stored.map toStored).map StoredSession.session =
        system.stored.map Versioned.value := by
    cases system.stored <;> rfl
  refine ⟨order, system.stored.map toStored, inRow.nodup, ?_,
    loadLatest_of_holds represents.store,
    inSuccession_of_row represents.progress inRow.saved inRow.row, ?_, ?_⟩
  · intro request
    rw [inRow.members request]
    constructor
    · intro isSaved
      obtain ⟨seen, artifact, phase⟩ := isSaved
      exact ⟨_, _, _, by rw [represents.progress request, phase]; rfl⟩
    · intro succeeded
      obtain ⟨stored, artifact, version, isSucceeded⟩ := succeeded
      obtain ⟨seen, isSaved⟩ :=
        saved request stored artifact version isSucceeded
      exact ⟨seen, artifact, isSaved⟩
  · intro request stored artifact version succeeded
    obtain ⟨last, isLast, _, served⟩ :=
      each request stored artifact version succeeded
    exact ⟨last, latestSession.trans isLast, served⟩
  · intro first _ firstArtifact _ second _ secondArtifact _ firstDone
      secondDone left leftMember right rightMember sameToken
    obtain ⟨last, isLast, fromFirst, _⟩ := each _ _ _ _ firstDone
    obtain ⟨last', isLast', fromSecond, _⟩ := each _ _ _ _ secondDone
    rw [isLast] at isLast'
    cases isLast'
    obtain ⟨kept, found, keptLeft⟩ := fromFirst.entries left leftMember
    obtain ⟨kept', found', keptRight⟩ :=
      fromSecond.entries right rightMember
    rw [sameToken, found'] at found
    cases found
    exact ⟨keptLeft.kind.trans keptRight.kind.symm,
      keptLeft.original.trans keptRight.original.symm⟩

end Requests

/-- A backend that keeps sessions as they are. -/
def sampleBackend : StoreBackend RedactionSession where
  encrypt := fun _ session => session
  decrypt := some
  decrypt_encrypt := fun _ _ => rfl
  numberText := numeral
  numberText_of_lt := fun _ _ => rfl

/-- Two requests with one address each, and one with both addresses. -/
def sampleRequests : Fin 3 → StatefulRequest
  | 0 =>
      { text := lit "x@y.z"
        findings := [sampleFinding]
        policy := {}
        scopeId := lit "ab"
        sessionId := lit "s1"
        permitId := lit "p1"
        draw := 0
        ordered := ⟨by decide, by decide, trivial⟩
        scopeDrawn := by decide
        sessionNamed := by decide }
  | 1 =>
      { text := lit "c@d.e"
        findings := [{ sampleFinding with matchText := lit "c@d.e" }]
        policy := {}
        scopeId := lit "cd"
        sessionId := lit "s2"
        permitId := lit "p2"
        draw := 1
        ordered := ⟨by decide, by decide, trivial⟩
        scopeDrawn := by decide
        sessionNamed := by decide }
  | 2 =>
      { text := lit "x@y.z c@d.e"
        findings :=
          [sampleFinding,
            { sampleFinding with
              matchText := lit "c@d.e", start := 6, finish := 11 }]
        policy := {}
        scopeId := lit "ef"
        sessionId := lit "s3"
        permitId := lit "p3"
        draw := 2
        ordered := ⟨by decide, by decide, by decide, by decide, trivial⟩
        scopeDrawn := by decide
        sessionNamed := by decide }

/-- Requests 0 and 1 load the empty store; 1 saves first, 0 fails, and 2 goes on
from the session of 1. -/
theorem concurrent_requests_consistent_race :
    ∃ server : Server (Fin 3) RedactionSession,
      server.progress 0 = .failed ∧
      (∃ stored artifact version,
        server.progress 2 = .succeeded stored artifact version) ∧
      ∃ order latest,
        Consistent sampleRuntime (lit "u1") sampleRequests sampleBackend
          server order latest := by
  have start :=
    @ReachableServer.initial (Fin 3) _ _ sampleRuntime sampleBackend (lit "u1")
      sampleRequests
  have loaded₀ := start.step (.load _ 0 none rfl rfl rfl)
  have loaded₁ := loaded₀.step (.load _ 1 none rfl rfl rfl)
  have redacted₀ :=
    loaded₁.step
      (.redact _ 0 _ _ rfl
        (by
          intro processor started
          obtain rfl := Except.ok.inj started
          decide +kernel)
        rfl)
  have redacted₁ :=
    redacted₀.step
      (.redact _ 1 _ _ rfl
        (by
          intro processor started
          obtain rfl := Except.ok.inj started
          decide +kernel)
        rfl)
  have saved₁ :=
    redacted₁.step
      (.save _ 1 _ _ _ _ rfl
        (by
          intro current present
          cases present)
        rfl)
  have failed₀ :=
    saved₁.step
      (.fail _ 0
        (by
          intro stored artifact version succeeded
          cases succeeded))
  have loaded₂ := failed₀.step (.load _ 2 _ rfl rfl rfl)
  have redacted₂ :=
    loaded₂.step
      (.redact _ 2 _ _ rfl
        (by
          intro processor started
          obtain rfl := Except.ok.inj started
          decide +kernel)
        rfl)
  have saved₂ :=
    redacted₂.step
      (.save _ 2 _ _ _ _ rfl
        (by
          intro current present
          cases present
          decide)
        rfl)
  exact ⟨_, rfl, ⟨_, _, _, rfl⟩, concurrent_requests_consistent saved₂⟩

end Redactor
