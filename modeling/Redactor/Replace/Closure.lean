import Redactor.Replace.Rounds

/-!
# When the library accepts its own sessions

A prior session that was accepted can still lead to a session that the library
refuses.  A scope with a separator makes every new token unreadable; an
identifier that the prior session lacks ends the continuity; and at the limit
of its type a counter or a number of occurrences aborts or wraps around.  These
are all the cases.
-/

namespace Redactor

open Utf8 Fallible

/-- The session validates, it starts a restore state, and the state of the prior
session advances to it. -/
def SessionAccepted (runtime : Runtime) (prior session : RedactionSession)
    (priorPermitId permitId : Text) : Prop :=
  validateSession runtime session = .ok () ∧
    (∃ state, RestoreState.new runtime session permitId = .ok state) ∧
    ∃ state later,
      RestoreState.new runtime prior priorPermitId = .ok state ∧
        state.advance runtime session permitId = .ok later

/-- Redacting the fragments gives a session that is accepted. -/
def RedactionAccepted (runtime : Runtime) (prior : RedactionSession)
    (processor : ReplacementProcessor) (fragments : List Fragment)
    (originalText redactedText : Text) (policy : RedactionPolicy)
    (sessionId priorPermitId permitId : Text) : Prop :=
  ∃ after outputs,
    processor.redactFragments runtime fragments = some (after, outputs) ∧
      SessionAccepted runtime prior
        (after.buildSession runtime originalText redactedText policy
          sessionId)
        priorPermitId permitId

/-- What the input must satisfy for that. -/
structure StaysAcceptable (runtime : Runtime) (prior : RedactionSession)
    (externalId : Option Text) (processor : ReplacementProcessor)
    (fragments : List Fragment) : Prop where
  externalId : externalId = none ∨ externalId = prior.externalId
  scopeId :
    ':' ∉ prior.scopeId ∨ ∀ fragment ∈ fragments, fragment.findings = []
  allocations :
    AllocationsFit runtime processor.state
      (fragments.flatMap Fragment.findings)
  occurrences :
    ∀ entry ∈ prior.entries,
      entry.occurrences ≤
        (entry.occurrences +
            countKey entry.key (fragments.flatMap Fragment.findings)) %
          (unsignedMax + 1)

section Acceptance

variable {runtime : Runtime}

/-- For a valid prior session, being accepted everywhere means to be valid and
to continue the prior session. -/
private theorem sessionAccepted_iff {prior session : RedactionSession}
    {priorPermitId permitId : Text} (valid : ValidSession runtime prior)
    (priorNamed : priorPermitId ≠ []) (named : permitId ≠ [])
    (different : permitId ≠ priorPermitId) :
    SessionAccepted runtime prior session priorPermitId permitId ↔
      ValidSession runtime session ∧ Continues prior session := by
  obtain ⟨state, built, sameSession, ids⟩ := new_of_valid valid priorNamed
  have invariant := stateInvariant_of_reachable (.new built)
  have fresh : permitId ∉ state.permits.map RestorePermit.permitId :=
    fun member => different (ids permitId member)
  have advances :=
    invariant.advance_iff session named fresh
  rw [sameSession] at advances
  rw [SessionAccepted, validateSession_eq_ok]
  constructor
  · rintro ⟨sessionValid, _, state', later, built', advanced⟩
    rw [built] at built'
    cases built'
    exact advances.mp ⟨later, advanced⟩
  · intro both
    obtain ⟨later, advanced⟩ := advances.mpr both
    obtain ⟨started, newBuilt, _⟩ := new_of_valid both.1 named
    exact ⟨both.1, ⟨started, newBuilt⟩, state, later, built, advanced⟩

/-- Once something is replaced, tokens that parse need a proper scope. -/
private theorem scope_of_parsed {state result : SessionState}
    {findings : List Finding} (nonempty : findings ≠ [])
    (allocated : allocateAll runtime state findings = some result)
    (parsed : result.Parsed runtime) :
    IsScope state.scopeId := by
  cases findings with
  | nil =>
      exact (nonempty rfl).elim
  | cons finding findings =>
      have extended := allocateAll_extends allocated
      obtain ⟨next, token, hint, step, rest⟩ := allocateAll_cons.mp allocated
      obtain ⟨allocation, found, _⟩ := step.allocated
      obtain ⟨_, later⟩ :=
        (allocateAll_extends rest).allocations _ allocation found
      obtain ⟨counter, read⟩ := parsed _ _ later
      rw [← extended.scopeId]
      exact (of_parseToken_eq_ok read).1

/-- An identifier is kept when it is not replaced by another. -/
private theorem externalId_kept_iff {requested existing : Option Text} :
    existing = requested.or existing ↔
      requested = none ∨ requested = existing := by
  cases requested with
  | none =>
      simp
  | some value =>
      simp [eq_comm]

section AfterRun

variable {prior : RedactionSession} {externalId : Option Text}
  {freshScope : Text} {processor after : ReplacementProcessor}
  {fragments : List Fragment} {outputs : List Text}

/-- A processor that has not replaced anything has nothing to account for. -/
private theorem recorded_of_withPriorSession
    (accepted :
      ReplacementProcessor.withPriorSession runtime (some prior) externalId
        freshScope = .ok processor) :
    processor.Recorded := by
  have nothingApplied := (of_withPriorSession_eq_ok accepted).2.1
  intro applied member
  rw [nothingApplied] at member
  cases member

/-- The occurrences of an entry of the prior session after a run. -/
private theorem occurrences_after
    (accepted :
      ReplacementProcessor.withPriorSession runtime (some prior) externalId
        freshScope = .ok processor)
    {findings : List Finding}
    (allocated :
      allocateAll runtime processor.state findings = some after.state)
    {entry : RestorationEntry} (member : entry ∈ prior.entries)
    (machineCount : entry.occurrences ≤ unsignedMax) :
    after.state.occurrences entry.key =
      (entry.occurrences + countKey entry.key findings) %
        (unsignedMax + 1) := by
  obtain ⟨_, _, _, _, loaded, _⟩ := of_withPriorSession_eq_ok accepted
  have before :
      processor.state.occurrences entry.key = entry.occurrences := by
    rw [SessionState.occurrences,
      (loaded entry.key (.ofEntry entry)).mpr ⟨entry, member, rfl, rfl⟩]
    rfl
  rw [allocateAll_occurrences entry.key (by rw [before]; exact machineCount)
    allocated, before]

/-- When the session that a run has built is accepted. -/
private theorem sessionAccepted_after_iff
    (accepted :
      ReplacementProcessor.withPriorSession runtime (some prior) externalId
        freshScope = .ok processor)
    (machineCounts :
      ∀ entry ∈ prior.entries, entry.occurrences ≤ unsignedMax)
    (done :
      processor.redactFragments runtime fragments = some (after, outputs))
    {originalText redactedText : Text} {policy : RedactionPolicy}
    {sessionId priorPermitId permitId : Text}
    (sessionNamed : sessionId ≠ []) (priorNamed : priorPermitId ≠ [])
    (named : permitId ≠ []) (different : permitId ≠ priorPermitId) :
    SessionAccepted runtime prior
        (after.buildSession runtime originalText redactedText policy
          sessionId)
        priorPermitId permitId ↔
      (after.state.Distinct ∧ after.state.Parsed runtime) ∧
      (externalId = none ∨ externalId = prior.externalId) ∧
      ∀ entry ∈ prior.entries,
        entry.occurrences ≤
          (entry.occurrences +
              countKey entry.key (fragments.flatMap Fragment.findings)) %
            (unsignedMax + 1) := by
  obtain ⟨valid, _, scopeId, external, loaded, _⟩ :=
    of_withPriorSession_eq_ok accepted
  obtain ⟨keyed, _, _⟩ := loaded.invariants valid scopeId
  obtain ⟨allocated, recordedAfter⟩ :=
    ReplacementProcessor.redactFragments_spec done
      (recorded_of_withPriorSession accepted)
  have extended := allocateAll_extends allocated
  have keyedAfter : after.state.Keyed := keyed_allocateAll keyed allocated
  have scopeAfter : after.state.scopeId ≠ [] := by
    rw [extended.scopeId, scopeId]
    exact valid.scopeId
  rw [sessionAccepted_iff valid priorNamed named different,
    ReplacementProcessor.validSession_buildSession_iff keyedAfter
      recordedAfter scopeAfter sessionNamed]
  refine and_congr_right fun sound => ?_
  rw [ReplacementProcessor.continues_buildSession_iff valid loaded scopeId
    extended sound.1, extended.externalId, external, externalId_kept_iff]
  refine and_congr_right fun _ => forall₂_congr fun entry member => ?_
  rw [occurrences_after accepted allocated member
    (machineCounts entry member)]

end AfterRun

end Acceptance

/-- The session of a redaction is accepted exactly when the identifier is kept,
new tokens have a proper scope, and no number gets past its limit. -/
theorem redactionAccepted_iff (runtime : Runtime)
    (prior : RedactionSession) (externalId : Option Text) (freshScope : Text)
    (processor : ReplacementProcessor)
    (accepted :
      ReplacementProcessor.withPriorSession runtime (some prior) externalId
        freshScope = .ok processor)
    (machineCounts :
      ∀ entry ∈ prior.entries, entry.occurrences ≤ unsignedMax)
    (fragments : List Fragment)
    (ordered : ∀ fragment ∈ fragments, fragment.InOrder)
    (originalText redactedText : Text) (policy : RedactionPolicy)
    (sessionId priorPermitId permitId : Text)
    (sessionNamed : sessionId ≠ []) (priorNamed : priorPermitId ≠ [])
    (named : permitId ≠ []) (different : permitId ≠ priorPermitId) :
    RedactionAccepted runtime prior processor fragments originalText
        redactedText policy sessionId priorPermitId permitId ↔
      StaysAcceptable runtime prior externalId processor fragments := by
  obtain ⟨valid, _, scopeId, _, loaded, _⟩ :=
    of_withPriorSession_eq_ok accepted
  obtain ⟨_, distinct, parsed⟩ := loaded.invariants valid scopeId
  have findingsEmpty_iff :
      fragments.flatMap Fragment.findings = [] ↔
        ∀ fragment ∈ fragments, fragment.findings = [] :=
    List.flatMap_eq_nil_iff
  constructor
  · intro run
    obtain ⟨after, outputs, done, acceptedAfter⟩ := run
    have allocated :=
      (ReplacementProcessor.redactFragments_spec done
        (recorded_of_withPriorSession accepted)).1
    obtain ⟨⟨distinctAfter, parsedAfter⟩, externalKept, counts⟩ :=
      (sessionAccepted_after_iff accepted machineCounts done sessionNamed
        priorNamed named different).mp acceptedAfter
    refine ⟨externalKept, ?_, ?_, counts⟩
    · by_cases nothing : fragments.flatMap Fragment.findings = []
      · exact .inr (findingsEmpty_iff.mp nothing)
      · left
        rw [← scopeId]
        exact (scope_of_parsed nothing allocated parsedAfter).2
    · exact (allocationsFit_iff distinct).mpr ⟨_, allocated, distinctAfter⟩
  · intro stays
    obtain ⟨result, allocated, distinctAfter⟩ :=
      (allocationsFit_iff distinct).mp stays.allocations
    obtain ⟨after, outputs, done, rfl⟩ :=
      ReplacementProcessor.redactFragments_of_allocateAll processor ordered
        allocated
    have parsedAfter : after.state.Parsed runtime := by
      apply parsed_allocateAll parsed _ allocated
      rw [scopeId, findingsEmpty_iff]
      exact stays.scopeId.imp_left fun noSeparator =>
        ⟨valid.scopeId, noSeparator⟩
    refine ⟨after, outputs, done, ?_⟩
    rw [sessionAccepted_after_iff accepted machineCounts done sessionNamed
      priorNamed named different]
    exact
      ⟨⟨distinctAfter, parsedAfter⟩, stays.externalId, stays.occurrences⟩

/-- A session without entries in the given scope. -/
def emptySession (scopeId : Text) : RedactionSession where
  version := 2
  sessionId := lit "s1"
  scopeId := scopeId
  externalId := none
  fingerprint := []
  redactedFingerprint := []
  redactedText := []
  policy := {}
  entries := []
  issuedTokens := []

/-- In a scope without a separator the address is replaced, and the session
accepted. -/
theorem redactionAccepted_iff_one_address :
    ∃ processor,
      ReplacementProcessor.withPriorSession sampleRuntime
          (some (emptySession (lit "ab"))) none [] = .ok processor ∧
        StaysAcceptable sampleRuntime (emptySession (lit "ab")) none
          processor [sampleFragment] ∧
        RedactionAccepted sampleRuntime (emptySession (lit "ab")) processor
          [sampleFragment] (lit "x@y.z") (sampleToken 1) {} (lit "s2")
          (lit "p1") (lit "p2") := by
  have continued :
      ∃ processor,
        ReplacementProcessor.withPriorSession sampleRuntime
            (some (emptySession (lit "ab"))) none [] = .ok processor ∧
          StaysBelowLimit sampleRuntime processor.state [sampleFinding] :=
    ⟨_, rfl, by decide +kernel⟩
  obtain ⟨processor, accepted, below⟩ := continued
  obtain ⟨_, _, scopeId, _, _, counted⟩ := of_withPriorSession_eq_ok accepted
  have scope : IsScope processor.state.scopeId := by
    rw [scopeId]
    exact ⟨by decide, by decide⟩
  have stays :
      StaysAcceptable sampleRuntime (emptySession (lit "ab")) none processor
        [sampleFragment] :=
    ⟨.inl rfl, .inl (by decide),
      allocationsFit_of_staysBelowLimit scope counted below,
      by simp [emptySession]⟩
  refine ⟨processor, accepted, stays,
    (redactionAccepted_iff sampleRuntime _ none [] processor accepted ?_ _ ?_
      _ _ _ _ _ _ ?_ ?_ ?_ ?_).mpr stays⟩
  · simp [emptySession]
  · simp only [List.mem_singleton, forall_eq]
    exact ⟨by decide +kernel, by decide +kernel, trivial⟩
  all_goals decide

/-- A prior session in the scope `a:b` is accepted, and the session of the next
round is refused because of the token it has just issued. -/
theorem separator_scope_leads_to_refused_token :
    ∃ processor after,
      ReplacementProcessor.withPriorSession sampleRuntime
          (some (emptySession (lit "a:b"))) none [] = .ok processor ∧
        sampleFragment.InOrder ∧
        processor.redactFragments sampleRuntime [sampleFragment] =
          some (after, [lit "[[RDX:v2:a:b:EMAIL:001:e6deaab2]]"]) ∧
        validateSession sampleRuntime
            (after.buildSession sampleRuntime (lit "x@y.z")
              (lit "[[RDX:v2:a:b:EMAIL:001:e6deaab2]]") {} (lit "s2")) =
          .error
            (lit "invalid session entry token " ++
              quoted (lit "[[RDX:v2:a:b:EMAIL:001:e6deaab2]]") ++
              lit ": token contains unexpected trailing fields") ∧
        ¬ RedactionAccepted sampleRuntime (emptySession (lit "a:b"))
          processor [sampleFragment] (lit "x@y.z")
          (lit "[[RDX:v2:a:b:EMAIL:001:e6deaab2]]") {} (lit "s2") (lit "p1")
          (lit "p2") := by
  have redacted :
      ∃ after,
        ReplacementProcessor.redactFragments sampleRuntime
            { state := { scopeId := lit "a:b" } } [sampleFragment] =
          some (after, [lit "[[RDX:v2:a:b:EMAIL:001:e6deaab2]]"]) ∧
        validateSession sampleRuntime
            (after.buildSession sampleRuntime (lit "x@y.z")
              (lit "[[RDX:v2:a:b:EMAIL:001:e6deaab2]]") {} (lit "s2")) =
          .error
            (lit "invalid session entry token " ++
              quoted (lit "[[RDX:v2:a:b:EMAIL:001:e6deaab2]]") ++
              lit ": token contains unexpected trailing fields") :=
    ⟨_, rfl, rfl⟩
  obtain ⟨after, done, refused⟩ := redacted
  refine ⟨_, after, rfl, ⟨by decide +kernel, by decide +kernel, trivial⟩,
    done, refused, ?_⟩
  rintro ⟨after', outputs, done', accepted, _⟩
  obtain ⟨rfl, _⟩ := Prod.mk.inj (Option.some.inj (done.symm.trans done'))
  rw [refused] at accepted
  cases accepted

end Redactor
