import Redactor.Session.SinglePass
import Redactor.Service.Restoring

/-!
# What a stateful restore substitutes

The permits of answers fix a value for each token that the answers have issued.
A stateful restore puts these values into the text and leaves everything else
as it is, now and after whatever the service does later.
-/

namespace Redactor

open Utf8 Fallible

/-- What is said about a candidate that is no token. -/
def complaint? (runtime : Runtime) (candidate : Text) : Option Text :=
  match parseToken runtime candidate with
  | .ok _ => none
  | .error error => some (malformedMessage candidate error)

/-- The text with every candidate replaced that has a value, and what is
reported about the others. -/
def substituted (runtime : Runtime) (values : Text → Option Text)
    (text : Text) : RestoreResult where
  restoredText :=
    replaceFrom (fun candidate => (values candidate).getD candidate) text 0
      (scanTokenLikeRanges text)
  restoredCount :=
    (tokenCandidates text).countP fun candidate => (values candidate).isSome
  skippedTokens :=
    (tokenCandidates text).filter fun candidate =>
      (complaint? runtime candidate).isNone && (values candidate).isNone
  unresolvedTokens := malformedTokens runtime text
  validationErrors := (tokenCandidates text).filterMap (complaint? runtime)

/-- The error about a text with malformed tokens. -/
def malformedError (runtime : Runtime) (text : Text) : ServiceError where
  message :=
    (lit "; ").intercalate
      ((tokenCandidates text).filterMap (complaint? runtime) ++
        [lit "unresolved tokens: " ++
          (lit ", ").intercalate (malformedTokens runtime text)])

section Substituted

variable {runtime : Runtime} {values : Text → Option Text} {text : Text}

theorem complaint?_eq_none {candidate : Text} :
    complaint? runtime candidate = none ↔
      ∃ parsed, parseToken runtime candidate = .ok parsed := by
  unfold complaint?
  cases parseToken runtime candidate <;> simp

theorem filterMap_complaint?_eq_nil :
    (tokenCandidates text).filterMap (complaint? runtime) = [] ↔
      malformedTokens runtime text = [] := by
  rw [List.filterMap_eq_nil_iff, malformedTokens, List.filter_eq_nil_iff]
  refine forall₂_congr fun candidate _ => ?_
  rw [complaint?_eq_none]
  cases parseToken runtime candidate <;> simp [Except.toOption]

/-- Only malformed tokens stand in the way of a restore. -/
theorem ensureRestoreValid_substituted :
    plainError (do
        ensureRestoreValid (substituted runtime values text)
        .ok (substituted runtime values text)) =
      if malformedTokens runtime text = [] then
        .ok (substituted runtime values text)
      else
        .error (malformedError runtime text) := by
  by_cases wellFormed : malformedTokens runtime text = []
  · have silent := filterMap_complaint?_eq_nil.mpr wellFormed
    have valid : (substituted runtime values text).isValid = true := by
      rw [RestoreResult.isValid, substituted, silent, wellFormed]
      rfl
    rw [if_pos wellFormed, ensureRestoreValid, if_pos valid]
    rfl
  · have invalid : ¬ (substituted runtime values text).isValid = true := by
      simp [RestoreResult.isValid, substituted, wellFormed]
    rw [if_neg wellFormed, ensureRestoreValid, if_neg invalid,
      if_neg (show ¬ (substituted runtime values text).unresolvedTokens = []
        from wellFormed)]
    rfl

end Substituted

/-- The value that a context puts in the place of a token. -/
def RestoreContext.value? (context : RestoreContext) (token : Text) :
    Option Text :=
  if token ∈ context.authorizedTokens then context.original? token else none

section Context

variable {runtime : Runtime} {context : RestoreContext}

theorem RestoreContext.value?_eq_some {token value : Text} :
    context.value? token = some value ↔
      token ∈ context.authorizedTokens ∧
        context.original? token = some value := by
  unfold value?
  by_cases authorized : token ∈ context.authorizedTokens <;>
    simp [authorized]

/-- A candidate is replaced, skipped or reported. -/
theorem restoreCandidate_report {session : RedactionSession}
    {permits : List RestorePermit}
    (accepted : RestoreContext.withPermits session permits = .ok context)
    (candidate : Text) :
    let decided := context.restoreCandidate runtime candidate
    decided.skippedTokens =
        (Option.guard (fun candidate =>
          (complaint? runtime candidate).isNone &&
            (context.value? candidate).isNone) candidate).toList ∧
      decided.unresolvedTokens =
        (Option.guard (fun candidate =>
          (parseToken runtime candidate).toOption.isNone)
            candidate).toList ∧
      decided.validationErrors = (complaint? runtime candidate).toList := by
  intro decided
  cases parsed : parseToken runtime candidate with
  | error error =>
      simp [decided, RestoreContext.restoreCandidate, parsed, complaint?,
        Option.guard, Except.toOption, malformedMessage,
        RestoreResult.plain, RestoreResult.empty]
  | ok token =>
      by_cases authorized : candidate ∈ context.authorizedTokens
      · obtain ⟨original, known⟩ :=
          Option.isSome_iff_exists.mp (isSome_original? accepted authorized)
        simp [decided, RestoreContext.restoreCandidate, parsed, complaint?,
          authorized, known, RestoreContext.value?, Option.guard,
          Except.toOption, RestoreResult.plain, RestoreResult.empty]
      · simp [decided, RestoreContext.restoreCandidate, parsed, complaint?,
          authorized, RestoreContext.value?, Option.guard,
          Except.toOption, RestoreResult.plain, RestoreResult.empty]

/-- What is kept, seen as what each element contributes. -/
theorem filter_eq_flatMap {α : Type} (keeps : α → Bool) (list : List α) :
    list.filter keeps =
      list.flatMap fun a => (Option.guard keeps a).toList := by
  rw [← List.filterMap_eq_flatMap_toList]
  exact (congrFun List.filterMap_eq_filter list).symm

/-- Of three things, one becomes of each element. -/
theorem countP_add_filter {α : Type} {restored failed : α → Bool}
    (apart : ∀ a, restored a = true → failed a = false) (list : List α) :
    list.countP restored +
        (list.filter fun a => !failed a && !restored a).length +
          (list.filter failed).length =
      list.length := by
  induction list with
  | nil =>
      rfl
  | cons head tail inductionHypothesis =>
      have apartHere := apart head
      cases isRestored : restored head <;> cases hasFailed : failed head <;>
        simp [isRestored, hasFailed] at apartHere ⊢ <;> omega

/-- A restore under permits is the substitution of the values that they
authorize. -/
theorem restoreText_eq_substituted {session : RedactionSession}
    {permits : List RestorePermit}
    (accepted : RestoreContext.withPermits session permits = .ok context)
    (tokens : ∀ token ∈ context.authorizedTokens, IsToken runtime token)
    (text : Text) :
    context.restoreText runtime text =
      substituted runtime context.value? text := by
  have parses (candidate : Text)
      (authorized : candidate ∈ context.authorizedTokens) :
      ∃ parsed, parseToken runtime candidate = .ok parsed := by
    obtain ⟨scopeId, kind, counter, hex, fits, rfl⟩ :=
      tokens candidate authorized
    exact ⟨_, parseToken_formatToken hex.isScope fits⟩
  have replaced :
      context.replaced runtime =
        fun candidate => (context.value? candidate).getD candidate := by
    funext candidate
    cases known : context.value? candidate with
    | some value =>
        obtain ⟨authorized, original⟩ :=
          RestoreContext.value?_eq_some.mp known
        exact RestoreContext.replaced_of_restores
          ⟨parses candidate authorized, authorized, original⟩
    | none =>
        apply RestoreContext.replaced_of_not_restores
        intro original restores
        rw [RestoreContext.value?_eq_some.mpr
          ⟨restores.authorized, restores.known⟩] at known
        cases known
  have skipped :
      (context.restoreText runtime text).skippedTokens =
        (substituted runtime context.value? text).skippedTokens := by
    rw [restoreText_report RestoreResult.skippedTokens_append fun _ => rfl]
    refine (List.flatMap_congr fun candidate _ => ?_).trans
      (filter_eq_flatMap _ _).symm
    exact (restoreCandidate_report accepted candidate).1
  have unresolved :
      (context.restoreText runtime text).unresolvedTokens =
        malformedTokens runtime text := by
    rw [restoreText_report RestoreResult.unresolvedTokens_append fun _ => rfl]
    refine (List.flatMap_congr fun candidate _ => ?_).trans
      (filter_eq_flatMap _ _).symm
    exact (restoreCandidate_report accepted candidate).2.1
  have errors :
      (context.restoreText runtime text).validationErrors =
        (tokenCandidates text).filterMap (complaint? runtime) := by
    rw [restoreText_report RestoreResult.validationErrors_append fun _ => rfl,
      List.filterMap_eq_flatMap_toList]
    exact List.flatMap_congr fun candidate _ =>
      (restoreCandidate_report accepted candidate).2.2
  have decided :
      (context.restoreText runtime text).decided =
        (tokenCandidates text).length :=
    decided_restoreText.trans (List.length_map _).symm
  have count :
      (context.restoreText runtime text).restoredCount =
        (tokenCandidates text).countP fun candidate =>
          (context.value? candidate).isSome := by
    have apart (candidate : Text)
        (isRestored : (context.value? candidate).isSome = true) :
        (parseToken runtime candidate).toOption.isNone = false := by
      obtain ⟨value, known⟩ := Option.isSome_iff_exists.mp isRestored
      obtain ⟨parsed, read⟩ :=
        parses candidate (RestoreContext.value?_eq_some.mp known).1
      rw [read]
      rfl
    have sameSkipped :
        (substituted runtime context.value? text).skippedTokens =
          (tokenCandidates text).filter fun candidate =>
            !(parseToken runtime candidate).toOption.isNone &&
              !(context.value? candidate).isSome := by
      refine List.filter_congr fun candidate _ => ?_
      unfold complaint?
      cases parseToken runtime candidate <;>
        cases context.value? candidate <;> rfl
    have all := countP_add_filter apart (tokenCandidates text)
    rw [← sameSkipped, ← skipped, ← malformedTokens, ← unresolved] at all
    rw [RestoreResult.decided] at decided
    omega
  apply RestoreResult.ext
  · rw [restoredText_restoreText, replaced]
    rfl
  · exact count
  · exact skipped
  · exact unresolved
  · exact errors

end Context

/-! ## The service -/

section Service

variable {ι : Type} [DecidableEq ι] {state : HttpState}
  {store : ValkeySessionStore} {requests : ι → RedactTextRequest}
  {draws : ι → Draws} {service later : Service ι} {externalId : Text}
  {permits : List Text}

theorem Service.Answered.lasts
    (run : ServiceRun state requests draws service later) {permit : Text}
    {artifact : RedactorInstance.RedactionArtifact}
    (answered : service.Answered requests externalId permit artifact) :
    later.Answered requests externalId permit artifact := by
  obtain ⟨request, stored, response, named, isAnswered, isPermit⟩ := answered
  exact ⟨request, stored, response, named, answered_of_run run isAnswered,
    isPermit⟩

theorem Service.Issues.lasts
    (run : ServiceRun state requests draws service later)
    {runtime : Runtime} {token value : Text}
    (issues :
      service.Issues runtime requests externalId permits token value) :
    later.Issues runtime requests externalId permits token value := by
  obtain ⟨permit, member, artifact, answered, issued⟩ := issues
  exact ⟨permit, member, artifact, answered.lasts run, issued⟩

theorem answered_lasts
    (run : ServiceRun state requests draws service later)
    (answered : ∀ permit ∈ permits, ∃ artifact,
      service.Answered requests externalId permit artifact) :
    ∀ permit ∈ permits, ∃ artifact,
      later.Answered requests externalId permit artifact := by
  intro permit member
  obtain ⟨artifact, isAnswered⟩ := answered permit member
  exact ⟨artifact, isAnswered.lasts run⟩

/-- A permit that fits knows the originals of its tokens. -/
theorem exists_original?_of_fits {session : RedactionSession}
    {opened : List RestorePermit}
    (fits : ∀ permit ∈ opened, PermitFits session permit) {token : Text}
    (authorizes : Authorizes opened token) :
    ∃ value, (RestoreContext.new session).original? token = some value := by
  obtain ⟨authorized, joined, members⟩ := authorizedTokens_of_fits fits
  have accepted :
      RestoreContext.withPermits session opened =
        .ok (.fromAuthorizedTokens session authorized) := by
    rw [RestoreContext.withPermits, joined, ok_bind]
  obtain ⟨value, known⟩ :=
    Option.isSome_iff_exists.mp
      (isSome_original? accepted ((members token).mpr authorizes))
  rw [original?_fromAuthorizedTokens] at known
  refine ⟨value, ?_⟩
  rw [RestoreContext.new, original?_fromAuthorizedTokens]
  exact known

section Answered

variable (reopens : state.crypto.Reopens)
  (configured : state.sessionStore = some store)
  (lasting : store.ttlSeconds = none)
  (apart : DigestsApart state.environment.runtime requests)
  (reachable : ServiceReachable state requests draws service)
  {used : ι} (named : (requests used).externalId = some externalId)
  {stored : Option StoredSession}
  {made : RedactorInstance.RedactionArtifact}
  (hasSaved : (service.progress used).HasSaved stored made)
  (answered : ∀ permit ∈ permits, ∃ artifact,
    service.Answered requests externalId permit artifact)

include reopens configured lasting apart reachable named hasSaved answered

/-- A stateful restore substitutes what the permits have issued. -/
theorem restoreTextInner_of_answered :
    ∃ values : Text → Option Text,
      (∀ token value,
        values token = some value ↔
          service.Issues state.environment.runtime requests externalId
            permits token value) ∧
        ∀ text,
          state.restoreTextInner (some service.records)
              { text
                externalId := some externalId
                restorePermits := permits } =
            if malformedTokens state.environment.runtime text = [] then
              .ok (substituted state.environment.runtime values text)
            else
              .error (malformedError state.environment.runtime text) := by
  obtain ⟨latest, opened, loaded, done, fits, issues⟩ :=
    accepts_answered reopens configured lasting apart reachable named hasSaved
      answered
  obtain ⟨authorized, joined, members⟩ := authorizedTokens_of_fits fits
  have accepted :
      RestoreContext.withPermits latest.session opened =
        .ok (.fromAuthorizedTokens latest.session authorized) := by
    rw [RestoreContext.withPermits, joined, ok_bind]
  have tokens :
      ∀ token ∈ authorized, IsToken state.environment.runtime token := by
    intro token member
    have authorizes := (members token).mp member
    obtain ⟨value, known⟩ := exists_original?_of_fits fits authorizes
    obtain ⟨_, _, _, _, _, isToken, _⟩ :=
      (issues token value).mpr ⟨authorizes, known⟩
    exact isToken
  refine
    ⟨(RestoreContext.fromAuthorizedTokens latest.session authorized).value?,
      fun token value => ?_, fun text => ?_⟩
  · rw [issues token value, RestoreContext.new,
      original?_fromAuthorizedTokens, ← members token,
      ← original?_fromAuthorizedTokens authorized]
    exact RestoreContext.value?_eq_some
  · rw [restoreTextInner_stored configured
      (hasSaved.accepted reachable named) done loaded text]
    unfold restoreWithPermits
    rw [accepted, ok_bind, restoreText_eq_substituted accepted tokens,
      ensureRestoreValid_substituted]

/-- What permits of answers have issued never changes. -/
theorem issues_of_later
    (run : ServiceRun state requests draws service later)
    {token value : Text}
    (issuedLater :
      later.Issues state.environment.runtime requests externalId permits
        token value) :
    service.Issues state.environment.runtime requests externalId permits
      token value := by
  obtain ⟨_, opened, _, done, fits, issues⟩ :=
    accepts_answered reopens configured lasting apart reachable named hasSaved
      answered
  obtain ⟨_, openedLater, _, doneLater, _, issuesLater⟩ :=
    accepts_answered reopens configured lasting apart (reachable.after run)
      named ((run_keeps run).1 used stored made hasSaved)
      (answered_lasts run answered)
  rw [done] at doneLater
  cases doneLater
  obtain ⟨authorizes, found⟩ := (issuesLater token value).mp issuedLater
  -- the value is the one of before, which has lasted
  obtain ⟨before, known⟩ := exists_original?_of_fits fits authorizes
  have issued := (issues token before).mpr ⟨authorizes, known⟩
  obtain ⟨_, still⟩ := (issuesLater token before).mp (issued.lasts run)
  rw [still] at found
  cases found
  exact issued

end Answered

/-- Once permits are answers of an identifier, it is settled for all texts what
they restore: the values issued so far for their tokens, in every later state
of the service, where records do not expire. -/
theorem answers_fix_substitution (reopens : state.crypto.Reopens)
    (configured : state.sessionStore = some store)
    (lasting : store.ttlSeconds = none)
    (apart : DigestsApart state.environment.runtime requests)
    (reachable : ServiceReachable state requests draws service)
    {used : ι} (named : (requests used).externalId = some externalId)
    {stored : Option StoredSession}
    {made : RedactorInstance.RedactionArtifact}
    (hasSaved : (service.progress used).HasSaved stored made)
    (answered : ∀ permit ∈ permits, ∃ artifact,
      service.Answered requests externalId permit artifact) :
    ∃ values : Text → Option Text,
      (∀ token value,
        values token = some value ↔
          service.Issues state.environment.runtime requests externalId
            permits token value) ∧
        ∀ later, ServiceRun state requests draws service later →
          ∀ text,
            state.restoreTextInner (some later.records)
                { text
                  externalId := some externalId
                  restorePermits := permits } =
              if malformedTokens state.environment.runtime text = [] then
                .ok (substituted state.environment.runtime values text)
              else
                .error
                  (malformedError state.environment.runtime text) := by
  obtain ⟨values, isValue, _⟩ :=
    restoreTextInner_of_answered reopens configured lasting apart reachable
      named hasSaved answered
  refine ⟨values, isValue, fun later run text => ?_⟩
  obtain ⟨valuesLater, isValueLater, restored⟩ :=
    restoreTextInner_of_answered reopens configured lasting apart
      (reachable.after run) named
      ((run_keeps run).1 used stored made hasSaved)
      (answered_lasts run answered)
  have same : valuesLater = values := by
    funext token
    apply Option.ext
    intro value
    rw [isValueLater, isValue]
    constructor
    · exact issues_of_later reopens configured lasting apart reachable named
        hasSaved answered run
    · exact fun issues => issues.lasts run
  rw [restored, same]

end Service

/-- The answer of request 0 settles what its permit restores, also after
requests 1 and 2. -/
theorem answers_fix_substitution_first_answer :
    ∃ (early late : Service (Fin 3))
      (first : RedactorInstance.RedactionArtifact)
      (answer : RedactTextResponse) (values : Text → Option Text),
      early.progress 0 = .answered none first answer ∧
        ServiceRun sampleState sampleAsked sampleDraws early late ∧
        ∀ text,
          sampleState.restoreTextInner (some late.records)
              { text
                externalId := some (lit "u1")
                restorePermits := [answer.restorePermit] } =
            if malformedTokens sampleServiceRuntime text = [] then
              .ok (substituted sampleServiceRuntime values text)
            else
              .error (malformedError sampleServiceRuntime text) := by
  obtain ⟨early, late, _, first, _, _, answers, reachable, isAnswered, run,
    _⟩ := sample_in_turn
  obtain ⟨values, _, restored⟩ :=
    @answers_fix_substitution (Fin 3) _ sampleState sampleStore sampleAsked
      sampleDraws early (lit "u1") [(answers 0).restorePermit]
      sampleServiceCrypto_reopens rfl rfl sample_apart reachable 0 rfl none
      first (.inr (.inl ⟨_, isAnswered⟩)) fun permit listed =>
        ⟨first, 0, none, answers 0, rfl, isAnswered,
          (List.mem_singleton.mp listed).symm⟩
  exact ⟨early, late, first, answers 0, values, isAnswered, run,
    restored late run⟩

end Redactor
