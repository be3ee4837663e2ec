import Redactor.Redact.Cursor
import Redactor.Replace.Copies
import Redactor.Replace.Room

/-!
# Redacting texts with copied tokens

A redaction does not look at tokens that were copied into its text.  Restoring
with its own permit skips all of them exactly when no finding overlaps a copy
and none of the copied tokens is issued again.
-/

namespace Redactor

open Utf8 Fallible RestoreResult

/-- The finding ends before the range or begins behind it. -/
def Finding.Apart (finding : Finding) (range : Nat × Nat) : Prop :=
  finding.finish ≤ range.1 ∨ range.2 ≤ finding.start

instance decidableApart (finding : Finding) (range : Nat × Nat) :
    Decidable (finding.Apart range) :=
  inferInstanceAs (Decidable (_ ∨ _))

/-- The text from byte `cursor` on, and the output that has a token in place of
every finding. -/
inductive Spliced (replaced : Text → Text → Prop) :
    Nat → List Finding → Text → Text → Prop
  | rest {cursor : Nat} {tail : Text} : Spliced replaced cursor [] tail tail
  | finding {cursor : Nat} {finding : Finding} {findings : List Finding}
      {gap token rest output : Text} :
      finding.start = cursor + byteLen gap →
      finding.finish = finding.start + byteLen finding.matchText →
      replaced token finding.matchText →
      Spliced replaced finding.finish findings rest output →
      Spliced replaced cursor (finding :: findings)
        (gap ++ (finding.matchText ++ rest)) (gap ++ (token ++ output))

section Splice

variable {replaced : Text → Text → Prop} {cursor : Nat}
  {findings : List Finding} {text output : Text}

theorem Spliced.mono {replaced' : Text → Text → Prop}
    (implied : ∀ token original, replaced token original →
      replaced' token original)
    (spliced : Spliced replaced cursor findings text output) :
    Spliced replaced' cursor findings text output := by
  induction spliced with
  | rest =>
      exact .rest
  | finding start finish isReplaced _ inductionHypothesis =>
      exact .finding start finish (implied _ _ isReplaced)
        inductionHypothesis

theorem Spliced.le_start
    (spliced : Spliced replaced cursor findings text output) :
    ∀ finding ∈ findings, cursor ≤ finding.start := by
  induction spliced with
  | rest =>
      simp
  | finding start finish _ _ inductionHypothesis =>
      intro finding member
      rcases List.mem_cons.mp member with here | later
      · rw [here]
        omega
      · have bound := inductionHypothesis finding later
        omega

/-- Replacing findings that stand in the text splices their tokens in. -/
theorem ReplacementProcessor.redactFrom_spliced {runtime : Runtime}
    {processor after : ReplacementProcessor} {whole : Text}
    (inText : ∀ finding ∈ findings, finding.InText whole)
    (done :
      redactFrom runtime whole processor cursor findings =
        some (after, output)) :
    ∃ tail, slice? whole cursor (byteLen whole) = some tail ∧
      Spliced after.Replaced cursor findings tail output := by
  induction findings generalizing processor cursor output with
  | nil =>
      obtain ⟨rfl, sliced⟩ := redactFrom_nil_eq_some.mp done
      exact ⟨output, sliced, .rest⟩
  | cons finding findings inductionHypothesis =>
      obtain ⟨gap, next, token, hint, rest, sliced, step, later, rfl⟩ :=
        redactFrom_cons_eq_some.mp done
      obtain ⟨tail, tailSliced, spliced⟩ :=
        inductionHypothesis
          (fun other member => inText other (List.mem_cons_of_mem _ member))
          later
      have here := inText finding List.mem_cons_self
      have replaced : after.Replaced token finding.matchText :=
        redactFrom_replaced later _ _
          ⟨_, List.mem_append_right _ (List.mem_singleton.mpr rfl), rfl, rfl⟩
      have gapSize := (cut_of_slice? sliced).length
      have size := (cut_of_slice? here).length
      exact ⟨gap ++ (finding.matchText ++ tail),
        slice?_append sliced (slice?_append here tailSliced),
        .finding gapSize size replaced spliced⟩

end Splice

/-- The context restores the token to the original. -/
structure RestoreContext.Reverts (runtime : Runtime)
    (context : RestoreContext) (token original : Text) : Prop where
  whole : IsWholeToken runtime token
  authorized : token ∈ context.authorizedTokens
  original : context.original? token = some original

section Restore

variable {runtime : Runtime} {context : RestoreContext} {cursor : Nat}
  {findings : List Finding} {text output : Text}

theorem restoreCandidate_of_reverts {token original : Text}
    (reverts : context.Reverts runtime token original) :
    context.restoreCandidate runtime token = .complete original 1 := by
  obtain ⟨parsed, read, _⟩ := reverts.whole
  exact
    restoreCandidate_of_authorized read reverts.authorized reverts.original

/-- Restoring goes stretch by stretch where every stretch is closed. -/
theorem restoreText_gap {gap token original rest : Text}
    (settled : Settled gap)
    (reverts : context.Reverts runtime token original) :
    context.restoreText runtime (gap ++ (token ++ rest)) =
      context.restoreText runtime gap ++ .complete original 1 ++
        context.restoreText runtime rest := by
  rw [← restoreCandidate_of_reverts reverts]
  obtain ⟨inner, rfl, isInner⟩ := reverts.whole.exists_inner
  have restored :=
    @restoreText_settled runtime context gap inner settled isInner rest
  simpa only [List.append_assoc] using restored

theorem settled_gap {gap token original rest : Text}
    (reverts : context.Reverts runtime token original)
    (valid :
      (context.restoreText runtime (gap ++ (token ++ rest))).isValid =
        true) :
    Settled gap := by
  obtain ⟨inner, rfl, isInner⟩ := reverts.whole.exists_inner
  simp only [List.append_assoc] at valid
  exact (settled_of_isValid_append (isInner.notBefore _) valid).1

/-- Where no marker is lost the scanner visits the stretches between the
findings one by one. -/
theorem scanFrom_spliced {gap middle rest : Text} (settled : Settled gap)
    (kept :
      occurrences tokenPrefix (gap ++ (middle ++ rest)) =
        occurrences tokenPrefix gap + occurrences tokenPrefix rest)
    (index : Nat) :
    ∃ inside,
      scanFrom index (gap ++ (middle ++ rest)) =
          inside ++
            scanFrom (index + byteLen gap + byteLen middle) rest ∧
        ∀ range ∈ inside, range.2 ≤ index + byteLen gap := by
  have joined :=
    @occurrences_add_le tokenPrefix gap (middle ++ rest)
  have behind := @occurrences_add_le tokenPrefix middle rest
  have middleFree :
      occurrences tokenPrefix (middle ++ rest) =
        occurrences tokenPrefix rest := by
    omega
  obtain ⟨inside, scanned, bounded⟩ :=
    @scanFrom_settled gap (middle ++ rest) settled (by omega) index
  refine ⟨inside, ?_, bounded⟩
  rw [scanned, scanFrom_skip (occurrences_append_eq_iff.mp middleFree)]

/-- A valid result skips at most one token for each marker of the text, and only
when no marker is lost as many: then no finding overlaps a candidate. -/
theorem Spliced.apart_of_isValid
    (spliced :
      Spliced (context.Reverts runtime) cursor findings text output)
    (valid : (context.restoreText runtime output).isValid = true) :
    (context.restoreText runtime output).skippedTokens.length ≤
        occurrences tokenPrefix text ∧
      ((context.restoreText runtime output).skippedTokens.length =
          occurrences tokenPrefix text →
        ∀ finding ∈ findings, ∀ range ∈ scanFrom cursor text,
          finding.Apart range) := by
  induction spliced with
  | rest =>
      exact ⟨length_skippedTokens_le _, by simp⟩
  | @finding cursor finding findings gap token rest output start finish
      reverts later inductionHypothesis =>
      have settled := settled_gap reverts valid
      have restored :=
        @restoreText_gap _ _ gap token _ output settled reverts
      rw [restored, isValid_append, Bool.and_eq_true] at valid
      obtain ⟨bound, apart⟩ := inductionHypothesis valid.2
      have gapBound :=
        @length_skippedTokens_le runtime context gap
      have joined :=
        @occurrences_add_le tokenPrefix gap (finding.matchText ++ rest)
      have behind := @occurrences_add_le tokenPrefix finding.matchText rest
      have noneHere :
          (RestoreResult.complete finding.matchText
            1).skippedTokens.length = 0 := rfl
      rw [restored]
      simp only [skippedTokens_append, List.length_append]
      refine ⟨by omega, ?_⟩
      intro all
      obtain ⟨inside, scanned, bounded⟩ :=
        @scanFrom_spliced gap finding.matchText rest settled (by omega)
          cursor
      rw [← start, ← finish] at scanned
      rw [← start] at bounded
      have starts := later.le_start
      intro other member range visited
      rw [scanned] at visited
      rcases List.mem_append.mp visited with early | late
      · -- the candidate lies in the stretch in front
        have before := bounded range early
        rcases List.mem_cons.mp member with here | further
        · rw [here]
          exact Or.inr before
        · have further := starts other further
          exact Or.inr (by omega)
      · rcases List.mem_cons.mp member with here | further
        · rw [here]
          exact Or.inl (le_of_mem_scanFrom late)
        · exact apart (by omega) other further range late

/-- Where no finding overlaps a copy, every copy is left as it is. -/
theorem Spliced.leavesCopies {tokens : List Text}
    (spliced :
      Spliced (context.Reverts runtime) cursor findings text output)
    (resolved :
      ∀ token ∈ context.authorizedTokens,
        ∃ original, context.original? token = some original)
    (copied : Copied (IsWholeToken runtime) text tokens)
    (apart :
      ∀ finding ∈ findings, ∀ range ∈ scanFrom cursor text,
        finding.Apart range) :
    LeavesCopies context text tokens
      (context.restoreText runtime output) := by
  induction spliced generalizing tokens with
  | rest =>
      exact copied.restoreText resolved
  | @finding cursor finding findings gap token rest output start finish
      reverts later inductionHypothesis =>
      obtain ⟨before, after, parts, copiedGap, copiedRest⟩ :=
        copied.split rfl (by
          intro range visited
          have here := apart finding List.mem_cons_self range visited
          rwa [Finding.Apart, finish, start] at here)
      have kept :
          occurrences tokenPrefix (gap ++ (finding.matchText ++ rest)) =
            occurrences tokenPrefix gap + occurrences tokenPrefix rest := by
        rw [copied.occurrences, copiedGap.occurrences,
          copiedRest.occurrences, parts, List.length_append]
      obtain ⟨inside, scanned, _⟩ :=
        scanFrom_spliced copiedGap.settled kept cursor
      rw [← start, ← finish] at scanned
      have restLeaves :=
        inductionHypothesis copiedRest (by
          intro other member range visited
          refine apart other (List.mem_cons_of_mem _ member) range ?_
          rw [scanned]
          exact List.mem_append_right _ visited)
      have gapLeaves :
          LeavesCopies context gap before
            (context.restoreText runtime gap) :=
        copiedGap.restoreText resolved
      have here :
          LeavesCopies context finding.matchText []
            (.complete finding.matchText 1) :=
        .complete
      rw [restoreText_gap copiedGap.settled reverts, parts,
        ← List.append_assoc]
      have joined := (gapLeaves.append here).append restLeaves
      rw [List.append_nil] at joined
      exact joined

end Restore

/-! ## Scopes -/

/-- A scope that a token is read back from, and found by the scanner. -/
def IsPlainScope (scopeId : Text) : Prop :=
  IsScope scopeId ∧ ¬ tokenSuffix <:+: scopeId

theorem IsHexId.isPlainScope {id : Text} (hex : IsHexId id) :
    IsPlainScope id := by
  refine ⟨hex.isScope, ?_⟩
  intro closed
  have member : ']' ∈ id := closed.subset (by decide)
  exact absurd (hex.2 ']' member) (by decide)

/-- The scope with three fields behind it, in the brackets of a token. -/
def IsTokenIn (scopeId token : Text) : Prop :=
  ∃ fields, ']' ∉ fields ∧ (fields.splitOn ':').length = 3 ∧
    token = tokenPrefix ++ ((scopeId ++ ':' :: fields) ++ tokenSuffix)

section Scope

variable {runtime : Runtime} {context : RestoreContext} {scopeId : Text}

theorem isTokenIn_of_parseToken {token : Text} {parsed : ParsedToken}
    (read : parseToken runtime token = .ok parsed) :
    IsTokenIn parsed.scopeId token := by
  obtain ⟨fields, shape, counted, clean, _⟩ := fields_of_parseToken read
  exact ⟨fields, clean ']' (by decide), counted, shape⟩

theorem isTokenIn_formatToken (kind : FindingKind) (counter : Nat) :
    IsTokenIn scopeId (formatToken runtime scopeId kind counter) := by
  let behind :=
    [kind.tokenLabel, paddedNumeral 3 counter,
      tokenCheck runtime scopeId kind counter]
  have clean {field : Text} (member : field ∈ behind) {head : Char}
      (inside : head ∈ field) : head ≠ ':' ∧ head ≠ '[' ∧ head ≠ ']' :=
    clean_of_mem_tokenFields member inside
  refine ⟨[':'].intercalate behind, ?_, ?_, ?_⟩
  · have noClosing : ∀ field ∈ behind, ']' ∉ field :=
      fun field member inside => (clean member inside).2.2 rfl
    have label := noClosing kind.tokenLabel (by simp [behind])
    have number := noClosing (paddedNumeral 3 counter) (by simp [behind])
    have check :=
      noClosing (tokenCheck runtime scopeId kind counter) (by simp [behind])
    simp [behind, List.intercalate, List.intersperse, label, number, check]
  · rw [List.splitOn_intercalate]
    · rfl
    · exact fun field member colon => (clean member colon).1 rfl
    · simp [behind]
  · rw [formatToken_shape]
    simp [behind, tokenFields, List.intercalate, List.intersperse]

/-- Whatever gets a token gets it in the scope of the state. -/
theorem AllocationStep.isTokenIn {state next : SessionState}
    {finding : Finding} {token : Text} {hint : Option Text}
    (step : AllocationStep runtime state finding next token hint)
    (parsed : state.Parsed runtime) :
    IsTokenIn state.scopeId token := by
  cases step with
  | reuse found _ =>
      obtain ⟨counter, read⟩ := parsed _ _ found
      exact isTokenIn_of_parseToken read
  | allocate _ _ =>
      exact isTokenIn_formatToken _ _

/-- What is read from a token of the scope has this scope. -/
theorem IsTokenIn.scopeId_eq {token : Text} {parsed : ParsedToken}
    (isToken : IsTokenIn scopeId token)
    (read : parseToken runtime token = .ok parsed) :
    parsed.scopeId = scopeId := by
  obtain ⟨fields, _, counted, rfl⟩ := isToken
  obtain ⟨kindLabel, counterRaw, split, _⟩ := parseToken_eq_ok.mp read
  obtain ⟨inner, shape, parts, _⟩ := splitToken_eq_ok.mp split
  have isInner : scopeId ++ ':' :: fields = inner :=
    List.append_cancel_right (List.append_cancel_left shape)
  rw [← isInner, List.splitOn_append_cons_self] at parts
  have total := congrArg List.length parts
  rw [List.length_append, counted] at total
  obtain ⟨only, isOnly⟩ :=
    List.length_eq_one_iff.mp
      (show (scopeId.splitOn ':').length = 1 by simpa using total)
  rw [isOnly] at parts
  have joined : [':'].intercalate (scopeId.splitOn ':') = scopeId :=
    List.intercalate_splitOn ':'
  rw [isOnly] at joined
  rw [← joined, (List.cons.inj parts).1]
  simp [List.intercalate]

/-- A text with a token in it is restored without a complaint only if the
scope of the token is a plain one, or has both a colon and closing brackets. -/
theorem IsTokenIn.isPlainScope {gap token rest : Text}
    (isToken : IsTokenIn scopeId token)
    (single : ':' ∈ scopeId → ¬ tokenSuffix <:+: scopeId)
    (valid :
      (context.restoreText runtime (gap ++ (token ++ rest))).isValid =
        true) :
    IsPlainScope scopeId := by
  have whole := isToken
  obtain ⟨fields, clean, _, rfl⟩ := isToken
  by_cases closed : tokenSuffix <:+: scopeId
  · exfalso
    obtain ⟨body, remaining, search⟩ := exists_dropInfix?_of_infix closed
    obtain ⟨shape, first⟩ := dropInfix?_eq_some_iff_notBefore.mp search
    rw [shape] at first
    have firstClosing :=
      notBefore_append_right first
        (':' :: fields ++ (tokenSuffix ++ rest))
    have regroup :
        gap ++
            ((tokenPrefix ++ ((scopeId ++ ':' :: fields) ++ tokenSuffix)) ++
              rest) =
          gap ++
            (tokenPrefix ++
              (body ++
                (tokenSuffix ++
                  (remaining ++
                    (':' :: fields ++ (tokenSuffix ++ rest)))))) := by
      rw [shape]
      simp only [List.append_assoc]
    rw [regroup] at valid
    obtain ⟨parsed, read⟩ :=
      (settled_of_isValid_append firstClosing valid).2
    obtain ⟨inner, isBody, _⟩ := fields_of_parseToken read
    have colon : ':' ∈ body := by
      rw [List.append_cancel_right (List.append_cancel_left isBody)]
      simp
    apply single _ closed
    rw [shape]
    exact List.mem_append_left _ colon
  · have firstClosing := notBefore_tokenSuffix_of_scope closed clean rest
    have regroup :
        gap ++
            ((tokenPrefix ++ ((scopeId ++ ':' :: fields) ++ tokenSuffix)) ++
              rest) =
          gap ++
            (tokenPrefix ++
              ((scopeId ++ ':' :: fields) ++ (tokenSuffix ++ rest))) := by
      simp only [List.append_assoc]
    rw [regroup] at valid
    obtain ⟨parsed, read⟩ :=
      (settled_of_isValid_append firstClosing valid).2
    have same := whole.scopeId_eq read
    refine ⟨?_, closed⟩
    rw [← same]
    exact (of_parseToken_eq_ok read).1

end Scope

namespace ReplacementProcessor

section Own

variable {runtime : Runtime} {processor : ReplacementProcessor}
  {session : RedactionSession}

/-- A replacement stands in the session as the entry of its original. -/
theorem Recorded.entry (recorded : processor.Recorded)
    (keyed : processor.state.Keyed)
    (entries : session.entries = processor.entries)
    {applied : AppliedReplacement}
    (member : applied ∈ processor.appliedReplacements) :
    ∃ entry ∈ session.entries,
      entry.token = applied.replacement ∧
        entry.original = applied.original := by
  obtain ⟨allocation, found, same⟩ := recorded applied member
  have sameKey := keyed _ allocation found
  rw [entries]
  exact ⟨allocation.toEntry,
    mem_entries_iff.mpr ⟨_, allocation, found, rfl⟩, same,
    congrArg Prod.snd sameKey⟩

/-- A session accepts the permit that is made for it, if it has entries for the
tokens it has issued. -/
theorem withPermits_own
    (issued : ∀ token ∈ session.issuedTokens, token ∈ session.tokens)
    (permitId : Text) :
    ∃ authorized,
      RestoreContext.withPermits session
          [createRestorePermit session permitId] =
        .ok (.fromAuthorizedTokens session authorized) ∧
      ∀ token, token ∈ authorized ↔ token ∈ session.issuedTokens := by
  have fits : PermitFits session (createRestorePermit session permitId) :=
    ⟨rfl, rfl, rfl, issued⟩
  obtain ⟨authorized, accepted, members⟩ :=
    authorizedTokens_of_fits (List.forall_mem_singleton.mpr fits)
  refine ⟨authorized, ?_, ?_⟩
  · rw [RestoreContext.withPermits, accepted, ok_bind]
  · intro token
    rw [members]
    simp [Authorizes, createRestorePermit]

end Own

section Context

variable {runtime : Runtime} {before after : ReplacementProcessor}
  {findings : List Finding} {text output : Text}

/-- What the processor has replaced is reverted with the permit of its session,
which authorizes the tokens that were issued. -/
theorem exists_context (sound : before.state.Sound runtime)
    (fresh : before.appliedReplacements = [])
    (scope : findings = [] ∨ IsPlainScope before.state.scopeId)
    (fit : AllocationsFit runtime before.state findings)
    (done :
      before.redactFragment runtime text findings = some (after, output))
    (policy : RedactionPolicy) (sessionId permitId : Text) :
    ∃ context,
      RestoreContext.withPermits
          (after.buildSession runtime text output policy sessionId)
          [createRestorePermit
            (after.buildSession runtime text output policy sessionId)
            permitId] = .ok context ∧
        (∀ token,
          token ∈ context.authorizedTokens ↔
            before.state.Issues runtime findings token) ∧
        (∀ token ∈ context.authorizedTokens,
          ∃ original, after.Replaced token original) ∧
        ∀ token original, after.Replaced token original →
          context.Reverts runtime token original := by
  have recordedBefore : before.Recorded := by
    rw [Recorded, fresh]
    simp
  obtain ⟨allocated, recorded⟩ := redactFrom_spec done recordedBefore
  have sameScope := (allocateAll_extends allocated).scopeId
  have keyed := keyed_allocateAll sound.keyed allocated
  have parsed :=
    parsed_allocateAll sound.parsed (scope.symm.imp_left And.left) allocated
  have distinct := distinct_of_allocationsFit sound.distinct fit allocated
  let session := after.buildSession runtime text output policy sessionId
  have isIssued (token : Text) :
      token ∈ session.issuedTokens ↔
        ∃ applied ∈ after.appliedReplacements,
          applied.replacement = token :=
    mem_issuedTokens_iff
  have inside {applied : AppliedReplacement}
      (member : applied ∈ after.appliedReplacements) :
      ∃ entry ∈ session.entries,
        entry.token = applied.replacement ∧
          entry.original = applied.original :=
    recorded.entry keyed rfl member
  have listed : ∀ token ∈ session.issuedTokens, token ∈ session.tokens := by
    intro token member
    obtain ⟨applied, made, rfl⟩ := (isIssued token).mp member
    obtain ⟨entry, present, isToken, _⟩ := inside made
    exact List.mem_map.mpr ⟨entry, present, isToken⟩
  obtain ⟨authorized, accepted, authorizes⟩ :=
    withPermits_own listed permitId
  have tokens : session.tokens.Nodup :=
    (nodup_map_entries RestorationEntry.token).mpr distinct
  refine ⟨.fromAuthorizedTokens session authorized, accepted, ?_, ?_, ?_⟩
  · intro token
    rw [RestoreContext.authorizedTokens_fromAuthorizedTokens, authorizes,
      isIssued, replacement_iff_issues sound.bounded done, fresh]
    simp
  · intro token member
    obtain ⟨applied, made, isToken⟩ :=
      (isIssued token).mp ((authorizes token).mp member)
    exact ⟨applied.original, applied, made, isToken, rfl⟩
  · rintro token original ⟨applied, member, rfl, rfl⟩
    obtain ⟨entry, present, isToken, isOriginal⟩ := inside member
    refine ⟨?_, ?_, ?_⟩
    · obtain ⟨allocation, found, same⟩ := recorded applied member
      obtain ⟨counter, read⟩ := parsed _ allocation found
      rw [same, sameScope] at read
      refine ⟨_, read, (scope.resolve_left ?_).2⟩
      intro none
      rw [none] at done
      rw [(redactFrom_nil_eq_some.mp done).1, fresh] at member
      cases member
    · exact (authorizes _).mpr ((isIssued _).mpr ⟨applied, member, rfl⟩)
    · rw [original?_fromAuthorizedTokens, ← isToken,
        entryOf?_of_mem tokens present, Option.map_some, isOriginal]

end Context

end ReplacementProcessor

/-! ## Redactions -/

/-- The replacements fit the state, and leave the copied tokens alone: each of
these can be found by the scanner, is not overlapped by a finding, and is not
issued again. -/
structure SparesCopies (runtime : Runtime) (state : SessionState)
    (findings : List Finding) (text : Text) (tokens : List Text) :
    Prop where
  whole : ∀ token ∈ tokens, IsWholeToken runtime token
  scope : findings = [] ∨ IsPlainScope state.scopeId
  fits : AllocationsFit runtime state findings
  ordered : findings.IsChain EndsBefore
  apart :
    ∀ finding ∈ findings, ∀ range ∈ scanTokenLikeRanges text,
      finding.Apart range
  unissued : ∀ token ∈ tokens, ¬ state.Issues runtime findings token

/-- No token is given to two originals, and none of the scope can be read as a
shorter token. -/
structure Unmistakable (runtime : Runtime) (state : SessionState)
    (findings : List Finding) : Prop where
  distinct :
    ∀ result, allocateAll runtime state findings = some result →
      result.Distinct
  single : ':' ∈ state.scopeId → ¬ tokenSuffix <:+: state.scopeId

/-- Redacting the text and restoring the result with the permit of the
redaction returns the text and skips every copied token, in order. -/
def RedactorInstance.CopiesSurvive (environment : Environment)
    (redactor : RedactorInstance) (request : RedactionRequest)
    (text permitId : Text) (tokens : List Text) : Prop :=
  ∃ artifact context,
    redactor.redactArtifact environment request text =
        some (.ok artifact) ∧
      RestoreContext.withPermits artifact.session
          [createRestorePermit artifact.session permitId] = .ok context ∧
      let result :=
        context.restoreText environment.runtime artifact.result.redactedText
      result.restoredText = text ∧ result.isValid = true ∧
        result.skippedTokens = tokens

section Redaction

variable {environment : Environment} {redactor : RedactorInstance}
  {request : RedactionRequest} {text permitId : Text} {tokens : List Text}
  {outcome : DetectionOutcome} {before : ReplacementProcessor}

/-- The allocations of a redaction that has ended. -/
theorem exists_allocated
    {artifact : RedactorInstance.RedactionArtifact}
    (detected :
      detectInternal environment request.response redactor text
        request.inputKind request.sourcePath = some outcome)
    (continued :
      ReplacementProcessor.withPriorSession environment.runtime
        request.priorSession request.externalId request.scopeId = .ok before)
    (completed :
      redactor.redactArtifact environment request text =
        some (.ok artifact)) :
    ∃ state,
      allocateAll environment.runtime before.state outcome.findings =
        some state := by
  obtain ⟨steps, rfl, rfl⟩ := exists_redacted detected continued completed
  have fresh := (sound_of_withPriorSession steps.continued).2
  have recorded : steps.before.Recorded := by
    rw [ReplacementProcessor.Recorded, fresh]
    simp
  exact ⟨_, (ReplacementProcessor.redactFrom_spec steps.replaced recorded).1⟩

/-- A redaction that has ended leaves the copies that are not overlapped and
not issued again. -/
theorem Redacted.copiesSurvive_iff
    {artifact : RedactorInstance.RedactionArtifact}
    (steps : Redacted environment redactor request text artifact)
    (completed :
      redactor.redactArtifact environment request text =
        some (.ok artifact))
    (copied : Copied (IsWholeToken environment.runtime) text tokens)
    (scope :
      steps.outcome.findings = [] ∨
        IsPlainScope steps.before.state.scopeId)
    (fit :
      AllocationsFit environment.runtime steps.before.state
        steps.outcome.findings) :
    redactor.CopiesSurvive environment request text permitId tokens ↔
      (∀ finding ∈ steps.outcome.findings,
          ∀ range ∈ scanTokenLikeRanges text, finding.Apart range) ∧
        ∀ token ∈ tokens,
          ¬ steps.before.state.Issues environment.runtime
            steps.outcome.findings token := by
  obtain ⟨sound, fresh⟩ := sound_of_withPriorSession steps.continued
  obtain ⟨context, permitted, issued, resolves, reverts⟩ :=
    ReplacementProcessor.exists_context sound fresh scope fit steps.replaced
      redactor.compiledPolicy.policy request.sessionId permitId
  rw [← steps.session] at permitted
  have spliced :
      Spliced (context.Reverts environment.runtime) 0
        steps.outcome.findings text artifact.result.redactedText := by
    obtain ⟨tail, sliced, spliced⟩ :=
      ReplacementProcessor.redactFrom_spliced
        (fun finding member =>
          (confined_detected steps.detected finding member).inText)
        steps.replaced
    have whole : text = tail := by
      rw [← (cut_of_slice? sliced).sliced, slice_all]
    rw [← whole] at spliced
    exact spliced.mono reverts
  have resolved :
      ∀ token ∈ context.authorizedTokens,
        ∃ original, context.original? token = some original := by
    intro token member
    obtain ⟨original, replaced⟩ := resolves token member
    exact ⟨original, (reverts token original replaced).original⟩
  simp only [← issued]
  constructor
  · rintro ⟨otherArtifact, otherContext, again, opened, restored, valid,
      skipped⟩
    cases completed.symm.trans again
    cases permitted.symm.trans opened
    have apart :
        ∀ finding ∈ steps.outcome.findings,
          ∀ range ∈ scanTokenLikeRanges text, finding.Apart range := by
      refine (spliced.apart_of_isValid valid).2 ?_
      rw [skipped, copied.occurrences]
    have leaves := spliced.leavesCopies resolved copied apart
    refine ⟨apart, ?_⟩
    have kept := leaves.skipped.symm.trans skipped
    intro token member
    exact of_decide_eq_true (List.filter_eq_self.mp kept token member)
  · rintro ⟨apart, unauthorized⟩
    have leaves := spliced.leavesCopies resolved copied apart
    refine ⟨artifact, context, completed, permitted,
      leaves.restored unauthorized, leaves.valid, ?_⟩
    rw [leaves.skipped]
    exact List.filter_eq_self.mpr fun token member =>
      decide_eq_true (unauthorized token member)

/-- Where nothing is in the way, the copies survive. -/
theorem SparesCopies.copiesSurvive
    (copied : Copied (IsValidToken environment.runtime) text tokens)
    (detected :
      detectInternal environment request.response redactor text
        request.inputKind request.sourcePath = some outcome)
    (continued :
      ReplacementProcessor.withPriorSession environment.runtime
        request.priorSession request.externalId request.scopeId = .ok before)
    (spares :
      SparesCopies environment.runtime before.state outcome.findings text
        tokens) :
    redactor.CopiesSurvive environment request text permitId tokens := by
  have sound := (sound_of_withPriorSession continued).1
  obtain ⟨state, allocated, _⟩ :=
    (allocationsFit_iff sound.distinct).mp spares.fits
  obtain ⟨artifact, completed⟩ :=
    (exists_artifact_iff detected continued allocated).mpr spares.ordered
  obtain ⟨steps, rfl, rfl⟩ := exists_redacted detected continued completed
  exact
    (steps.copiesSurvive_iff completed (copied.of_forall spares.whole)
      spares.scope spares.fits).mpr ⟨spares.apart, spares.unissued⟩

/-- The scope of a redaction that ends with a valid result. -/
theorem Redacted.plainScope
    {artifact : RedactorInstance.RedactionArtifact}
    (steps : Redacted environment redactor request text artifact)
    (single :
      ':' ∈ steps.before.state.scopeId →
        ¬ tokenSuffix <:+: steps.before.state.scopeId)
    {context : RestoreContext}
    (valid :
      (context.restoreText environment.runtime
        artifact.result.redactedText).isValid = true) :
    steps.outcome.findings = [] ∨
      IsPlainScope steps.before.state.scopeId := by
  have sound := (sound_of_withPriorSession steps.continued).1
  have replaced := steps.replaced
  cases findings : steps.outcome.findings with
  | nil =>
      exact Or.inl rfl
  | cons finding later =>
      right
      rw [findings] at replaced
      obtain ⟨gap, next, token, hint, rest, _, step, _, isOutput⟩ :=
        ReplacementProcessor.redactFrom_cons_eq_some.mp replaced
      rw [isOutput] at valid
      exact (step.isTokenIn sound.parsed).isPlainScope single valid

/-- Where tokens cannot be mistaken, copies that survive were left alone. -/
theorem sparesCopies_of_copiesSurvive
    (copied : Copied (IsValidToken environment.runtime) text tokens)
    (detected :
      detectInternal environment request.response redactor text
        request.inputKind request.sourcePath = some outcome)
    (continued :
      ReplacementProcessor.withPriorSession environment.runtime
        request.priorSession request.externalId request.scopeId = .ok before)
    (unmistakable :
      Unmistakable environment.runtime before.state outcome.findings)
    (survive :
      redactor.CopiesSurvive environment request text permitId tokens) :
    SparesCopies environment.runtime before.state outcome.findings text
      tokens := by
  have sound := (sound_of_withPriorSession continued).1
  have survived := survive
  obtain ⟨artifact, context, completed, _, _, valid, skipped⟩ := survived
  obtain ⟨state, allocated⟩ := exists_allocated detected continued completed
  have fits :=
    (allocationsFit_iff sound.distinct).mpr
      ⟨state, allocated, unmistakable.distinct state allocated⟩
  have ordered :=
    (exists_artifact_iff detected continued allocated).mp
      ⟨artifact, completed⟩
  have whole : ∀ token ∈ tokens, IsWholeToken environment.runtime token := by
    intro token member
    rw [← skipped] at member
    exact isWholeToken_of_mem_skippedTokens member
  obtain ⟨steps, rfl, rfl⟩ := exists_redacted detected continued completed
  have scope := steps.plainScope unmistakable.single valid
  obtain ⟨apart, unissued⟩ :=
    (steps.copiesSurvive_iff completed (copied.of_forall whole) scope
      fits).mp survive
  exact ⟨whole, scope, fits, ordered, apart, unissued⟩

/-- After a session in a plain scope that leaves room for the findings, the
copies survive exactly when they can be found, are not overlapped and not issued
again. -/
theorem copiesSurvive_iff_of_leavesRoom {prior : RedactionSession}
    (copied : Copied (IsValidToken environment.runtime) text tokens)
    (detected :
      detectInternal environment request.response redactor text
        request.inputKind request.sourcePath = some outcome)
    (isPrior : request.priorSession = some prior)
    (continued :
      ReplacementProcessor.withPriorSession environment.runtime
        request.priorSession request.externalId request.scopeId = .ok before)
    (plain : IsPlainScope prior.scopeId)
    (room : prior.LeavesRoom environment.runtime outcome.findings) :
    redactor.CopiesSurvive environment request text permitId tokens ↔
      (∀ token ∈ tokens, IsWholeToken environment.runtime token) ∧
        outcome.findings.IsChain EndsBefore ∧
        (∀ finding ∈ outcome.findings,
          ∀ range ∈ scanTokenLikeRanges text, finding.Apart range) ∧
        ∀ token ∈ tokens,
          ¬ before.state.Issues environment.runtime outcome.findings
            token := by
  have sound := (sound_of_withPriorSession continued).1
  have accepted := continued
  rw [isPrior] at accepted
  obtain ⟨_, _, sameScope, _⟩ := of_withPriorSession_eq_ok accepted
  have scope : IsPlainScope before.state.scopeId := by
    rw [sameScope]
    exact plain
  have fits := allocationsFit_of_leavesRoom accepted scope.1 room
  have unmistakable :
      Unmistakable environment.runtime before.state outcome.findings :=
    ⟨fun _ allocated =>
        distinct_of_allocationsFit sound.distinct fits allocated,
      fun _ => scope.2⟩
  constructor
  · intro survive
    have spares :=
      sparesCopies_of_copiesSurvive copied detected continued unmistakable
        survive
    exact ⟨spares.whole, spares.ordered, spares.apart, spares.unissued⟩
  · intro conditions
    obtain ⟨whole, ordered, apart, unissued⟩ := conditions
    have spares :
        SparesCopies environment.runtime before.state outcome.findings text
          tokens :=
      ⟨whole, .inr scope, fits, ordered, apart, unissued⟩
    exact spares.copiesSurvive copied detected continued

end Redaction

/-- The copies survive when the replacements fit the state and leave them
alone; and only then, unless tokens can be mistaken for one another. -/
theorem copies_survive_iff (environment : Environment)
    (redactor : RedactorInstance) (request : RedactionRequest)
    (text permitId : Text) (tokens : List Text)
    (copied : Copied (IsValidToken environment.runtime) text tokens)
    (outcome : DetectionOutcome)
    (detected :
      detectInternal environment request.response redactor text
        request.inputKind request.sourcePath = some outcome)
    (before : ReplacementProcessor)
    (continued :
      ReplacementProcessor.withPriorSession environment.runtime
        request.priorSession request.externalId request.scopeId =
          .ok before) :
    (SparesCopies environment.runtime before.state outcome.findings text
        tokens →
      redactor.CopiesSurvive environment request text permitId tokens) ∧
      (Unmistakable environment.runtime before.state outcome.findings →
        redactor.CopiesSurvive environment request text permitId tokens →
        SparesCopies environment.runtime before.state outcome.findings text
          tokens) :=
  ⟨fun spares => spares.copiesSurvive copied detected continued,
    sparesCopies_of_copiesSurvive copied detected continued⟩

instance decidableCopiesSurvive (environment : Environment)
    (redactor : RedactorInstance) (request : RedactionRequest)
    (text permitId : Text) (tokens : List Text) :
    Decidable
      (redactor.CopiesSurvive environment request text permitId tokens) :=
  match completed : redactor.redactArtifact environment request text with
  | some (.ok artifact) =>
      match permitted :
        RestoreContext.withPermits artifact.session
          [createRestorePermit artifact.session permitId]
      with
      | .ok context =>
          decidable_of_iff
            (let result :=
              context.restoreText environment.runtime
                artifact.result.redactedText
            result.restoredText = text ∧ result.isValid = true ∧
              result.skippedTokens = tokens)
            ⟨fun survive => ⟨artifact, context, completed, permitted, survive⟩,
              by
                rintro ⟨other, opened, again, sameContext, survive⟩
                cases completed.symm.trans again
                cases permitted.symm.trans sameContext
                exact survive⟩
      | .error message =>
          .isFalse (by
            rintro ⟨other, opened, again, sameContext, _⟩
            cases completed.symm.trans again
            cases permitted.symm.trans sameContext)
  | some (.error message) =>
      .isFalse (by
        rintro ⟨other, opened, again, _⟩
        cases completed.symm.trans again)
  | none =>
      .isFalse (by
        rintro ⟨other, opened, again, _⟩
        cases completed.symm.trans again)

def sampleMailPolicy : RedactionPolicy where
  rules := { ip := false, cidr := false }

def sampleMailRedactor : RedactorInstance where
  llm := false
  compiledPolicy :=
    { policy := sampleMailPolicy
      customStrings :=
        { exact := { set := none, rules := [] }
          contains := { set := none, rules := [] }
          regex := [] }
      customFiles := [] }

theorem tryBuild_sampleMail :
    tryBuild sampleLineEnvironment.engine false sampleMailPolicy =
      .ok sampleMailRedactor := rfl

/-- The request that continues a session with the second token for the
address. -/
def sampleMailRequest : RedactionRequest :=
  { sampleRequest with
    priorSession := some (sampleSession (lit "alice@example.com")) }

/-- The address, and the copy of a token behind it. -/
def sampleCopy (token : Text) : Text :=
  lit "alice@example.com " ++ token

theorem copied_sampleCopy (counter : Nat) (fits : counter ≤ unsignedMax) :
    Copied (IsValidToken sampleRuntime) (sampleCopy (sampleToken counter))
      [sampleToken counter] := by
  have read :
      parseToken sampleRuntime (sampleToken counter) =
        .ok ⟨lit "ab", .email, counter⟩ :=
    parseToken_formatToken (by decide) fits
  have markerFree : MarkerFree (lit "alice@example.com ") := by
    decide
  have nothing : MarkerFree [] := by
    decide
  have copied :=
    @Copied.copy (IsValidToken sampleRuntime) _ _ _ _ markerFree ⟨_, read⟩
      (.plain nothing)
  rwa [List.append_nil] at copied

/-- The copied token stands for another value of the session, and is left as
it is. -/
theorem copies_survive_iff_other_value :
    ∃ outcome before,
      detectInternal sampleLineEnvironment sampleMailRequest.response
          sampleMailRedactor (sampleCopy (sampleToken 1)) .text none =
        some outcome ∧
      ReplacementProcessor.withPriorSession sampleRuntime
          sampleMailRequest.priorSession none (lit "ab") = .ok before ∧
      sampleMailRedactor.CopiesSurvive sampleLineEnvironment
        sampleMailRequest (sampleCopy (sampleToken 1)) (lit "p1")
        [sampleToken 1] ∧
      SparesCopies sampleRuntime before.state outcome.findings
        (sampleCopy (sampleToken 1)) [sampleToken 1] := by
  have below :
      (detectInternal sampleLineEnvironment sampleMailRequest.response
          sampleMailRedactor (sampleCopy (sampleToken 1)) .text none).any
        (fun outcome =>
          (ReplacementProcessor.withPriorSession sampleRuntime
              sampleMailRequest.priorSession none (lit "ab")).toOption.any
            fun before =>
              decide
                (StaysBelowLimit sampleRuntime before.state
                  outcome.findings)) =
        true := by
    decide +kernel
  have survive :
      sampleMailRedactor.CopiesSurvive sampleLineEnvironment
        sampleMailRequest (sampleCopy (sampleToken 1)) (lit "p1")
        [sampleToken 1] := by
    decide +kernel
  obtain ⟨outcome, detected, continues⟩ := (Option.any_eq_true _ _).mp below
  cases continued :
      ReplacementProcessor.withPriorSession sampleRuntime
        sampleMailRequest.priorSession none (lit "ab") with
  | error message =>
      rw [continued] at continues
      cases continues
  | ok before =>
      rw [continued] at continues
      have sound := (sound_of_withPriorSession continued).1
      obtain ⟨_, _, scope, _, _, counted⟩ :=
        of_withPriorSession_eq_ok continued
      have isScope : IsScope before.state.scopeId := by
        rw [scope]
        exact ⟨by decide, by decide⟩
      have fit :
          AllocationsFit sampleRuntime before.state outcome.findings :=
        allocationsFit_of_staysBelowLimit isScope counted
          (of_decide_eq_true continues)
      have unmistakable :
          Unmistakable sampleRuntime before.state outcome.findings := by
        refine ⟨fun _ allocated => ?_, fun colon => ?_⟩
        · exact distinct_of_allocationsFit sound.distinct fit allocated
        · exact absurd colon isScope.2
      exact ⟨outcome, before, detected, rfl, survive,
        (copies_survive_iff sampleLineEnvironment sampleMailRedactor
          sampleMailRequest (sampleCopy (sampleToken 1)) (lit "p1")
          [sampleToken 1] (copied_sampleCopy 1 (by decide)) outcome detected
          before continued).2 unmistakable survive⟩

/-- The copied token of the address beside it is issued again, and restored. -/
theorem reissued_copy_is_restored :
    ¬ ∀ (environment : Environment) (llm : Bool) (policy : RedactionPolicy)
        (redactor : RedactorInstance),
      tryBuild environment.engine llm policy = .ok redactor →
      ∀ (request : RedactionRequest) (text permitId : Text)
        (tokens : List Text),
        (∀ prior ∈ request.priorSession,
          validatePriorSession environment.runtime prior
            request.externalId = .ok ()) →
        Copied (IsValidToken environment.runtime) text tokens →
        redactor.CopiesSurvive environment request text permitId tokens := by
  intro survive
  have survived :=
    survive sampleLineEnvironment false sampleMailPolicy sampleMailRedactor
      tryBuild_sampleMail sampleMailRequest (sampleCopy (sampleToken 2))
      (lit "p1") [sampleToken 2] (by
        intro prior isPrior
        cases Option.some.inj isPrior
        decide +kernel)
      (copied_sampleCopy 2 (by decide))
  revert survived
  decide +kernel

end Redactor
