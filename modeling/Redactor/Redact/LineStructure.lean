import Redactor.Detect.LineBreaks
import Redactor.Library.Outlines
import Redactor.Redact.Cursor
import Mathlib.Algebra.GroupWithZero.Nat

/-!
# The lines of a redacted diff

A token has no line break.  A finding that has none either, and that does not
open a line, is replaced without a trace in the outline of the text; a finding
with a line break takes the break with it.
-/

namespace Redactor

open Utf8 Fallible

section Tokens

variable {runtime : Runtime}

theorem unbroken_formatToken {scopeId : Text} (scope : '\n' ∉ scopeId)
    (kind : FindingKind) (counter : Nat) :
    '\n' ∉ formatToken runtime scopeId kind counter := by
  have label : '\n' ∉ kind.tokenLabel := fun broken =>
    absurd (kind.tokenLabel_isUpper '\n' broken) (by decide)
  have number : '\n' ∉ paddedNumeral 3 counter := fun broken =>
    absurd (isDigit_of_mem_paddedNumeral broken) (by decide)
  have check : '\n' ∉ tokenCheck runtime scopeId kind counter := fun broken =>
    absurd (tokenCheck_isHex broken) (by decide)
  simp [formatToken, tokenPrefix, tokenSuffix, tokenFields, lit,
    List.intercalate, List.intersperse, scope, label, number, check]

theorem unbroken_of_parseToken {token : Text} {parsed : ParsedToken}
    (read : parseToken runtime token = .ok parsed)
    (scope : '\n' ∉ parsed.scopeId) : '\n' ∉ token := by
  obtain ⟨inner, shape, _, clean⟩ := inner_of_parseToken read
  have unbroken := clean '\n' (by decide) scope
  rw [shape]
  simp [tokenPrefix, tokenSuffix, lit, unbroken]

end Tokens

/-- No token of the state has a line break, nor does a new one. -/
structure SessionState.Unbroken (state : SessionState) : Prop where
  scope : '\n' ∉ state.scopeId
  tokens :
    ∀ key allocation, state.allocation? key = some allocation →
      '\n' ∉ allocation.token

section States

variable {runtime : Runtime}

theorem AllocationStep.unbroken {state next : SessionState}
    {finding : Finding} {token : Text} {hint : Option Text}
    (step : AllocationStep runtime state finding next token hint)
    (unbroken : state.Unbroken) : next.Unbroken ∧ '\n' ∉ token := by
  have token : '\n' ∉ token := by
    cases step with
    | reuse found _ =>
        exact unbroken.tokens _ _ found
    | allocate _ _ =>
        exact unbroken_formatToken unbroken.scope _ _
  refine ⟨?_, token⟩
  obtain ⟨own, allocated, isToken⟩ := step.allocated
  exact {
    scope := by
      rw [step.extends.scopeId]
      exact unbroken.scope
    tokens := by
      intro key allocation found
      by_cases same : finding.key = key
      · rw [← same, allocated] at found
        cases found
        rw [isToken]
        exact token
      · rw [step.frame same] at found
        exact unbroken.tokens key allocation found }

/-- The state that a redaction begins with. -/
theorem unbroken_withPriorSession {prior : Option RedactionSession}
    {externalId : Option Text} {scopeId : Text}
    {processor : ReplacementProcessor}
    (accepted :
      ReplacementProcessor.withPriorSession runtime prior externalId scopeId =
        .ok processor)
    (scope : '\n' ∉ scopeId)
    (priorScope : ∀ session ∈ prior, '\n' ∉ session.scopeId) :
    processor.state.Unbroken := by
  cases prior with
  | none =>
      cases accepted
      exact {
        scope := scope
        tokens := by
          intro key allocation found
          rw [SessionState.allocation?, Std.TreeMap.getElem?_emptyc] at found
          cases found }
  | some session =>
      obtain ⟨valid, _, sameScope, _, loaded, _⟩ :=
        of_withPriorSession_eq_ok accepted
      have unbroken := priorScope session rfl
      exact {
        scope := by
          rw [sameScope]
          exact unbroken
        tokens := by
          intro key allocation found
          obtain ⟨entry, member, _, isEntry⟩ :=
            (loaded key allocation).mp found
          obtain ⟨counter, parsed⟩ := valid.parsed entry member
          rw [isEntry]
          exact unbroken_of_parseToken parsed unbroken }

end States

/-- Whether a line begins at the byte. -/
def opensAt (text : Text) (byte : Nat) : Bool :=
  opens '\n' true (slice text 0 byte)

theorem opensAt_zero (text : Text) : opensAt text 0 = true := by
  have front := slice_left [] text
  rw [List.nil_append, byteLen_nil] at front
  rw [opensAt, front, opens_nil]

theorem opensAt_slice {text middle : Text} {start finish : Nat}
    (sliced : slice? text start finish = some middle) :
    opensAt text finish = opens '\n' (opensAt text start) middle := by
  have cut := cut_of_slice? sliced
  have front :=
    slice?_of_boundaries (isCharBoundary_zero text) cut.atStart
      (Nat.zero_le start)
  have whole := (cut_of_slice? (slice?_append front sliced)).sliced
  unfold opensAt
  rw [whole, opens_append]

namespace ReplacementProcessor

variable {runtime : Runtime} {processor after : ReplacementProcessor}
  {text output : Text} {cursor : Nat} {findings : List Finding}

/-- The line breaks of the findings are lost, and no others. -/
theorem count_redactFrom
    (inText : ∀ finding ∈ findings, finding.InText text)
    (unbroken : processor.state.Unbroken)
    (done :
      redactFrom runtime text processor cursor findings =
        some (after, output)) :
    output.count '\n' +
        (findings.map fun finding => finding.matchText.count '\n').sum =
      (slice text cursor (byteLen text)).count '\n' := by
  induction findings generalizing processor cursor output with
  | nil =>
      obtain ⟨_, sliced⟩ := redactFrom_nil_eq_some.mp done
      rw [(cut_of_slice? sliced).sliced]
      simp
  | cons finding findings inductionHypothesis =>
      obtain ⟨gap, next, token, hint, rest, sliced, step, later, shape⟩ :=
        redactFrom_cons_eq_some.mp done
      obtain ⟨nextUnbroken, tokenUnbroken⟩ := step.unbroken unbroken
      have here := inText finding List.mem_cons_self
      have cut := cut_of_slice? here
      have counted :=
        inductionHypothesis
          (fun other member =>
            inText other (List.mem_cons_of_mem finding member))
          nextUnbroken later
      have behind :=
        slice?_of_boundaries cut.atFinish (isCharBoundary_byteLen text)
          cut.inside
      have parts :=
        (cut_of_slice?
          (slice?_append sliced (slice?_append here behind))).sliced
      have noBreak := List.count_eq_zero.mpr tokenUnbroken
      rw [parts, shape]
      simp only [List.count_append, List.map_cons, List.sum_cons, noBreak]
      omega

/-- A finding inside a line leaves the outline as it is. -/
theorem outline_redactFrom
    (inText : ∀ finding ∈ findings, finding.InText text)
    (within : ∀ finding ∈ findings, '\n' ∉ finding.matchText)
    (inside : ∀ finding ∈ findings, opensAt text finding.start = false)
    (unbroken : processor.state.Unbroken)
    (done :
      redactFrom runtime text processor cursor findings =
        some (after, output)) :
    outline '\n' (opensAt text cursor) output =
      outline '\n' (opensAt text cursor)
        (slice text cursor (byteLen text)) := by
  induction findings generalizing processor cursor output with
  | nil =>
      obtain ⟨_, sliced⟩ := redactFrom_nil_eq_some.mp done
      rw [(cut_of_slice? sliced).sliced]
  | cons finding findings inductionHypothesis =>
      obtain ⟨gap, next, token, hint, rest, sliced, step, later, shape⟩ :=
        redactFrom_cons_eq_some.mp done
      obtain ⟨nextUnbroken, tokenUnbroken⟩ := step.unbroken unbroken
      have here := inText finding List.mem_cons_self
      have cut := cut_of_slice? here
      have continued :=
        inductionHypothesis
          (fun other member =>
            inText other (List.mem_cons_of_mem finding member))
          (fun other member =>
            within other (List.mem_cons_of_mem finding member))
          (fun other member =>
            inside other (List.mem_cons_of_mem finding member))
          nextUnbroken later
      have behind :=
        slice?_of_boundaries cut.atFinish (isCharBoundary_byteLen text)
          cut.inside
      have parts :=
        (cut_of_slice?
          (slice?_append sliced (slice?_append here behind))).sliced
      have single := within finding List.mem_cons_self
      -- neither the finding nor its token opens a line or ends one
      have begun : opens '\n' (opensAt text cursor) gap = false := by
        rw [← opensAt_slice sliced]
        exact inside finding List.mem_cons_self
      have ended : opensAt text finding.finish = false := by
        rw [opensAt_slice here, inside finding List.mem_cons_self]
        exact opens_of_not_mem single
      rw [ended] at continued
      rw [parts, shape]
      simp only [outline_append, begun, outline_of_not_mem single,
        opens_of_not_mem single, outline_of_not_mem tokenUnbroken,
        opens_of_not_mem tokenUnbroken, continued]

end ReplacementProcessor

/-! ## Diffs -/

/-- A visible finding inside a range of a diff does not open a line. -/
theorem opensAt_start {text : Text} {finding : Finding}
    (confined : finding.Confined text (gitDiffRedactableRanges text))
    (visible : finding.matchText ≠ [])
    (single : '\n' ∉ finding.matchText) :
    opensAt text finding.start = false := by
  obtain ⟨range, listed, bounds⟩ := confined.inRange
  have behind := gitDiff_behindMarker text range listed
  obtain ⟨content, sliced, _, ended⟩ := behind.sliced
  obtain ⟨before, marker, front, inner⟩ := behind.marked
  have rangeCut := cut_of_slice? sliced
  have cut := cut_of_slice? confined.inText
  have lead :=
    slice?_of_boundaries rangeCut.atStart cut.atStart bounds.1
  have rest :=
    slice?_of_boundaries cut.atFinish rangeCut.atFinish bounds.2
  have parts := slice?_append lead (slice?_append confined.inText rest)
  rw [sliced] at parts
  have shape := Option.some.inj parts
  have opened : opensAt text range.start = false := by
    unfold opensAt
    rw [front, opens_append]
    simp [opens, inner]
  rw [opensAt_slice lead, opened]
  apply opens_of_not_mem
  intro broken
  -- a break before the finding would be the last character of the finding
  have last :=
    ended.getLast?_of_mem
      (show slice text range.start finding.start ++ finding.matchText <:+:
          content from
        ⟨[], slice text finding.finish range.finish, by rw [shape]; simp⟩)
      (List.mem_append_left _ broken)
  rw [List.getLast?_append_of_ne_nil _ visible] at last
  exact single (List.mem_of_getLast? last)

/-- A finding that has a line break takes it out of the text. -/
theorem count_sum_eq_zero_iff {findings : List Finding} :
    (findings.map fun finding => finding.matchText.count '\n').sum = 0 ↔
      ∀ finding ∈ findings, '\n' ∉ finding.matchText := by
  rw [List.sum_eq_zero_iff_forall_eq_nat]
  simp [List.count_eq_zero]

section Diff

variable {environment : Environment} {policy : RedactionPolicy}
  {redactor : RedactorInstance} {text : Text} {sourcePath : Option Text}
  {response : Except Text (List Candidate)} {outcome : DetectionOutcome}

/-- No candidate of a diff is empty. -/
theorem visible_candidate
    (accepted : tryBuild environment.engine false policy = .ok redactor)
    (noStrings : policy.customStrings = [])
    (keeps : environment.engine.KeepsLines) :
    ∀ finding ∈ redactor.candidates environment text .gitDiff sourcePath,
      finding.matchText ≠ [] := by
  intro finding member
  rcases candidate_cases accepted noStrings keeps member with
    ⟨range, listed, filePath, _, _, isFinding⟩ | ⟨_, _, _, inLine, _⟩
  · obtain ⟨content, sliced, visible, _⟩ :=
      (gitDiff_behindMarker text range listed).sliced
    rw [isFinding]
    simp only [fileFinding, ruleFinding, (cut_of_slice? sliced).sliced]
    exact visible
  · exact inLine.visible

/-- The redaction of a diff ends whenever the additions of its allocations
do. -/
theorem diff_redaction_completes
    (accepted : tryBuild environment.engine false policy = .ok redactor)
    (noStrings : policy.customStrings = [])
    (keeps : environment.engine.KeepsLines) {request : RedactionRequest}
    (diff : request.inputKind = .gitDiff)
    (detected :
      detectInternal environment request.response redactor text .gitDiff
        request.sourcePath = some outcome)
    {processor : ReplacementProcessor}
    (continued :
      ReplacementProcessor.withPriorSession environment.runtime
        request.priorSession request.externalId request.scopeId =
          .ok processor)
    {state : SessionState}
    (allocated :
      allocateAll environment.runtime processor.state outcome.findings =
        some state) :
    ∃ artifact,
      redactor.redactArtifact environment request text =
        some (.ok artifact) := by
  have proper :
      ∀ finding ∈
          redactor.candidates environment text .gitDiff request.sourcePath,
        finding.start < finding.finish := by
    intro finding member
    have cut := cut_of_slice? (confined_candidates finding member).inText
    have visible := visible_candidate accepted noStrings keeps finding member
    have size : 0 < byteLen finding.matchText :=
      Nat.pos_of_ne_zero fun none => visible (byteLen_eq_zero.mp none)
    have length := cut.length
    omega
  have chained : outcome.findings.IsChain EndsBefore := by
    rw [findings_eq_rules accepted detected]
    apply (isChain_selected_iff ?_).mpr (noneBehind_of_proper proper)
    exact fun finding member => (proper finding member).le
  rw [← diff] at detected
  exact (exists_artifact_iff detected continued allocated).mpr chained

end Diff

/-- A redacted diff has the lines of the diff, each with its first character,
exactly when no file that the policy names has a line with a line break. -/
theorem diff_lines_kept_iff (environment : Environment)
    (policy : RedactionPolicy) (redactor : RedactorInstance)
    (accepted : tryBuild environment.engine false policy = .ok redactor)
    (noStrings : policy.customStrings = [])
    (keeps : environment.engine.KeepsLines) (request : RedactionRequest)
    (diff : request.inputKind = .gitDiff)
    (scope : '\n' ∉ request.scopeId)
    (priorScope :
      ∀ prior ∈ request.priorSession, '\n' ∉ prior.scopeId)
    (text : Text) (artifact : RedactorInstance.RedactionArtifact)
    (completed :
      redactor.redactArtifact environment request text =
        some (.ok artifact)) :
    (artifact.result.redactedText.count '\n' = text.count '\n' ∧
      lineHeads '\n' artifact.result.redactedText = lineHeads '\n' text) ↔
      policy.SparesBreaks text := by
  obtain ⟨steps⟩ := redactArtifact_eq_ok completed
  have detected := steps.detected
  rw [diff] at detected
  have unbroken :=
    unbroken_withPriorSession steps.continued scope priorScope
  have confined := confined_detected detected
  have inText :
      ∀ finding ∈ steps.outcome.findings, finding.InText text :=
    fun finding member => (confined finding member).inText
  have single := unbroken_detected_iff accepted noStrings keeps detected
  rw [← single]
  constructor
  · intro kept
    have counted :=
      ReplacementProcessor.count_redactFrom inText unbroken steps.replaced
    rw [slice_all] at counted
    apply count_sum_eq_zero_iff.mp
    have same := kept.1
    omega
  · intro within
    have visible :
        ∀ finding ∈ steps.outcome.findings, finding.matchText ≠ [] := by
      rw [findings_eq_rules accepted detected]
      exact fun finding member =>
        visible_candidate accepted noStrings keeps finding
          (mem_of_mem_selected member)
    apply lines_eq_of_outline_eq
    have outlined :=
      ReplacementProcessor.outline_redactFrom inText within
        (fun finding member =>
          opensAt_start (confined finding member)
            (visible finding member) (within finding member))
        unbroken steps.replaced
    rw [slice_all, opensAt_zero] at outlined
    exact outlined

instance decidableSparesBreaks (policy : RedactionPolicy) (text : Text) :
    Decidable (policy.SparesBreaks text) :=
  inferInstanceAs
    (Decidable
      (∀ range ∈ gitDiffRedactableRanges text, policy.hides range = true →
        '\n' ∉ slice text range.start range.finish))

theorem keepsLines_sampleLine :
    sampleLineEnvironment.engine.KeepsLines := by
  intro pattern kind confidence listed text found occurs
  have other : pattern ≠ lit "secret" := by
    intro same
    rw [same] at listed
    revert listed
    simp [builtinPatterns, urlPattern, cidrPattern, ipPattern,
      domainPattern, lit]
  simp [sampleLineEnvironment, singleMatchEngine, other] at occurs

def sampleFilePolicy : RedactionPolicy where
  customFiles := [{ path := lit "s" }]

def sampleFileRedactor : RedactorInstance where
  llm := false
  compiledPolicy :=
    { policy := sampleFilePolicy
      customStrings :=
        { exact := { set := none, rules := [] }
          contains := { set := none, rules := [] }
          regex := [] }
      customFiles := [lit "s"] }

theorem tryBuild_sampleFile :
    tryBuild sampleLineEnvironment.engine false sampleFilePolicy =
      .ok sampleFileRedactor := rfl

def sampleDiffRequest : RedactionRequest where
  inputKind := .gitDiff
  scopeId := lit "ab"
  sessionId := lit "s1"

/-- An address in one file, and a line of the named file that ends with
`ending`. -/
def sampleFileDiff (ending : Text) : Text :=
  lit "diff --git a/t b/t\n@@\n+alice@example.com\n" ++
    lit "diff --git a/s b/s\n@@\n+x" ++ ending

/-- The last line of the named file has no line break. -/
theorem diff_lines_kept_iff_unterminated :
    ∃ artifact,
      sampleFileRedactor.redactArtifact sampleLineEnvironment
          sampleDiffRequest (sampleFileDiff []) =
        some (.ok artifact) ∧
      artifact.result.redactedText.count '\n' =
        (sampleFileDiff []).count '\n' ∧
      lineHeads '\n' artifact.result.redactedText =
        lineHeads '\n' (sampleFileDiff []) := by
  have completes :
      (sampleFileRedactor.redactArtifact sampleLineEnvironment
          sampleDiffRequest (sampleFileDiff [])).any
        (fun result => result.toOption.any fun _ => true) = true := by
    decide +kernel
  obtain ⟨artifact, redacted, _⟩ := exists_ok_of_any completes
  have kept :=
    diff_lines_kept_iff sampleLineEnvironment sampleFilePolicy
      sampleFileRedactor tryBuild_sampleFile rfl keepsLines_sampleLine
      sampleDiffRequest rfl (by decide) (by simp [sampleDiffRequest])
      (sampleFileDiff []) artifact redacted
  exact ⟨artifact, redacted, kept.mpr (by decide +kernel)⟩

/-- The line break of the named file is lost. -/
theorem named_file_loses_line_break :
    ¬ ∀ (environment : Environment) (policy : RedactionPolicy)
        (redactor : RedactorInstance),
      tryBuild environment.engine false policy = .ok redactor →
      policy.customStrings = [] →
      environment.engine.KeepsLines →
      ∀ (request : RedactionRequest), request.inputKind = .gitDiff →
        '\n' ∉ request.scopeId → request.priorSession = none →
        ∀ (text : Text) (artifact : RedactorInstance.RedactionArtifact),
          redactor.redactArtifact environment request text =
            some (.ok artifact) →
          artifact.result.redactedText.count '\n' = text.count '\n' := by
  intro kept
  have shorter :
      (sampleFileRedactor.redactArtifact sampleLineEnvironment
          sampleDiffRequest (sampleFileDiff ['\n'])).any
        (fun result =>
          result.toOption.any fun artifact =>
            artifact.result.redactedText.count '\n' == 5) = true := by
    decide +kernel
  obtain ⟨artifact, redacted, counted⟩ := exists_ok_of_any shorter
  have same :=
    kept sampleLineEnvironment sampleFilePolicy sampleFileRedactor
      tryBuild_sampleFile rfl keepsLines_sampleLine sampleDiffRequest rfl
      (by decide) rfl (sampleFileDiff ['\n']) artifact redacted
  have five := beq_iff_eq.mp counted
  rw [five] at same
  exact absurd same (by decide +kernel)

end Redactor
