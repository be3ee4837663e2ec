import Redactor.Redact.Accounting
import Redactor.Redact.Frame

/-!
# The cursor does not go back

The text between two findings is cut from the end of the first to the begin of
the second.  Both selections let an empty finding pass that begins where the
finding before it does; the cut then has no result.
-/

namespace Redactor

open Utf8 Fallible

/-- The end of a finding and the begin of the next one. -/
def EndsBefore (left right : Finding) : Prop :=
  left.finish ≤ right.start

instance decidableEndsBefore : DecidableRel EndsBefore :=
  fun left right => inferInstanceAs (Decidable (left.finish ≤ right.start))

/-- No empty candidate comes up while a candidate that begins at the same byte
and is not empty is the one last selected. -/
def NoneBehind (candidates : List Finding) : Prop :=
  LastPlace.NoneBehind Finding.start Finding.finish preferRight
    (sortCandidates candidates)

theorem isChain_selected_iff {candidates : List Finding}
    (forward : ∀ finding ∈ candidates, finding.start ≤ finding.finish) :
    (selectNonOverlapping candidates).1.IsChain EndsBefore ↔
      NoneBehind candidates := by
  rw [selectNonOverlapping_eq]
  exact
    LastPlace.isChain_select_iff
      (fun finding member =>
        forward finding (mem_sortCandidates.mp member))
      (started_sortCandidates candidates)

/-- Candidates that are not empty follow one another. -/
theorem noneBehind_of_proper {candidates : List Finding}
    (proper : ∀ finding ∈ candidates, finding.start < finding.finish) :
    NoneBehind candidates := by
  intro before finding after shape empty
  have listed : finding ∈ sortCandidates candidates := by
    rw [shape]
    simp
  have nonempty := proper finding (mem_sortCandidates.mp listed)
  omega

theorem inOrder_iff {text : Text} {cursor : Nat} {findings : List Finding}
    (boundary : IsCharBoundary text cursor)
    (inText : ∀ finding ∈ findings, finding.InText text) :
    InOrder text cursor findings ↔
      (∀ finding, findings.head? = some finding → cursor ≤ finding.start) ∧
        findings.IsChain EndsBefore := by
  induction findings generalizing cursor with
  | nil =>
      simp [InOrder]
  | cons finding findings inductionHypothesis =>
      have here := inText finding List.mem_cons_self
      have cut := cut_of_slice? here
      have rest :=
        inductionHypothesis cut.atFinish fun other member =>
          inText other (List.mem_cons_of_mem finding member)
      unfold InOrder
      rw [rest, List.isChain_cons]
      constructor
      · intro ordered
        obtain ⟨gap, _, later, follow⟩ := ordered
        obtain ⟨between, sliced⟩ := Option.isSome_iff_exists.mp gap
        refine ⟨?_, later, follow⟩
        intro first isFirst
        cases isFirst
        exact (cut_of_slice? sliced).ordered
      · intro chained
        obtain ⟨first, later, follow⟩ := chained
        refine ⟨?_, ?_, later, follow⟩
        · rw [slice?_of_boundaries boundary cut.atStart (first finding rfl)]
          rfl
        · rw [show slice? text finding.start finding.finish = _ from here]
          rfl

/-! ## Redactions -/

/-- The candidates of the selection that is made last. -/
def RedactorInstance.lastCandidates (environment : Environment)
    (redactor : RedactorInstance) (response : Except Text (List Candidate))
    (text : Text) (inputKind : InputKind) (sourcePath : Option Text) :
    List Finding :=
  if redactor.llm then
    redactor.ruleFindings environment text inputKind sourcePath ++
      redactor.consideredLlm response text inputKind sourcePath
  else
    redactor.candidates environment text inputKind sourcePath

section Detection

variable {environment : Environment} {redactor : RedactorInstance}
  {response : Except Text (List Candidate)} {text : Text}
  {inputKind : InputKind} {sourcePath : Option Text}
  {outcome : DetectionOutcome}

theorem findings_eq_last
    (detected :
      detectInternal environment response redactor text inputKind
        sourcePath = some outcome) :
    outcome.findings =
      (selectNonOverlapping
        (redactor.lastCandidates environment response text inputKind
          sourcePath)).1 := by
  unfold RedactorInstance.lastCandidates
  rcases detectInternal_selections detected with
    ⟨rulesOnly, findings, _⟩ | ⟨configured, findings, _⟩
  · rw [findings, rulesOnly]
    rfl
  · rw [findings, configured]
    rfl

theorem forward_lastCandidates :
    ∀ finding ∈
        redactor.lastCandidates environment response text inputKind
          sourcePath,
      finding.start ≤ finding.finish := by
  have ofConfined (finding : Finding)
      (confined :
        finding.Confined text
          (redactableRanges text inputKind sourcePath)) :
      finding.start ≤ finding.finish :=
    (cut_of_slice? confined.inText).ordered
  intro finding member
  unfold RedactorInstance.lastCandidates at member
  split at member
  · rcases List.mem_append.mp member with ofRules | ofModel
    · exact ofConfined finding (confined_ruleFindings finding ofRules)
    · exact ofConfined finding (confined_consideredLlm finding ofModel)
  · exact ofConfined finding (confined_candidates finding member)

theorem isChain_detected_iff
    (detected :
      detectInternal environment response redactor text inputKind
        sourcePath = some outcome) :
    outcome.findings.IsChain EndsBefore ↔
      NoneBehind
        (redactor.lastCandidates environment response text inputKind
          sourcePath) := by
  rw [findings_eq_last detected]
  exact isChain_selected_iff forward_lastCandidates

theorem inOrder_detected_iff
    (detected :
      detectInternal environment response redactor text inputKind
        sourcePath = some outcome) :
    InOrder text 0 outcome.findings ↔
      outcome.findings.IsChain EndsBefore := by
  rw [inOrder_iff (isCharBoundary_zero text) fun finding member =>
    (confined_detected detected finding member).inText]
  exact and_iff_right fun _ _ => Nat.zero_le _

end Detection

namespace ReplacementProcessor

/-- A text whose redaction ends has findings in order. -/
theorem inOrder_of_redactFrom {runtime : Runtime}
    {processor after : ReplacementProcessor} {text output : Text}
    {cursor : Nat} {findings : List Finding}
    (inText : ∀ finding ∈ findings, finding.InText text)
    (done :
      redactFrom runtime text processor cursor findings =
        some (after, output)) :
    InOrder text cursor findings := by
  induction findings generalizing processor cursor output with
  | nil =>
      trivial
  | cons finding findings inductionHypothesis =>
      obtain ⟨gap, next, token, hint, rest, sliced, _, later, _⟩ :=
        redactFrom_cons_eq_some.mp done
      have here := inText finding List.mem_cons_self
      refine ⟨by rw [sliced]; rfl, ?_, ?_⟩
      · rw [show slice? text finding.start finding.finish = _ from here]
        rfl
      · exact inductionHypothesis
          (fun other member =>
            inText other (List.mem_cons_of_mem finding member))
          later

end ReplacementProcessor

/-- A redaction ends, when its allocations do, exactly when the findings follow
one another. -/
theorem exists_artifact_iff {environment : Environment}
    {redactor : RedactorInstance} {request : RedactionRequest} {text : Text}
    {outcome : DetectionOutcome} {before : ReplacementProcessor}
    (detected :
      detectInternal environment request.response redactor text
        request.inputKind request.sourcePath = some outcome)
    (continued :
      ReplacementProcessor.withPriorSession environment.runtime
        request.priorSession request.externalId request.scopeId = .ok before)
    {state : SessionState}
    (allocated :
      allocateAll environment.runtime before.state outcome.findings =
        some state) :
    (∃ artifact,
      redactor.redactArtifact environment request text =
        some (.ok artifact)) ↔
      outcome.findings.IsChain EndsBefore := by
  constructor
  · rintro ⟨artifact, completed⟩
    obtain ⟨steps, rfl, rfl⟩ := exists_redacted detected continued completed
    refine (inOrder_detected_iff steps.detected).mp ?_
    exact ReplacementProcessor.inOrder_of_redactFrom
      (fun finding member =>
        (confined_detected steps.detected finding member).inText)
      steps.replaced
  · intro chained
    obtain ⟨after, output, done, _⟩ :=
      ReplacementProcessor.redactFrom_of_allocateAll before
        (isCharBoundary_zero text)
        ((inOrder_detected_iff detected).mpr chained) allocated
    unfold RedactorInstance.redactArtifact
    rw [detected]
    simp only [Option.bind_eq_bind, Option.bind_some, continued,
      ReplacementProcessor.redactFragment, done]
    exact ⟨_, rfl⟩

/-- The findings of a text follow one another, and replacing them ends
whenever the additions of the allocations do, exactly when no empty candidate
comes up behind the begin of the finding last selected. -/
theorem findings_in_order_iff (environment : Environment)
    (redactor : RedactorInstance) (response : Except Text (List Candidate))
    (text : Text) (inputKind : InputKind) (sourcePath : Option Text)
    (outcome : DetectionOutcome)
    (detected :
      detectInternal environment response redactor text inputKind
        sourcePath = some outcome) :
    (outcome.findings.IsChain EndsBefore ↔
        NoneBehind
          (redactor.lastCandidates environment response text inputKind
            sourcePath)) ∧
      ∀ (processor : ReplacementProcessor) (state : SessionState),
        allocateAll environment.runtime processor.state outcome.findings =
          some state →
        ((processor.redactFragment environment.runtime text
            outcome.findings).isSome = true ↔
          NoneBehind
            (redactor.lastCandidates environment response text inputKind
              sourcePath)) := by
  have chained := isChain_detected_iff detected
  have ordered := inOrder_detected_iff detected
  refine ⟨chained, ?_⟩
  intro processor state allocated
  rw [← chained, ← ordered]
  constructor
  · intro completes
    obtain ⟨⟨after, output⟩, done⟩ := Option.isSome_iff_exists.mp completes
    exact ReplacementProcessor.inOrder_of_redactFrom
      (fun finding member =>
        (confined_detected detected finding member).inText)
      done
  · intro inOrder
    obtain ⟨after, output, done, _⟩ :=
      ReplacementProcessor.redactFrom_of_allocateAll processor
        (isCharBoundary_zero text) inOrder allocated
    unfold ReplacementProcessor.redactFragment
    rw [done]
    rfl

/-- The string and the address follow one another. -/
theorem findings_in_order_iff_beside_address :
    ∃ outcome,
      detectInternal sampleLineEnvironment (.ok [])
          (sampleLineRedactor false {} .text) sampleLine .text none =
        some outcome ∧
      outcome.findings.IsChain EndsBefore := by
  obtain ⟨outcome, detected⟩ :=
    @exists_outcome sampleLineEnvironment (sampleLineRedactor false {} .text)
      (.ok []) sampleLine .text none (by simp [sampleLineRedactor])
  have ordered :=
    findings_in_order_iff sampleLineEnvironment
      (sampleLineRedactor false {} .text) (.ok []) sampleLine .text none
      outcome detected
  exact ⟨outcome, detected,
    ordered.1.mpr (noneBehind_of_proper (by decide +kernel))⟩

theorem mem_of_lookup {pattern : Text} {places : List RegexMatch}
    {rows : List (Text × List RegexMatch)}
    (known : rows.lookup pattern = some places) :
    (pattern, places) ∈ rows := by
  obtain ⟨before, after, shape, _⟩ := List.lookup_eq_some_iff.mp known
  rw [shape]
  simp

/-- An engine that knows the matches of some patterns in one text. -/
def tableEngine (haystack : Text) (rows : List (Text × List RegexMatch))
    (inside : ∀ row ∈ rows, ∀ found ∈ row.2, found.Inside haystack)
    (apart :
      ∀ row ∈ rows,
        row.2.Pairwise fun left right => left.finish ≤ right.start) :
    Engine where
  compileError _ := none
  compileSetError _ := none
  escape text := text
  findIter pattern text :=
    if text = haystack then (rows.lookup pattern).getD [] else []
  findIter_inside := by
    intro pattern text found member
    split at member
    · rename_i here
      cases known : rows.lookup pattern with
      | none =>
          simp [known] at member
      | some places =>
          rw [known, Option.getD_some] at member
          rw [here]
          exact inside (pattern, places) (mem_of_lookup known) found member
    · cases member
  findIter_pairwise := by
    intro pattern text
    split
    · cases known : rows.lookup pattern with
      | none =>
          exact List.Pairwise.nil
      | some places =>
          exact apart (pattern, places) (mem_of_lookup known)
    · exact List.Pairwise.nil
  capturesIter _ _ := []
  capturesIter_inside := inside_of_no_captures
  setMatches patterns text :=
    (List.range patterns.length).filter fun index =>
      !(if text = haystack then
          (rows.lookup (patterns.getD index [])).getD []
        else []).isEmpty
  setMatches_eq _ _ := rfl
  hasKnownSuffix _ := false

/-- The expression `z*` matches the empty text at every byte of `abc`. -/
def sampleEmptyRows : List (Text × List RegexMatch) :=
  [(lit "abc", [{ start := 0, finish := 3 }]),
    (lit "z*",
      [{ start := 0, finish := 0 }, { start := 1, finish := 1 },
        { start := 2, finish := 2 }, { start := 3, finish := 3 }])]

instance decidableInside (found : RegexMatch) (text : Text) :
    Decidable (found.Inside text) :=
  decidable_of_iff
    (found.start ≤ found.finish ∧ IsCharBoundary text found.start ∧
      IsCharBoundary text found.finish)
    ⟨fun parts => ⟨parts.1, parts.2.1, parts.2.2⟩,
      fun inside => ⟨inside.ordered, inside.start, inside.finish⟩⟩

def sampleEmptyEnvironment : Environment where
  runtime := sampleRuntime
  engine := tableEngine (lit "abc") sampleEmptyRows (by decide) (by decide)

def sampleEmptyPolicy : RedactionPolicy where
  rules := { email := false, ip := false, cidr := false }
  customStrings :=
    [{ pattern := lit "abc" }, { pattern := lit "z*", matchType := .regex }]

def sampleEmptyRedactor : RedactorInstance where
  llm := false
  compiledPolicy :=
    { policy := sampleEmptyPolicy
      customStrings :=
        { exact :=
            { set := some [lit "abc"]
              rules :=
                [{ index := 0
                   rule := { pattern := lit "abc" }
                   pattern := lit "abc" }] }
          contains := { set := none, rules := [] }
          regex :=
            [{ index := 1
               rule := { pattern := lit "z*", matchType := .regex }
               pattern := lit "z*" }] }
      customFiles := [] }

theorem tryBuild_sampleEmpty :
    tryBuild sampleEmptyEnvironment.engine false sampleEmptyPolicy =
      .ok sampleEmptyRedactor := rfl

/-- The empty match at byte 0 comes up after the string `abc` and passes; the
redaction aborts when it goes back from byte 3 to byte 0. -/
theorem empty_match_goes_back :
    (¬ ∀ (environment : Environment) (llm : Bool) (policy : RedactionPolicy)
        (redactor : RedactorInstance),
      tryBuild environment.engine llm policy = .ok redactor →
      ∀ (response : Except Text (List Candidate)) (text : Text)
        (inputKind : InputKind) (sourcePath : Option Text)
        (outcome : DetectionOutcome),
        detectInternal environment response redactor text inputKind
            sourcePath = some outcome →
        outcome.findings.IsChain EndsBefore) ∧
    ¬ ∀ (environment : Environment) (llm : Bool) (policy : RedactionPolicy)
        (redactor : RedactorInstance),
      tryBuild environment.engine llm policy = .ok redactor →
      ∀ (request : RedactionRequest) (text : Text),
        (redactor.redactArtifact environment request text).isSome = true := by
  constructor
  · intro follow
    obtain ⟨outcome, detected⟩ :=
      @exists_outcome sampleEmptyEnvironment sampleEmptyRedactor (.ok [])
        (lit "abc") .text none (by simp [sampleEmptyRedactor])
    have chained :=
      follow sampleEmptyEnvironment false sampleEmptyPolicy
        sampleEmptyRedactor tryBuild_sampleEmpty (.ok []) (lit "abc") .text
        none outcome detected
    have goesBack :
        (detectInternal sampleEmptyEnvironment (.ok []) sampleEmptyRedactor
            (lit "abc") .text none).all
          (fun outcome =>
            !decide (outcome.findings.IsChain EndsBefore)) = true := by
      decide +kernel
    rw [detected] at goesBack
    simp [chained] at goesBack
  · intro completes
    have ends :=
      completes sampleEmptyEnvironment false sampleEmptyPolicy
        sampleEmptyRedactor tryBuild_sampleEmpty sampleRequest (lit "abc")
    revert ends
    decide +kernel

end Redactor
