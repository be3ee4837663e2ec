import Redactor.Detect.LlmCoverage
import Redactor.Replace.Processor

/-!
# Redaction of a text

The findings of a text are replaced by tokens; the result comes with the
statistics of the detection and with the session that restores it.
-/

namespace Redactor

open Utf8 Fallible

structure RedactionStats where
  totalFindings : Nat
  appliedReplacements : Nat
  droppedFindings : Nat
  llmConfigured : Bool
  llmRequestFailed : Bool
  llmCandidatesAccepted : Nat
  llmCandidatesRejected : Nat
  llmError : Option Text

def statsFor (llmConfigured : Bool) (findings : List Finding)
    (detectionStats : DetectionStats) : RedactionStats :=
  let accepted :=
    (findings.filter fun finding => decide (finding.source = .llm)).length
  { totalFindings := findings.length
    appliedReplacements := findings.length
    droppedFindings := detectionStats.droppedFindings
    llmConfigured
    llmRequestFailed := detectionStats.llmRequestFailed
    llmCandidatesAccepted := accepted
    llmCandidatesRejected := detectionStats.llmCandidatesTotal - accepted
    llmError := detectionStats.llmError }

structure RedactionResult where
  redactedText : Text
  findings : List Finding
  appliedReplacements : List AppliedReplacement
  stats : RedactionStats

/-- The artifact of a redactor, with its findings and statistics. -/
structure RedactorInstance.RedactionArtifact where
  result : RedactionResult
  session : RedactionSession

/-- What one redaction is given besides the text; `scopeId` and `sessionId`
are what the random generator returns. -/
structure RedactionRequest where
  inputKind : InputKind := .text
  sourcePath : Option Text := none
  priorSession : Option RedactionSession := none
  externalId : Option Text := none
  response : Except Text (List Candidate) := .ok []
  scopeId : Text
  sessionId : Text

/-- `redact_artifact_with_input_kind_source_and_prior_session`; there is no
result when a slice or an addition aborts, and an error when the prior session
is refused. -/
def RedactorInstance.redactArtifact (environment : Environment)
    (redactor : RedactorInstance) (request : RedactionRequest) (text : Text) :
    Option (Except Text RedactionArtifact) := do
  let outcome ←
    detectInternal environment request.response redactor text
      request.inputKind request.sourcePath
  match
    ReplacementProcessor.withPriorSession environment.runtime
      request.priorSession request.externalId request.scopeId
  with
  | .error message => some (.error message)
  | .ok processor => do
      let (processor, redactedText) ←
        processor.redactFragment environment.runtime text outcome.findings
      let session :=
        processor.buildSession environment.runtime text redactedText
          redactor.compiledPolicy.policy request.sessionId
      some
        (.ok
          { result :=
              { redactedText
                findings := outcome.findings
                appliedReplacements := processor.appliedReplacements
                stats :=
                  statsFor redactor.llm outcome.findings outcome.stats }
            session })

/-- The steps of a redaction that ended with a result. -/
structure Redacted (environment : Environment) (redactor : RedactorInstance)
    (request : RedactionRequest) (text : Text)
    (artifact : RedactorInstance.RedactionArtifact) where
  outcome : DetectionOutcome
  before : ReplacementProcessor
  after : ReplacementProcessor
  detected :
    detectInternal environment request.response redactor text
      request.inputKind request.sourcePath = some outcome
  continued :
    ReplacementProcessor.withPriorSession environment.runtime
      request.priorSession request.externalId request.scopeId = .ok before
  replaced :
    before.redactFragment environment.runtime text outcome.findings =
      some (after, artifact.result.redactedText)
  findings : artifact.result.findings = outcome.findings
  applied : artifact.result.appliedReplacements = after.appliedReplacements
  stats :
    artifact.result.stats =
      statsFor redactor.llm outcome.findings outcome.stats
  session :
    artifact.session =
      after.buildSession environment.runtime text
        artifact.result.redactedText redactor.compiledPolicy.policy
        request.sessionId

theorem redactArtifact_eq_ok {environment : Environment}
    {redactor : RedactorInstance} {request : RedactionRequest} {text : Text}
    {artifact : RedactorInstance.RedactionArtifact}
    (completed :
      redactor.redactArtifact environment request text =
        some (.ok artifact)) :
    Nonempty (Redacted environment redactor request text artifact) := by
  unfold RedactorInstance.redactArtifact at completed
  obtain ⟨outcome, detected, rest⟩ := Option.bind_eq_some_iff.mp completed
  cases continued :
      ReplacementProcessor.withPriorSession environment.runtime
        request.priorSession request.externalId request.scopeId with
  | error message =>
      rw [continued] at rest
      cases Option.some.inj rest
  | ok before =>
      rw [continued] at rest
      obtain ⟨result, replaced, last⟩ := Option.bind_eq_some_iff.mp rest
      cases last
      exact ⟨{
        outcome
        before
        after := result.1
        detected
        continued
        replaced
        findings := rfl
        applied := rfl
        stats := rfl
        session := rfl }⟩

/-- A redaction went through the outcome of its detection and the processor that
it began with. -/
theorem exists_redacted {environment : Environment}
    {redactor : RedactorInstance} {request : RedactionRequest} {text : Text}
    {artifact : RedactorInstance.RedactionArtifact}
    {outcome : DetectionOutcome} {before : ReplacementProcessor}
    (detected :
      detectInternal environment request.response redactor text
        request.inputKind request.sourcePath = some outcome)
    (continued :
      ReplacementProcessor.withPriorSession environment.runtime
        request.priorSession request.externalId request.scopeId = .ok before)
    (completed :
      redactor.redactArtifact environment request text =
        some (.ok artifact)) :
    ∃ steps : Redacted environment redactor request text artifact,
      steps.outcome = outcome ∧ steps.before = before := by
  obtain ⟨steps⟩ := redactArtifact_eq_ok completed
  have sameOutcome : steps.outcome = outcome :=
    Option.some.inj (steps.detected.symm.trans detected)
  have sameBefore : steps.before = before :=
    Except.ok.inj (steps.continued.symm.trans continued)
  exact ⟨steps, sameOutcome, sameBefore⟩

end Redactor
