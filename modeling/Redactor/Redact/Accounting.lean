import Redactor.Detect.Selection
import Redactor.Redact.Artifact

/-!
# Dropped findings

A selection reports as dropped the candidates that are refused the last place.
A candidate that had it and has lost it to another one is not counted.
-/

namespace Redactor

open Utf8 Fallible

/-- No candidate that comes up is preferred to the finding last selected with
which it overlaps. -/
def NoneDisplaced (findings : List Finding) : Prop :=
  LastPlace.ReplacesNone overlaps preferRight (sortCandidates findings)

/-- How many candidates lose the last place to another one. -/
def displaced (findings : List Finding) : Nat :=
  LastPlace.replaced overlaps preferRight (sortCandidates findings)

/-- A candidate is returned, dropped or displaced. -/
theorem length_selected (findings : List Finding) :
    (selectNonOverlapping findings).1.length +
        (selectNonOverlapping findings).2 + displaced findings =
      findings.length := by
  rw [selectNonOverlapping_eq]
  have counted :=
    @LastPlace.length_select _ overlaps preferRight (sortCandidates findings)
  have sorted := List.length_insertionSort Precedes findings
  unfold displaced
  unfold sortCandidates at counted ⊢
  simp only
  omega

theorem displaced_eq_zero_iff (findings : List Finding) :
    displaced findings = 0 ↔ NoneDisplaced findings := by
  have counted :=
    @LastPlace.length_select _ overlaps preferRight (sortCandidates findings)
  have exact :=
    @LastPlace.length_select_add_dropped_iff _ overlaps preferRight
      (sortCandidates findings)
  unfold displaced NoneDisplaced
  rw [← exact]
  omega

section Detection

variable {environment : Environment} {redactor : RedactorInstance}
  {response : Except Text (List Candidate)} {text : Text}
  {inputKind : InputKind} {sourcePath : Option Text}
  {outcome : DetectionOutcome}

/-- The findings and the dropped candidates of a detection are all its
candidates exactly when neither selection displaces one. -/
theorem length_detected_iff
    (detected :
      detectInternal environment response redactor text inputKind
        sourcePath = some outcome) :
    outcome.findings.length + outcome.stats.droppedFindings =
        (redactor.candidates environment text inputKind sourcePath).length +
          (redactor.consideredLlm response text inputKind
            sourcePath).length ↔
      NoneDisplaced
          (redactor.candidates environment text inputKind sourcePath) ∧
        (redactor.llm = true →
          NoneDisplaced
            (redactor.ruleFindings environment text inputKind sourcePath ++
              redactor.consideredLlm response text inputKind
                sourcePath)) := by
  have first :=
    length_selected
      (redactor.candidates environment text inputKind sourcePath)
  have rules :
      (selectNonOverlapping
          (redactor.candidates environment text inputKind sourcePath)).1 =
        redactor.ruleFindings environment text inputKind sourcePath := rfl
  rw [rules] at first
  rw [← displaced_eq_zero_iff, ← displaced_eq_zero_iff]
  rcases detectInternal_selections detected with
    ⟨rulesOnly, findings, dropped⟩ | ⟨configured, findings, dropped⟩
  · have noLlm :
        redactor.consideredLlm response text inputKind sourcePath = [] := by
      simp [RedactorInstance.consideredLlm, rulesOnly]
    rw [findings, dropped, noLlm, rulesOnly]
    simp only [List.length_nil, Bool.false_eq_true, false_implies, and_true]
    omega
  · have second :=
      length_selected
        (redactor.ruleFindings environment text inputKind sourcePath ++
          redactor.consideredLlm response text inputKind sourcePath)
    rw [List.length_append] at second
    rw [findings, dropped, configured]
    simp only [true_implies]
    omega

end Detection

/-- The accounts are exact when no candidate is displaced: of a selection when
this is so in the selection, of a redaction when it is so in both. -/
theorem dropped_accounting_iff (findings : List Finding)
    (environment : Environment) (redactor : RedactorInstance)
    (request : RedactionRequest) (text : Text) :
    ((selectNonOverlapping findings).1.length +
          (selectNonOverlapping findings).2 = findings.length ↔
        NoneDisplaced findings) ∧
    ∀ artifact : RedactorInstance.RedactionArtifact,
      redactor.redactArtifact environment request text =
        some (.ok artifact) →
      (artifact.result.stats.totalFindings +
            artifact.result.stats.droppedFindings =
          (redactor.candidates environment text request.inputKind
              request.sourcePath).length +
            (redactor.consideredLlm request.response text request.inputKind
              request.sourcePath).length ↔
        NoneDisplaced
            (redactor.candidates environment text request.inputKind
              request.sourcePath) ∧
          (redactor.llm = true →
            NoneDisplaced
              (redactor.ruleFindings environment text request.inputKind
                  request.sourcePath ++
                redactor.consideredLlm request.response text
                  request.inputKind request.sourcePath))) := by
  constructor
  · rw [← displaced_eq_zero_iff]
    have counted := length_selected findings
    omega
  · intro artifact completed
    obtain ⟨steps⟩ := redactArtifact_eq_ok completed
    rw [steps.stats]
    exact length_detected_iff steps.detected

/-- A first request, without a prior session. -/
def sampleRequest : RedactionRequest where
  scopeId := lit "ab"
  sessionId := lit "s1"

/-- The custom string beside the address: neither displaces the other, and both
are counted. -/
theorem dropped_accounting_iff_beside_address :
    ∃ artifact,
      (sampleLineRedactor false {} .text).redactArtifact
          sampleLineEnvironment sampleRequest sampleLine =
        some (.ok artifact) ∧
      artifact.result.stats.totalFindings +
          artifact.result.stats.droppedFindings = 2 ∧
      ((sampleLineRedactor false {} .text).candidates
            sampleLineEnvironment sampleLine .text none).length +
          ((sampleLineRedactor false {} .text).consideredLlm (.ok [])
            sampleLine .text none).length = 2 ∧
      NoneDisplaced
        ((sampleLineRedactor false {} .text).candidates
          sampleLineEnvironment sampleLine .text none) := by
  have completes :
      ((sampleLineRedactor false {} .text).redactArtifact
          sampleLineEnvironment sampleRequest sampleLine).any
        (fun result =>
          result.toOption.any fun artifact =>
            artifact.result.stats.totalFindings +
              artifact.result.stats.droppedFindings == 2) = true := by
    decide +kernel
  have considered :
      ((sampleLineRedactor false {} .text).candidates
            sampleLineEnvironment sampleLine .text none).length +
          ((sampleLineRedactor false {} .text).consideredLlm (.ok [])
            sampleLine .text none).length = 2 := by
    decide +kernel
  obtain ⟨artifact, redacted, counted⟩ := exists_ok_of_any completes
  have total := beq_iff_eq.mp counted
  have accounted :=
    (dropped_accounting_iff [] sampleLineEnvironment
      (sampleLineRedactor false {} .text) sampleRequest sampleLine).2
      artifact redacted
  exact ⟨artifact, redacted, total, considered,
    (accounted.mp (total.trans considered.symm)).1⟩

/-- The address displaces the custom line it stands in, and the line is not
counted: neither by the selection nor in the statistics. -/
theorem displaced_line_is_not_counted :
    (¬ ∀ findings : List Finding,
      (selectNonOverlapping findings).1.length +
          (selectNonOverlapping findings).2 = findings.length) ∧
    ¬ ∀ (environment : Environment) (llm : Bool) (policy : RedactionPolicy)
        (redactor : RedactorInstance),
      tryBuild environment.engine llm policy = .ok redactor →
      ∀ (request : RedactionRequest) (text : Text)
        (artifact : RedactorInstance.RedactionArtifact),
        redactor.redactArtifact environment request text =
          some (.ok artifact) →
        artifact.result.stats.totalFindings +
            artifact.result.stats.droppedFindings =
          (redactor.candidates environment text request.inputKind
              request.sourcePath).length +
            (redactor.consideredLlm request.response text request.inputKind
              request.sourcePath).length := by
  constructor
  · intro exact
    exact absurd (exact sampleNested) (by decide)
  · intro exact
    have uncounted :
        ((sampleLineRedactor false {} .line).redactArtifact
            sampleLineEnvironment sampleRequest sampleLine).any
          (fun result =>
            result.toOption.any fun artifact =>
              artifact.result.stats.totalFindings +
                artifact.result.stats.droppedFindings == 1) = true := by
      decide +kernel
    obtain ⟨artifact, redacted, counted⟩ := exists_ok_of_any uncounted
    have accounts :=
      exact sampleLineEnvironment false (sampleLinePolicy {} .line)
        (sampleLineRedactor false {} .line)
        (tryBuild_sampleLine false {} .line) sampleRequest sampleLine
        artifact redacted
    have one := beq_iff_eq.mp counted
    rw [one] at accounts
    revert accounts
    decide +kernel

end Redactor
