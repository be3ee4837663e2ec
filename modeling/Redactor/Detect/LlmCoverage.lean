import Redactor.Detect.CustomCoverage
import Redactor.Detect.Scores

/-!
# What a language model leaves covered

The findings of the model are selected together with those that the rules have
been left with.  A byte that the rules cover is lost when a finding of the
model takes the place of theirs and does not have it.
-/

namespace Redactor

open Utf8 Fallible

/-- The findings of the rules alone. -/
def RedactorInstance.ruleFindings (environment : Environment)
    (redactor : RedactorInstance) (text : Text) (inputKind : InputKind)
    (sourcePath : Option Text) : List Finding :=
  (detectWithPolicy environment text redactor.compiledPolicy.policy
    redactor.compiledPolicy.customStrings redactor.compiledPolicy.customFiles
    (redactableRanges text inputKind sourcePath)).findings

/-- What the answer of the model comes to. -/
def RedactorInstance.llmFindings (redactor : RedactorInstance)
    (candidates : List Candidate) (text : Text) (inputKind : InputKind)
    (sourcePath : Option Text) : Option (Except Text (List Finding)) :=
  discoverCandidates (.ok candidates) text redactor.compiledPolicy.policy.rules
    (redactableRanges text inputKind sourcePath)

variable {environment : Environment} {redactor : RedactorInstance}
  {candidates : List Candidate} {text : Text} {inputKind : InputKind}
  {sourcePath : Option Text} {found : List Finding}

/-- Nothing is found outside the ranges. -/
theorem discoverCandidates_nil {response : Except Text (List Candidate)}
    {rules : RedactionRules}
    (discovered :
      discoverCandidates response text rules [] = some (.ok found)) :
    found = [] := by
  unfold discoverCandidates at discovered
  split at discovered
  · cases discovered
    rfl
  · cases response with
    | error message =>
        cases discovered
    | ok candidates =>
        obtain ⟨parsed, _, last⟩ := Option.bind_eq_some_iff.mp discovered
        cases last
        simp [filterFindingsToRanges]

/-- The model takes the local part of the address for a name. -/
def sampleName : Candidate where
  kind := lit "person"
  value := lit "alice"
  confidence := none

end Redactor
