import Redactor.Detect.Contextual
import Redactor.Detect.Custom
import Redactor.Detect.Overlap

/-!
# Detection by the rules of a policy

All detectors look at every redactable range by itself, and one selection is
made from all their candidates.
-/

namespace Redactor

open Utf8 Fallible

/-- What the library takes from outside. -/
structure Environment where
  runtime : Runtime
  engine : Engine

def detectBuiltins (environment : Environment) (text : Text)
    (rules : RedactionRules) : List Finding :=
  let engine := environment.engine
  let findings := detectContextualAssignments engine text rules
  let findings :=
    if rules.secret then
      propagateRepeatedSecrets text findings ++
        detectPattern engine text secretPattern .secret 92 looksLikeSecret
    else
      findings
  findings ++
    (if rules.email then detectEmails engine text else []) ++
    (if rules.url then
      detectPattern engine text urlPattern .url 96 fun _ => true
    else []) ++
    (if rules.cidr then
      detectPattern engine text cidrPattern .cidr 94
        (isValidCidr environment.runtime)
    else []) ++
    (if rules.ip then
      detectPattern engine text ipPattern .ip 90 isValidIp
    else []) ++
    (if rules.phone then detectPhones text else []) ++
    (if rules.domain then detectDomains engine text else [])

def Finding.shift (offset : Nat) (finding : Finding) : Finding :=
  { finding with
    start := finding.start + offset
    finish := finding.finish + offset }

structure PolicyDetectionResult where
  findings : List Finding
  droppedFindings : Nat

/-- The candidates of one range. -/
def rangeCandidates (environment : Environment) (text : Text)
    (policy : RedactionPolicy) (customStrings : CompiledCustomStrings)
    (customFiles : List Text) (range : RedactableRange) : List Finding :=
  if range.filePath.any (customFiles.contains ·) then
    []
  else
    let fragment := slice text range.start range.finish
    (detectBuiltins environment fragment policy.rules ++
        detectCustomStrings environment.engine fragment customStrings).map
      (Finding.shift range.start)

/-- All candidates, before the selection. -/
def policyCandidates (environment : Environment) (text : Text)
    (policy : RedactionPolicy) (customStrings : CompiledCustomStrings)
    (customFiles : List Text) (ranges : List RedactableRange) :
    List Finding :=
  (if customFiles.isEmpty then []
  else detectCustomFiles text ranges customFiles) ++
    ranges.flatMap
      (rangeCandidates environment text policy customStrings customFiles)

/-- The finding of a whole range. -/
def fileFinding (text : Text) (range : RedactableRange) (filePath : Text) :
    Finding :=
  ruleFinding .customFile (slice text range.start range.finish)
    (lit "file:" ++ filePath) 100 range.start range.finish

section Candidates

variable {environment : Environment} {text : Text}
  {policy : RedactionPolicy} {customStrings : CompiledCustomStrings}
  {customFiles : List Text} {ranges : List RedactableRange}
  {range : RedactableRange} {finding : Finding}

theorem mem_detectCustomFiles :
    finding ∈ detectCustomFiles text ranges customFiles ↔
      ∃ range ∈ ranges, ∃ filePath, range.filePath = some filePath ∧
        filePath ∈ customFiles ∧
        finding = fileFinding text range filePath := by
  unfold detectCustomFiles
  rw [List.mem_filterMap]
  constructor
  · intro found
    obtain ⟨range, listed, given⟩ := found
    cases named : range.filePath with
    | none =>
        simp [named] at given
    | some filePath =>
        simp only [named, Option.ite_none_right_eq_some,
          Option.some.injEq] at given
        exact ⟨range, listed, filePath, named, given.1, given.2.symm⟩
  · intro found
    obtain ⟨range, listed, filePath, named, present, isFinding⟩ := found
    refine ⟨range, listed, ?_⟩
    simp only [named, if_pos present, isFinding]
    rfl

theorem mem_rangeCandidates :
    finding ∈
        rangeCandidates environment text policy customStrings customFiles
          range ↔
      range.filePath.any (customFiles.contains ·) = false ∧
        ∃ inner,
          (inner ∈
              detectBuiltins environment
                (slice text range.start range.finish) policy.rules ∨
            inner ∈
              detectCustomStrings environment.engine
                (slice text range.start range.finish) customStrings) ∧
          finding = inner.shift range.start := by
  unfold rangeCandidates
  by_cases named : range.filePath.any (customFiles.contains ·) = true
  · rw [if_pos named, named]
    simp
  · rw [if_neg named, Bool.eq_false_iff.mpr named]
    simp only [List.mem_map, List.mem_append, true_and, @eq_comm _ finding]

theorem mem_policyCandidates :
    finding ∈
        policyCandidates environment text policy customStrings customFiles
          ranges ↔
      finding ∈ detectCustomFiles text ranges customFiles ∨
        ∃ range ∈ ranges,
          finding ∈
            rangeCandidates environment text policy customStrings customFiles
              range := by
  unfold policyCandidates
  rw [List.mem_append, List.mem_flatMap]
  apply or_congr_left
  split
  · rename_i empty
    rw [List.isEmpty_iff] at empty
    rw [mem_detectCustomFiles, empty]
    simp
  · rfl

end Candidates

def detectWithPolicy (environment : Environment) (text : Text)
    (policy : RedactionPolicy) (customStrings : CompiledCustomStrings)
    (customFiles : List Text) (ranges : List RedactableRange) :
    PolicyDetectionResult :=
  let (findings, dropped) :=
    selectNonOverlapping
      (policyCandidates environment text policy customStrings customFiles
        ranges)
  { findings, droppedFindings := dropped }

/-- The message about the first rule that has nothing to look for. -/
def RedactionPolicy.validateStructure (policy : RedactionPolicy) :
    Except Text Unit := do
  forM policy.customStrings.zipIdx fun (rule, index) =>
    if rule.pattern.isEmpty then
      .error
        (lit "custom_strings[" ++ numeral index ++
          lit "]: pattern must not be empty")
    else
      .ok ()
  forM policy.customFiles.zipIdx fun (rule, index) =>
    if rule.path.isEmpty then
      .error
        (lit "custom_files[" ++ numeral index ++
          lit "]: path must not be empty")
    else
      .ok ()

structure CompiledPolicy where
  policy : RedactionPolicy
  customStrings : CompiledCustomStrings
  customFiles : List Text

/-- A `Redactor`; `llm` says whether a language model is configured. -/
structure RedactorInstance where
  llm : Bool
  compiledPolicy : CompiledPolicy

def tryBuild (engine : Engine) (llm : Bool) (policy : RedactionPolicy) :
    Except Text RedactorInstance := do
  policy.validateStructure
  let customStrings ← CompiledCustomStrings.new engine policy.customStrings
  .ok
    { llm
      compiledPolicy :=
        { policy
          customStrings
          customFiles := policy.customFiles.map CustomFileRule.path } }

end Redactor
