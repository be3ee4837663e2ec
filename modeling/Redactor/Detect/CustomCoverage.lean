import Redactor.Detect.CustomStrings
import Redactor.Detect.Llm
import Redactor.Replace.Token

/-!
# What the custom strings leave covered

Of a plain text without a language model.  The finding of a match is always
among the candidates, so that its bytes are lost in the selection or not at
all.
-/

namespace Redactor

open Utf8 Fallible

/-- The candidates from which the findings of the rules are selected. -/
def RedactorInstance.candidates (environment : Environment)
    (redactor : RedactorInstance) (text : Text) (inputKind : InputKind)
    (sourcePath : Option Text) : List Finding :=
  policyCandidates environment text redactor.compiledPolicy.policy
    redactor.compiledPolicy.customStrings redactor.compiledPolicy.customFiles
    (redactableRanges text inputKind sourcePath)

theorem tryBuild_eq_ok {engine : Engine} {llm : Bool}
    {policy : RedactionPolicy} {redactor : RedactorInstance}
    (accepted : tryBuild engine llm policy = .ok redactor) :
    ∃ customStrings,
      CompiledCustomStrings.new engine policy.customStrings =
        .ok customStrings ∧
      redactor =
        { llm
          compiledPolicy :=
            { policy
              customStrings
              customFiles :=
                policy.customFiles.map CustomFileRule.path } } := by
  obtain ⟨_, rest⟩ := check_bind_eq_ok.mp accepted
  obtain ⟨customStrings, compiled, last⟩ := bind_eq_ok.mp rest
  cases last
  exact ⟨customStrings, compiled, rfl⟩

/-- Without a language model the findings are those of the rules. -/
theorem detectInternal_rules {environment : Environment}
    {redactor : RedactorInstance} (rulesOnly : redactor.llm = false)
    (response : Except Text (List Candidate)) (text : Text)
    (inputKind : InputKind) (sourcePath : Option Text) :
    ∃ outcome,
      detectInternal environment response redactor text inputKind
          sourcePath = some outcome ∧
      outcome.findings =
        (selectNonOverlapping
          (redactor.candidates environment text inputKind sourcePath)).1 := by
  by_cases unredactable :
      (redactableRanges text inputKind sourcePath).isEmpty = true
  · have none := List.isEmpty_iff.mp unredactable
    have candidates :
        redactor.candidates environment text inputKind sourcePath = [] := by
      simp [RedactorInstance.candidates, policyCandidates, none,
        detectCustomFiles]
    refine ⟨{ findings := [], stats := {} }, ?_, ?_⟩
    · simp [detectInternal, none]
    · rw [candidates]
      rfl
  · have detected :
        detectInternal environment response redactor text inputKind
            sourcePath =
          some
            { findings :=
                (selectNonOverlapping
                  (redactor.candidates environment text inputKind
                    sourcePath)).1
              stats :=
                { droppedFindings :=
                    (selectNonOverlapping
                      (redactor.candidates environment text inputKind
                        sourcePath)).2 } } := by
      unfold detectInternal
      simp only [unredactable, rulesOnly, Bool.false_eq_true, if_false]
      rfl
    exact ⟨_, detected, rfl⟩

/-! ## The bytes of the custom strings -/

theorem inside_of_no_captures (_pattern text : Text) :
    ∀ captures ∈ ([] : List (Text → Option RegexMatch)),
      ∀ name, ∀ found ∈ captures name, found.Inside text := by
  simp

/-- An engine that knows one match. -/
def singleMatchEngine (needle haystack : Text) (only : RegexMatch)
    (inside : only.Inside haystack) (hasKnownSuffix : Text → Bool) :
    Engine where
  compileError _ := none
  compileSetError _ := none
  escape text := text
  findIter pattern text :=
    if pattern = needle ∧ text = haystack then [only] else []
  findIter_inside := by
    intro pattern text found member
    split at member
    · rename_i here
      rw [List.mem_singleton.mp member, here.2]
      exact inside
    · cases member
  findIter_pairwise := by
    intro pattern text
    split <;> simp
  capturesIter _ _ := []
  capturesIter_inside := inside_of_no_captures
  setMatches patterns text :=
    (List.range patterns.length).filter fun index =>
      decide (patterns.getD index [] = needle ∧ text = haystack)
  setMatches_eq := by
    intro patterns text
    congr 1
    funext index
    by_cases here : patterns.getD index [] = needle ∧ text = haystack
    · simp only [here, and_self, if_true]
      rfl
    · simp only [here, if_false]
      rfl
  hasKnownSuffix := hasKnownSuffix

def sampleLine : Text :=
  lit "secret alice@example.com"

def sampleLineEnvironment : Environment where
  runtime := sampleRuntime
  engine :=
    singleMatchEngine (lit "secret") sampleLine { start := 0, finish := 6 }
      { ordered := by decide
        start := by decide
        finish := by decide }
      fun value => value == lit "example.com"

def sampleLineRule (scope : CustomStringScope) : CustomStringRule where
  pattern := lit "secret"
  scope := scope

def sampleLinePolicy (rules : RedactionRules) (scope : CustomStringScope) :
    RedactionPolicy where
  rules := rules
  customStrings := [sampleLineRule scope]

def sampleLineRedactor (llm : Bool) (rules : RedactionRules)
    (scope : CustomStringScope) : RedactorInstance where
  llm := llm
  compiledPolicy :=
    { policy := sampleLinePolicy rules scope
      customStrings :=
        { exact :=
            { set := some [lit "secret"]
              rules :=
                [{ index := 0
                   rule := sampleLineRule scope
                   pattern := lit "secret" }] }
          contains := { set := none, rules := [] }
          regex := [] }
      customFiles := [] }

theorem tryBuild_sampleLine (llm : Bool) (rules : RedactionRules)
    (scope : CustomStringScope) :
    tryBuild sampleLineEnvironment.engine llm
        (sampleLinePolicy rules scope) =
      .ok (sampleLineRedactor llm rules scope) := by
  cases scope <;> rfl

end Redactor
