import Mathlib.Data.List.Sort
import Std.Data.TreeMap
import Redactor.Detect.Scanners
import Redactor.Input.Ranges
import Redactor.Library.Fallible

/-!
# Custom rules

Strings and files that the policy names.  The rules are compiled once; a set of
patterns tells which of them occur in a text before each is searched for.
-/

namespace Redactor

open Utf8 Fallible

structure CompiledRule where
  index : Nat
  rule : CustomStringRule
  pattern : Text
  deriving DecidableEq, Repr

structure CompiledRuleSet where
  set : Option (List Text)
  rules : List CompiledRule

structure CompiledCustomStrings where
  exact : CompiledRuleSet
  contains : CompiledRuleSet
  regex : List CompiledRule

/-- The pattern of a rule. -/
def CustomStringRule.compiledPattern (engine : Engine)
    (rule : CustomStringRule) : Text :=
  match rule.matchType with
  | .exact => engine.escape rule.pattern
  | .contains => lit "(?i:" ++ engine.escape rule.pattern ++ lit ")"
  | .regex => rule.pattern

/-- One rule of the list, with its position; `complaint` opens the message
about a pattern that is refused. -/
def compileRule (engine : Engine) (complaint : Text)
    (numbered : CustomStringRule × Nat) : Except Text CompiledRule :=
  let pattern := numbered.1.compiledPattern engine
  match engine.compileError pattern with
  | none => .ok { index := numbered.2, rule := numbered.1, pattern }
  | some message =>
      .error
        (lit "custom_strings[" ++ numeral numbered.2 ++ lit "]: " ++
          complaint ++ numbered.1.pattern ++ lit " (" ++ message ++ lit ")")

/-- The rules of one type, with their positions. -/
def rulesOfType (rules : List CustomStringRule)
    (matchType : CustomStringMatch) : List (CustomStringRule × Nat) :=
  rules.zipIdx.filter fun numbered => numbered.1.matchType = matchType

def compileRuleSet (engine : Engine) (rules : List CustomStringRule)
    (matchType : CustomStringMatch) : Except Text CompiledRuleSet := do
  let compiled ←
    (rulesOfType rules matchType).mapM
      (compileRule engine (lit "invalid pattern: "))
  if compiled.isEmpty then
    .ok { set := none, rules := compiled }
  else
    let patterns := compiled.map CompiledRule.pattern
    match engine.compileSetError patterns with
    | none => .ok { set := some patterns, rules := compiled }
    | some message =>
        .error (lit "failed to compile custom string rule set: " ++ message)

def CompiledCustomStrings.new (engine : Engine)
    (rules : List CustomStringRule) : Except Text CompiledCustomStrings := do
  let exact ← compileRuleSet engine rules .exact
  let contains ← compileRuleSet engine rules .contains
  let regex ←
    (rulesOfType rules .regex).mapM
      (compileRule engine (lit "invalid regex pattern: "))
  .ok { exact, contains, regex }

/-- The findings of the lines, by the range of the line. -/
abbrev LineMatches :=
  Std.TreeMap (Nat × Nat) Finding
    (compareLex (compareOn Prod.fst) (compareOn Prod.snd))

structure CustomMatches where
  findings : List Finding := []
  lineMatches : LineMatches := ∅

def pushCustomStringFinding (text : Text) (rule : CustomStringRule)
    (state : CustomMatches) (found : RegexMatch) : CustomMatches :=
  match rule.scope with
  | .text =>
      { state with
        findings :=
          state.findings ++
            [ruleFinding .customString (found.asText text)
              (normalize .customString rule.pattern) 100 found.start
              found.finish] }
  | .line =>
      let start := lineStart text found.start
      let finish := lineEnd text found.finish
      let line := slice text start finish
      { state with
        lineMatches :=
          state.lineMatches.insertIfNew (start, finish)
            (ruleFinding .customString line (normalize .customString line)
              100 start finish) }

def pushRuleMatches (engine : Engine) (text : Text) (state : CustomMatches)
    (compiled : CompiledRule) : CustomMatches :=
  (engine.findIter compiled.pattern text).foldl
    (pushCustomStringFinding text compiled.rule) state

def matchedRules (engine : Engine) (text : Text)
    (compiled : CompiledRuleSet) : List CompiledRule :=
  match compiled.set with
  | none => compiled.rules
  | some set =>
      (engine.setMatches set text).filterMap fun index =>
        compiled.rules[index]?

/-- The rules that are searched for, in the order of the policy. -/
def candidateRules (engine : Engine) (text : Text)
    (compiled : CompiledCustomStrings) : List CompiledRule :=
  (matchedRules engine text compiled.exact ++
      matchedRules engine text compiled.contains ++
      compiled.regex).insertionSort
    fun left right => left.index ≤ right.index

def detectCustomStrings (engine : Engine) (text : Text)
    (compiled : CompiledCustomStrings) : List Finding :=
  let state :=
    (candidateRules engine text compiled).foldl (pushRuleMatches engine text)
      {}
  state.findings ++ state.lineMatches.toList.map Prod.snd

/-- One finding for every range of a file of the policy. -/
def detectCustomFiles (text : Text) (ranges : List RedactableRange)
    (paths : List Text) : List Finding :=
  ranges.filterMap fun range =>
    match range.filePath with
    | none => none
    | some filePath =>
        if filePath ∈ paths then
          some
            (ruleFinding .customFile (slice text range.start range.finish)
              (lit "file:" ++ filePath) 100 range.start range.finish)
        else
          none

end Redactor
