import Redactor.Detect.Coverage
import Redactor.Detect.Custom

/-!
# The findings of the custom strings

Every match of a rule has a finding among the candidates.  The set of patterns
does not lose a rule that occurs in the text, and a line that is found again
keeps the finding that it has.
-/

namespace Redactor

open Utf8 Fallible

/-- The range that a match of a rule is to hide. -/
def customSpan (text : Text) (scope : CustomStringScope)
    (found : RegexMatch) : Nat × Nat :=
  match scope with
  | .text => (found.start, found.finish)
  | .line => (lineStart text found.start, lineEnd text found.finish)

/-- A compiled set has the patterns of its rules. -/
structure CompiledRuleSet.Matching (compiled : CompiledRuleSet) : Prop where
  patterns :
    ∀ set ∈ compiled.set, set = compiled.rules.map CompiledRule.pattern

theorem compileRuleSet_eq_ok {engine : Engine}
    {rules : List CustomStringRule} {matchType : CustomStringMatch}
    {compiled : CompiledRuleSet}
    (accepted : compileRuleSet engine rules matchType = .ok compiled) :
    (rulesOfType rules matchType).mapM
        (compileRule engine (lit "invalid pattern: ")) =
      .ok compiled.rules ∧ compiled.Matching := by
  obtain ⟨results, made, rest⟩ := bind_eq_ok.mp accepted
  by_cases none : results.isEmpty = true
  · simp only [none, if_true] at rest
    cases rest
    exact ⟨made, ⟨by simp⟩⟩
  · simp only [none] at rest
    cases refused :
        engine.compileSetError (results.map CompiledRule.pattern) with
    | none =>
        simp only [refused] at rest
        cases rest
        exact ⟨made, ⟨by simp⟩⟩
    | some message =>
        simp only [refused] at rest
        cases rest

instance lawfulEqCmp_lineRange : Std.LawfulEqCmp
    (compareLex (compareOn (Prod.fst : Nat × Nat → Nat))
      (compareOn Prod.snd)) where
  compare_self := Std.ReflCmp.compare_self
  eq_of_compare := by
    intro left right same
    simp only [compareLex, Ordering.then_eq_eq, compareOn,
      Nat.compare_eq_eq] at same
    exact Prod.ext same.1 same.2

/-- A finding with this range. -/
def IsCustomFinding (span : Nat × Nat) (finding : Finding) : Prop :=
  finding.kind = .customString ∧
    finding.start = span.1 ∧ finding.finish = span.2

namespace CustomMatches

def all (state : CustomMatches) : List Finding :=
  state.findings ++ state.lineMatches.toList.map Prod.snd

/-- The finding of a line has the range under which it is kept. -/
def Keyed (state : CustomMatches) : Prop :=
  ∀ span finding, state.lineMatches[span]? = some finding →
    IsCustomFinding span finding

theorem mem_all {state : CustomMatches} {finding : Finding} :
    finding ∈ state.all ↔
      finding ∈ state.findings ∨
      ∃ span : Nat × Nat, state.lineMatches[span]? = some finding := by
  simp only [all, List.mem_append, List.mem_map]
  apply or_congr_right
  constructor
  · intro present
    obtain ⟨entry, member, value⟩ := present
    have here := Std.TreeMap.mem_toList_iff_getElem?_eq_some.mp member
    exact ⟨entry.1, by rw [← value]; exact here⟩
  · intro present
    obtain ⟨span, here⟩ := present
    exact ⟨(span, finding),
      Std.TreeMap.mem_toList_iff_getElem?_eq_some.mpr here, rfl⟩

end CustomMatches

variable {text : Text} {rule : CustomStringRule} {state : CustomMatches}

/-- The line of a match is kept under its range unless it is there already. -/
theorem pushCustomStringFinding_line {found : RegexMatch}
    (scope : rule.scope = .line) (span : Nat × Nat) :
    (pushCustomStringFinding text rule state found).lineMatches[span]? =
      if customSpan text .line found = span ∧
          ¬ customSpan text .line found ∈ state.lineMatches then
        some
          (ruleFinding .customString (slice text span.1 span.2)
            (normalize .customString (slice text span.1 span.2)) 100
            span.1 span.2)
      else
        state.lineMatches[span]? := by
  unfold pushCustomStringFinding
  simp only [scope, Std.TreeMap.getElem?_insertIfNew, customSpan,
    Std.LawfulEqCmp.compare_eq_iff_eq]
  by_cases here :
      (lineStart text found.start, lineEnd text found.finish) = span
  · simp [← here]
  · simp [here]

/-- Only the finding of the match is added. -/
theorem all_of_mem_push {found : RegexMatch} {finding : Finding}
    (present :
      finding ∈ (pushCustomStringFinding text rule state found).all) :
    finding ∈ state.all ∨
      ∃ normalizedKey,
        finding =
          ruleFinding .customString
            (slice text (customSpan text rule.scope found).1
              (customSpan text rule.scope found).2)
            normalizedKey 100 (customSpan text rule.scope found).1
            (customSpan text rule.scope found).2 := by
  rw [CustomMatches.mem_all] at present ⊢
  cases scope : rule.scope with
  | text =>
      simp only [pushCustomStringFinding, scope, List.mem_append,
        List.mem_singleton] at present
      rcases present with (earlier | new) | kept
      · exact Or.inl (Or.inl earlier)
      · exact Or.inr ⟨_, new⟩
      · exact Or.inl (Or.inr kept)
  | line =>
      rcases present with listed | kept
      · left
        left
        simpa only [pushCustomStringFinding, scope] using listed
      · obtain ⟨span, here⟩ := kept
        rw [pushCustomStringFinding_line scope] at here
        split at here
        · rename_i fresh
          cases here
          exact Or.inr ⟨_, by rw [fresh.1]⟩
        · exact Or.inl (Or.inr ⟨span, here⟩)

end Redactor
