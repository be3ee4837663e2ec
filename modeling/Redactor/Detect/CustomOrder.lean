import Mathlib.Data.List.Dedup
import Redactor.Detect.CustomCoverage

/-!
# Custom strings rule by rule

The plain path searches for every rule in the order of the policy.  The rules
are kept in three groups instead, two of which are asked for their matches
before anything is searched for.  Both find the same, in the same order.
-/

namespace Redactor

open Utf8 Fallible

/-- All matches of all rules, rule by rule. -/
def ruleHits (engine : Engine) (text : Text)
    (rules : List CustomStringRule) : List (CustomStringRule × RegexMatch) :=
  rules.flatMap fun rule =>
    (engine.findIter (rule.compiledPattern engine) text).map (rule, ·)

/-- The finding of a match that is hidden by itself. -/
def textFinding (text : Text) (hit : CustomStringRule × RegexMatch) :
    Option Finding :=
  match hit.1.scope with
  | .text =>
      some
        (ruleFinding .customString (hit.2.asText text)
          (normalize .customString hit.1.pattern) 100 hit.2.start
          hit.2.finish)
  | .line => none

/-- The span of the line of a match that is hidden with its line. -/
def lineSpan (text : Text) (hit : CustomStringRule × RegexMatch) :
    Option (Nat × Nat) :=
  match hit.1.scope with
  | .text => none
  | .line => some (customSpan text .line hit.2)

def lineFinding (text : Text) (span : Nat × Nat) : Finding :=
  ruleFinding .customString (slice text span.1 span.2)
    (normalize .customString (slice text span.1 span.2)) 100 span.1 span.2

/-- The order of spans: by the start, then by the end. -/
def SpanPrecedes (left right : Nat × Nat) : Prop :=
  left.1 < right.1 ∨ left.1 = right.1 ∧ left.2 ≤ right.2

instance : DecidableRel SpanPrecedes :=
  fun left right =>
    inferInstanceAs
      (Decidable (left.1 < right.1 ∨ left.1 = right.1 ∧ left.2 ≤ right.2))

/-- Every rule in its turn: the matches of the text in this order, then one
finding for each line. -/
def plainCustomStrings (engine : Engine) (text : Text)
    (rules : List CustomStringRule) : List Finding :=
  let hits := ruleHits engine text rules
  hits.filterMap (textFinding text) ++
    ((hits.filterMap (lineSpan text)).dedup.insertionSort SpanPrecedes).map
      (lineFinding text)

section Hits

variable {text : Text}

def pushHit (text : Text) (state : CustomMatches)
    (hit : CustomStringRule × RegexMatch) : CustomMatches :=
  pushCustomStringFinding text hit.1 state hit.2

theorem findings_foldl_pushHit {state : CustomMatches}
    (hits : List (CustomStringRule × RegexMatch)) :
    (hits.foldl (pushHit text) state).findings =
      state.findings ++ hits.filterMap (textFinding text) := by
  induction hits generalizing state with
  | nil =>
      exact (List.append_nil _).symm
  | cons hit hits inductionHypothesis =>
      rw [List.foldl_cons, inductionHypothesis, List.filterMap_cons, pushHit,
        pushCustomStringFinding, textFinding]
      cases hit.1.scope with
      | text =>
          exact List.append_assoc _ _ _
      | line =>
          rfl

/-- The map has a finding for exactly these lines. -/
def HasLines (text : Text) (lines : LineMatches) (spans : List (Nat × Nat)) :
    Prop :=
  ∀ (span : Nat × Nat) (finding : Finding),
    lines[span]? = some finding ↔
      span ∈ spans ∧ lineFinding text span = finding

theorem HasLines.mem_iff {lines : LineMatches} {spans : List (Nat × Nat)}
    (has : HasLines text lines spans) (span : Nat × Nat) :
    span ∈ lines ↔ span ∈ spans := by
  rw [Std.TreeMap.mem_iff_isSome_getElem?, Option.isSome_iff_exists]
  constructor
  · rintro ⟨finding, found⟩
    exact ((has span finding).mp found).1
  · intro listed
    exact ⟨_, (has span _).mpr ⟨listed, rfl⟩⟩

theorem hasLines_pushHit {state : CustomMatches} {spans : List (Nat × Nat)}
    (has : HasLines text state.lineMatches spans)
    (hit : CustomStringRule × RegexMatch) :
    HasLines text (pushHit text state hit).lineMatches
      (spans ++ (lineSpan text hit).toList) := by
  intro span finding
  cases scope : hit.1.scope with
  | text =>
      simp only [pushHit, pushCustomStringFinding, lineSpan, scope,
        Option.toList_none, List.append_nil]
      exact has span finding
  | line =>
      have member := has.mem_iff (customSpan text .line hit.2)
      rw [pushHit, pushCustomStringFinding_line scope, lineSpan, scope]
      simp only [Option.toList_some, List.mem_append, List.mem_singleton]
      by_cases here : customSpan text .line hit.2 = span
      · subst here
        by_cases old : customSpan text .line hit.2 ∈ spans
        · rw [if_neg (fun new => new.2 (member.mpr old)), has,
            or_iff_left_of_imp fun _ => old]
        · have unknown :
              ¬ customSpan text .line hit.2 ∈ state.lineMatches :=
            fun known => old (member.mp known)
          rw [if_pos ⟨rfl, unknown⟩, Option.some_inj,
            and_iff_right (Or.inr rfl)]
          rfl
      · have other : span ≠ customSpan text .line hit.2 := Ne.symm here
        rw [if_neg (fun new => here new.1), has, or_iff_left other]

theorem hasLines_foldl_pushHit {state : CustomMatches}
    {spans : List (Nat × Nat)}
    (has : HasLines text state.lineMatches spans)
    (hits : List (CustomStringRule × RegexMatch)) :
    HasLines text (hits.foldl (pushHit text) state).lineMatches
      (spans ++ hits.filterMap (lineSpan text)) := by
  induction hits generalizing state spans with
  | nil =>
      rw [List.filterMap_nil, List.append_nil]
      exact has
  | cons hit hits inductionHypothesis =>
      have later := inductionHypothesis (hasLines_pushHit has hit)
      rw [List.append_assoc] at later
      rw [List.foldl_cons, List.filterMap_cons]
      cases span : lineSpan text hit <;> rw [span] at later <;> exact later

instance : Std.Total SpanPrecedes where
  total := by
    intro left right
    simp only [SpanPrecedes]
    omega

instance : IsTrans (Nat × Nat) SpanPrecedes where
  trans := by
    intro first second third
    simp only [SpanPrecedes]
    omega

theorem SpanPrecedes.antisymm {left right : Nat × Nat}
    (forward : SpanPrecedes left right) (backward : SpanPrecedes right left) :
    left = right := by
  unfold SpanPrecedes at forward backward
  apply Prod.ext <;> omega

/-- The findings of the lines come in the order of the spans. -/
theorem findings_of_hasLines {lines : LineMatches}
    {spans : List (Nat × Nat)} (has : HasLines text lines spans) :
    lines.toList.map Prod.snd =
      (spans.dedup.insertionSort SpanPrecedes).map (lineFinding text) := by
  have ofKeys :
      lines.toList.map Prod.snd = lines.keys.map (lineFinding text) := by
    rw [← Std.TreeMap.map_fst_toList_eq_keys, List.map_map]
    apply List.map_congr_left
    intro entry listed
    have found := Std.TreeMap.mem_toList_iff_getElem?_eq_some.mp listed
    exact ((has _ _).mp found).2.symm
  have sortedKeys : lines.keys.Pairwise SpanPrecedes := by
    apply Std.TreeMap.ordered_keys.imp
    intro left right less
    simp only [compareLex, compareOn, Ordering.then_eq_lt,
      Nat.compare_eq_lt, Nat.compare_eq_eq] at less
    exact less.imp_right (And.imp_right Nat.le_of_lt)
  have sameKeys :
      lines.keys.Perm (spans.dedup.insertionSort SpanPrecedes) := by
    refine List.Perm.trans ?_ (List.perm_insertionSort _ _).symm
    apply (List.perm_ext_iff_of_nodup Std.TreeMap.nodup_keys
      (List.nodup_dedup _)).mpr
    intro span
    rw [Std.TreeMap.mem_keys, has.mem_iff, List.mem_dedup]
  rw [ofKeys, sameKeys.eq_of_pairwise
    (fun _ _ _ _ => SpanPrecedes.antisymm) sortedKeys
    (List.pairwise_insertionSort _ _)]

theorem foldl_pushHit (hits : List (CustomStringRule × RegexMatch)) :
    let state := hits.foldl (pushHit text) {}
    state.findings ++ state.lineMatches.toList.map Prod.snd =
      hits.filterMap (textFinding text) ++
        ((hits.filterMap (lineSpan text)).dedup.insertionSort
          SpanPrecedes).map (lineFinding text) := by
  have none : HasLines text (∅ : LineMatches) [] := by
    intro span finding
    simp
  have lines := @hasLines_foldl_pushHit text {} [] none hits
  exact congrArg₂ (· ++ ·) (findings_foldl_pushHit hits)
    (findings_of_hasLines lines)

end Hits

section Rules

variable {engine : Engine} {text : Text} {rules : List CustomStringRule}

/-- What a rule of the list is compiled to. -/
def compiledRule (engine : Engine) (numbered : CustomStringRule × Nat) :
    CompiledRule where
  index := numbered.2
  rule := numbered.1
  pattern := numbered.1.compiledPattern engine

def compiledRules (engine : Engine) (rules : List CustomStringRule) :
    List CompiledRule :=
  rules.zipIdx.map (compiledRule engine)

/-- Whether the rule occurs in the text. -/
def CompiledRule.occurs (engine : Engine) (text : Text)
    (compiled : CompiledRule) : Bool :=
  !(engine.findIter compiled.pattern text).isEmpty

def CompiledRule.ofType (matchType : CustomStringMatch)
    (compiled : CompiledRule) : Bool :=
  compiled.rule.matchType = matchType

theorem compileRule_ok_eq {complaint : Text}
    {numbered : CustomStringRule × Nat} {compiled : CompiledRule}
    (accepted : compileRule engine complaint numbered = .ok compiled) :
    compiled = compiledRule engine numbered := by
  unfold compileRule at accepted
  cases refused :
      engine.compileError (numbered.1.compiledPattern engine) with
  | none =>
      simp only [refused] at accepted
      cases accepted
      rfl
  | some message =>
      simp only [refused] at accepted
      cases accepted

theorem compiled_of_type {complaint : Text} {matchType : CustomStringMatch}
    {results : List CompiledRule}
    (accepted :
      (rulesOfType rules matchType).mapM (compileRule engine complaint) =
        .ok results) :
    results = (compiledRules engine rules).filter
      (CompiledRule.ofType matchType) := by
  rw [eq_map_of_mapM_eq_ok (fun _ _ => compileRule_ok_eq) accepted,
    compiledRules, List.filter_map]
  rfl

/-- Taking the items at the indices of those that pass a test. -/
theorem filterMap_getElem?_filter_range {α : Type} (items : List α)
    (test : Nat → Bool) (passes : α → Bool)
    (agree : ∀ index item, items[index]? = some item →
      test index = passes item) :
    ((List.range items.length).filter test).filterMap
        (fun index => items[index]?) =
      items.filter passes := by
  induction items generalizing test with
  | nil =>
      rfl
  | cons head tail inductionHypothesis =>
      have rest := inductionHypothesis (test ∘ Nat.succ)
        (fun index item found => agree (index + 1) item found)
      have later :
          (((List.range tail.length).map Nat.succ).filter test).filterMap
              (fun index => (head :: tail)[index]?) =
            tail.filter passes := by
        rw [List.filter_map, List.filterMap_map]
        exact rest
      rw [List.length_cons, List.range_succ_eq_map, List.filter_cons,
        List.filter_cons, agree 0 head rfl]
      split
      · exact congrArg (List.cons head) later
      · exact later

/-- The set reports the rules that occur, in their order. -/
theorem matchedRules_eq {compiled : CompiledRuleSet}
    (matching : compiled.Matching)
    (empty : compiled.set = none → compiled.rules = []) :
    matchedRules engine text compiled =
      compiled.rules.filter (CompiledRule.occurs engine text) := by
  unfold matchedRules
  cases given : compiled.set with
  | none =>
      rw [empty given]
      rfl
  | some set =>
      have patterns := matching.patterns set given
      simp only [engine.setMatches_eq, patterns, List.length_map]
      apply filterMap_getElem?_filter_range
      intro index rule found
      rw [List.getD_eq_getElem?_getD, List.getElem?_map, found]
      rfl

theorem compileRuleSet_empty {matchType : CustomStringMatch}
    {compiled : CompiledRuleSet}
    (accepted : compileRuleSet engine rules matchType = .ok compiled)
    (empty : compiled.set = none) : compiled.rules = [] := by
  obtain ⟨results, _, rest⟩ := bind_eq_ok.mp accepted
  by_cases none : results.isEmpty = true
  · simp only [none, if_true] at rest
    cases rest
    exact List.isEmpty_iff.mp none
  · simp only [none] at rest
    cases refused :
        engine.compileSetError (results.map CompiledRule.pattern) with
    | none =>
        simp only [refused] at rest
        cases rest
        cases empty
    | some message =>
        simp only [refused] at rest
        cases rest

/-- The rules of a group that are searched for. -/
theorem matchedRules_of_type {matchType : CustomStringMatch}
    {compiled : CompiledRuleSet}
    (accepted : compileRuleSet engine rules matchType = .ok compiled) :
    matchedRules engine text compiled =
      ((compiledRules engine rules).filter
        (CompiledRule.ofType matchType)).filter
          (CompiledRule.occurs engine text) := by
  obtain ⟨made, matching⟩ := compileRuleSet_eq_ok accepted
  rw [matchedRules_eq matching (compileRuleSet_empty accepted),
    compiled_of_type made]

/-- The groups together are all rules. -/
theorem perm_filter_types (compiled : List CompiledRule) :
    (compiled.filter (CompiledRule.ofType .exact) ++
        compiled.filter (CompiledRule.ofType .contains) ++
        compiled.filter (CompiledRule.ofType .regex)).Perm compiled := by
  induction compiled with
  | nil =>
      exact List.Perm.refl []
  | cons rule compiled inductionHypothesis =>
      cases type : rule.rule.matchType with
      | exact =>
          simp only [List.filter_cons, CompiledRule.ofType, type]
          exact inductionHypothesis.cons rule
      | contains =>
          simp only [List.filter_cons, CompiledRule.ofType, type]
          refine List.Perm.trans ?_ (inductionHypothesis.cons rule)
          exact List.perm_middle.append_right _
      | regex =>
          simp only [List.filter_cons, CompiledRule.ofType, type]
          exact List.perm_middle.trans (inductionHypothesis.cons rule)

/-- The rules that may not be left out. -/
def CompiledRule.searched (engine : Engine) (text : Text)
    (compiled : CompiledRule) : Bool :=
  compiled.ofType .regex || compiled.occurs engine text

theorem filter_searched {matchType : CustomStringMatch}
    (other : matchType ≠ .regex) (compiled : List CompiledRule) :
    (compiled.filter (CompiledRule.searched engine text)).filter
        (CompiledRule.ofType matchType) =
      (compiled.filter (CompiledRule.ofType matchType)).filter
        (CompiledRule.occurs engine text) := by
  rw [List.filter_filter, List.filter_filter]
  apply List.filter_congr
  intro rule _
  by_cases typed : rule.rule.matchType = matchType
  · have notRegex : rule.ofType .regex = false := by
      rw [CompiledRule.ofType, typed]
      exact decide_eq_false other
    rw [CompiledRule.searched, notRegex, Bool.false_or, Bool.and_comm]
  · have notTyped : rule.ofType matchType = false := decide_eq_false typed
    rw [notTyped, Bool.false_and, Bool.and_false]

theorem filter_searched_regex (compiled : List CompiledRule) :
    (compiled.filter (CompiledRule.searched engine text)).filter
        (CompiledRule.ofType .regex) =
      compiled.filter (CompiledRule.ofType .regex) := by
  rw [List.filter_filter]
  apply List.filter_congr
  intro rule _
  rw [CompiledRule.searched]
  cases rule.ofType .regex <;> rfl

theorem pairwise_compiledRules :
    (compiledRules engine rules).Pairwise
      fun left right => left.index < right.index := by
  have indices :
      (compiledRules engine rules).map CompiledRule.index =
        List.range' 0 rules.length := by
    rw [compiledRules, List.map_map]
    exact List.zipIdx_map_snd 0 rules
  have increasing : (List.range' 0 rules.length).Pairwise (· < ·) :=
    List.pairwise_lt_range'
  rw [← indices] at increasing
  exact List.pairwise_map.mp increasing

/-- Sorting by index brings the rules that are searched for back into the order
of the policy. -/
theorem candidateRules_eq {compiled : CompiledCustomStrings}
    (accepted : CompiledCustomStrings.new engine rules = .ok compiled) :
    candidateRules engine text compiled =
      (compiledRules engine rules).filter
        (CompiledRule.searched engine text) := by
  obtain ⟨exact, exactMade, afterExact⟩ := bind_eq_ok.mp accepted
  obtain ⟨contains, containsMade, afterContains⟩ := bind_eq_ok.mp afterExact
  obtain ⟨regex, regexMade, last⟩ := bind_eq_ok.mp afterContains
  cases last
  have increasing :=
    (@pairwise_compiledRules engine rules).filter
      (CompiledRule.searched engine text)
  have permuted :=
    perm_filter_types
      ((compiledRules engine rules).filter
        (CompiledRule.searched engine text))
  rw [filter_searched (by decide), filter_searched (by decide),
    filter_searched_regex, ← matchedRules_of_type exactMade,
    ← matchedRules_of_type containsMade, ← compiled_of_type regexMade]
    at permuted
  have sorted := (List.perm_insertionSort
    (fun left right : CompiledRule => left.index ≤ right.index) _).trans
      permuted
  apply sorted.eq_of_pairwise
  · intro left right leftListed rightListed forward backward
    have distinct := List.pairwise_map.mpr (increasing.imp Nat.ne_of_lt)
    exact List.inj_on_of_nodup_map distinct (sorted.mem_iff.mp leftListed)
      rightListed (Nat.le_antisymm forward backward)
  · exact List.pairwise_insertionSort _ _
  · exact increasing.imp Nat.le_of_lt

/-! ## The fast path -/

/-- Leaving out items that have no part leaves the parts as they are. -/
theorem flatMap_filter_of_nil {α β : Type} {test : α → Bool}
    {parts : α → List β} (none : ∀ item, test item = false → parts item = [])
    (items : List α) :
    (items.filter test).flatMap parts = items.flatMap parts := by
  induction items with
  | nil =>
      rfl
  | cons head tail inductionHypothesis =>
      rw [List.filter_cons, List.flatMap_cons]
      split
      · rw [List.flatMap_cons, inductionHypothesis]
      · rename_i left
        rw [none head (Bool.eq_false_iff.mpr left), inductionHypothesis,
          List.nil_append]

/-- The matches of a compiled rule. -/
def CompiledRule.hits (engine : Engine) (text : Text)
    (compiled : CompiledRule) : List (CustomStringRule × RegexMatch) :=
  (engine.findIter compiled.pattern text).map (compiled.rule, ·)

theorem hits_compiledRules :
    (compiledRules engine rules).flatMap (CompiledRule.hits engine text) =
      ruleHits engine text rules := by
  have named :
      rules.zipIdx.map (fun numbered => numbered.1) = rules :=
    List.zipIdx_map_fst 0 rules
  rw [compiledRules, List.flatMap_map, ruleHits]
  conv_rhs => rw [← named, List.flatMap_map]
  rfl

/-- The rules that are left out have no matches. -/
theorem hits_candidateRules {compiled : CompiledCustomStrings}
    (accepted : CompiledCustomStrings.new engine rules = .ok compiled) :
    (candidateRules engine text compiled).flatMap
        (CompiledRule.hits engine text) =
      ruleHits engine text rules := by
  rw [candidateRules_eq accepted, flatMap_filter_of_nil, hits_compiledRules]
  intro rule left
  rw [CompiledRule.searched, Bool.or_eq_false_iff] at left
  have absent : engine.findIter rule.pattern text = [] := by
    simpa [CompiledRule.occurs] using left.2
  rw [CompiledRule.hits, absent, List.map_nil]

theorem detectCustomStrings_eq_foldl (compiled : CompiledCustomStrings) :
    detectCustomStrings engine text compiled =
      let state :=
        ((candidateRules engine text compiled).flatMap
          (CompiledRule.hits engine text)).foldl (pushHit text) {}
      state.findings ++ state.lineMatches.toList.map Prod.snd := by
  have rounds :
      (candidateRules engine text compiled).foldl
          (pushRuleMatches engine text) {} =
        ((candidateRules engine text compiled).flatMap
          (CompiledRule.hits engine text)).foldl (pushHit text) {} := by
    rw [List.foldl_flatMap]
    simp only [CompiledRule.hits, List.foldl_map]
    rfl
  rw [detectCustomStrings, rounds]

/-- The three groups with their sets find what the rules find one by one. -/
theorem detectCustomStrings_eq_plain (engine : Engine)
    (rules : List CustomStringRule) (compiled : CompiledCustomStrings)
    (accepted : CompiledCustomStrings.new engine rules = .ok compiled)
    (text : Text) :
    detectCustomStrings engine text compiled =
      plainCustomStrings engine text rules := by
  rw [detectCustomStrings_eq_foldl, hits_candidateRules accepted]
  exact foldl_pushHit (ruleHits engine text rules)

end Rules

def sampleMixedRules : List CustomStringRule :=
  [{ pattern := lit "secret", matchType := .regex, scope := .line },
    { pattern := lit "secret", matchType := .contains, scope := .text },
    { pattern := lit "secret", matchType := .exact, scope := .text }]

theorem detectCustomStrings_eq_plain_mixed :
    ∃ compiled,
      CompiledCustomStrings.new sampleLineEnvironment.engine
          sampleMixedRules = .ok compiled ∧
      (candidateRules sampleLineEnvironment.engine sampleLine compiled).map
          CompiledRule.index = [0, 2] ∧
      detectCustomStrings sampleLineEnvironment.engine sampleLine compiled =
        plainCustomStrings sampleLineEnvironment.engine sampleLine
          sampleMixedRules :=
  ⟨_, rfl, by decide +kernel,
    detectCustomStrings_eq_plain sampleLineEnvironment.engine sampleMixedRules
      _ rfl sampleLine⟩

end Redactor
