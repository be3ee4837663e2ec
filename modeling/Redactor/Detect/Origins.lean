import Redactor.Detect.CustomStrings
import Redactor.Detect.Policy
import Redactor.Library.Slices

/-!
# Where the candidates come from

Every candidate is a match of a pattern, an address around its separator, a
phone number in a segment, the value of an assignment, or a secret that occurs
again.  What holds of each of these holds of all candidates.
-/

namespace Redactor

open Utf8 Fallible

/-- The patterns whose matches are findings, with what they find. -/
def builtinPatterns : List (Text × FindingKind × Nat) :=
  [(urlPattern, .url, 96), (cidrPattern, .cidr, 94), (ipPattern, .ip, 90),
    (domainPattern, .domain, 76)]

/-- The characters of which a phone number may consist. -/
def isPhoneCharacter (head : Char) : Bool :=
  isAsciiDigit head || head == '+' || head == ' ' || head == '\t' ||
    head == '(' || head == ')' || head == '.' || head == '-'

/-- A detector of the rules finds this in the text. -/
inductive BuiltinOrigin (engine : Engine) (text : Text) : Finding → Prop
  | pattern (pattern : Text) (kind : FindingKind) (confidence : Nat)
      (found : RegexMatch) :
      (pattern, kind, confidence) ∈ builtinPatterns →
      found ∈ engine.findIter pattern text →
      BuiltinOrigin engine text
        (ruleFinding kind (found.asText text)
          (normalize kind (found.asText text)) confidence found.start
          found.finish)
  | secret (found : RegexMatch) :
      found ∈ engine.findIter secretPattern text →
      looksLikeSecret (found.asText text) = true →
      BuiltinOrigin engine text
        (ruleFinding .secret (found.asText text)
          (normalize .secret (found.asText text)) 92 found.start
          found.finish)
  | email (before after : Text) (finding : Finding) :
      text = before ++ '@' :: after →
      emailAround engine text (byteLen before) '@' = some finding →
      BuiltinOrigin engine text finding
  | phone (before segment after : Text) (finding : Finding) :
      text = before ++ (segment ++ after) →
      segment.all isPhoneCharacter = true →
      phoneIn text (byteLen before) (byteLen before + byteLen segment) =
        some finding →
      BuiltinOrigin engine text finding
  | assignment (rules : RedactionRules) (before : List Text) (line : Text)
      (after : List Text) (captures : Text → Option RegexMatch)
      (finding : Finding) :
      splitInclusive '\n' text = before ++ line :: after →
      captures ∈ engine.capturesIter assignmentPattern line →
      assignmentFinding engine rules (byteLen before.flatten) line captures =
        some finding →
      BuiltinOrigin engine text finding
  | repeated (secret : Finding) (start : Nat) :
      BuiltinOrigin engine text secret →
      secret.kind = .secret →
      start ∈ matchIndices text secret.matchText →
      BuiltinOrigin engine text
        (ruleFinding .secret secret.matchText secret.normalizedKey 95 start
          (start + byteLen secret.matchText))

section Builtin

variable {engine : Engine} {text : Text}

theorem mem_detectPattern {pattern : Text} {kind : FindingKind}
    {confidence : Nat} {validator : Text → Bool} {finding : Finding}
    (member :
      finding ∈ detectPattern engine text pattern kind confidence
        validator) :
    ∃ found ∈ engine.findIter pattern text,
      validator (found.asText text) = true ∧
      finding =
        ruleFinding kind (found.asText text)
          (normalize kind (found.asText text)) confidence found.start
          found.finish := by
  obtain ⟨found, occurs, given⟩ := List.mem_filterMap.mp member
  simp only [Option.ite_none_right_eq_some, Option.some.injEq] at given
  exact ⟨found, occurs, given.1, given.2.symm⟩

theorem origin_detectPattern {pattern : Text} {kind : FindingKind}
    {confidence : Nat} (listed : (pattern, kind, confidence) ∈ builtinPatterns)
    {validator : Text → Bool} {finding : Finding}
    (member :
      finding ∈ detectPattern engine text pattern kind confidence
        validator) :
    BuiltinOrigin engine text finding := by
  obtain ⟨found, occurs, _, shape⟩ := mem_detectPattern member
  rw [shape]
  exact .pattern pattern kind confidence found listed occurs

theorem origin_detectSecrets {finding : Finding}
    (member :
      finding ∈ detectPattern engine text secretPattern .secret 92
        looksLikeSecret) :
    BuiltinOrigin engine text finding := by
  obtain ⟨found, occurs, looks, shape⟩ := mem_detectPattern member
  rw [shape]
  exact .secret found occurs looks

theorem origin_detectDomains {finding : Finding}
    (member : finding ∈ detectDomains engine text) :
    BuiltinOrigin engine text finding := by
  obtain ⟨found, occurs, given⟩ := List.mem_filterMap.mp member
  simp only [Option.ite_none_right_eq_some, Option.some.injEq] at given
  rw [← given.2]
  exact .pattern domainPattern .domain 76 found
    (by simp [builtinPatterns]) occurs

/-- Addresses are found around the separators of the text. -/
theorem mem_detectEmails {finding : Finding} :
    finding ∈ detectEmails engine text ↔
      ∃ before after, text = before ++ '@' :: after ∧
        emailAround engine text (byteLen before) '@' = some finding := by
  constructor
  · intro member
    obtain ⟨⟨index, head⟩, listed, given⟩ := List.mem_filterMap.mp member
    obtain ⟨isSeparator, around⟩ := Option.ite_none_right_eq_some.mp given
    obtain ⟨before, after, shape, size⟩ := mem_charIndices listed
    have same : head = '@' := beq_iff_eq.mp isSeparator
    rw [same] at shape around
    exact ⟨before, after, shape, by rw [size]; exact around⟩
  · rintro ⟨before, after, shape, around⟩
    apply List.mem_filterMap.mpr
    refine ⟨(byteLen before, '@'), ?_, ?_⟩
    · have listed := mem_charIndicesFrom_append 0 before '@' after
      rw [Nat.zero_add, ← shape] at listed
      exact listed
    · simpa using around

theorem origin_detectEmails {finding : Finding}
    (member : finding ∈ detectEmails engine text) :
    BuiltinOrigin engine text finding := by
  obtain ⟨before, after, shape, around⟩ := mem_detectEmails.mp member
  exact .email before after finding shape around

/-- The segment ends where the remaining characters begin. -/
theorem phoneSegment_rest (first : Bool) (before text : Text) :
    ∃ segment after, text = segment ++ after ∧
      segment.all isPhoneCharacter = true ∧
      (phoneSegment first (charIndicesFrom (byteLen before) text)).2 =
        charIndicesFrom (byteLen (before ++ segment)) after := by
  induction text generalizing first before with
  | nil =>
      exact ⟨[], [], rfl, rfl, rfl⟩
  | cons head tail inductionHypothesis =>
      obtain ⟨segment, after, shape, phone, rest⟩ :=
        inductionHypothesis false (before ++ [head])
      have atTail :
          byteLen before + head.utf8Size = byteLen (before ++ [head]) := by
        simp
      simp only [charIndicesFrom, phoneSegment, atTail]
      have longer :
          byteLen (before ++ [head] ++ segment) =
            byteLen (before ++ head :: segment) := by
        simp
      rw [longer] at rest
      split
      · rename_i sign
        simp only [Bool.and_eq_true, beq_iff_eq] at sign
        exact ⟨head :: segment, after, by rw [shape]; rfl,
          by simp [isPhoneCharacter, sign.1, phone], rest⟩
      · split
        · rename_i digit
          exact ⟨head :: segment, after, by rw [shape]; rfl,
            by simp [isPhoneCharacter, digit, phone], rest⟩
        · split
          · rename_i filler
            refine ⟨head :: segment, after, by rw [shape]; rfl, ?_, rest⟩
            simp only [List.all_cons, phone, Bool.and_true, isPhoneCharacter]
            simp only [Bool.or_eq_true] at filler ⊢
            tauto
          · exact ⟨[], head :: tail, rfl, rfl, by simp [charIndicesFrom]⟩

/-- The end of a segment: the offset of the next character, or the end of the
text. -/
theorem endByte_eq (before after : Text) :
    ((charIndicesFrom (byteLen before) after).head?.map Prod.fst).getD
        (byteLen (before ++ after)) =
      byteLen before := by
  cases after with
  | nil =>
      simp [charIndicesFrom]
  | cons head tail =>
      rfl

theorem origin_detectPhonesFrom {fuel : Nat} {before rest : Text}
    (shape : text = before ++ rest) :
    ∀ finding ∈
        detectPhonesFrom text fuel (charIndicesFrom (byteLen before) rest),
      BuiltinOrigin engine text finding := by
  induction fuel generalizing before rest with
  | zero =>
      simp [detectPhonesFrom]
  | succ fuel inductionHypothesis =>
      intro finding member
      cases rest with
      | nil =>
          simp [charIndicesFrom, detectPhonesFrom] at member
      | cons head tail =>
          have atTail :
              byteLen before + head.utf8Size = byteLen (before ++ [head]) := by
            simp
          simp only [charIndicesFrom, detectPhonesFrom] at member
          split at member
          · rw [atTail] at member
            exact inductionHypothesis (by rw [shape]; simp) finding member
          · obtain ⟨segment, after, cut, phone, left⟩ :=
              phoneSegment_rest true before (head :: tail)
            simp only [charIndicesFrom] at left
            rw [left] at member
            have whole : text = before ++ segment ++ after := by
              rw [shape, cut, List.append_assoc]
            rcases List.mem_append.mp member with here | later
            · rw [Option.mem_toList] at here
              have inSegment := (Option.ite_none_right_eq_some.mp here).2
              rw [whole, endByte_eq, ← whole, byteLen_append] at inSegment
              exact .phone before segment after finding
                (by rw [whole, List.append_assoc]) phone inSegment
            · exact inductionHypothesis whole finding later

theorem origin_detectPhones {finding : Finding}
    (member : finding ∈ detectPhones text) :
    BuiltinOrigin engine text finding :=
  @origin_detectPhonesFrom engine text text.length [] text rfl finding member

theorem origin_contextualAssignmentsFrom {rules : RedactionRules}
    {before lines : List Text}
    (cut : splitInclusive '\n' text = before ++ lines) :
    ∀ finding ∈
        contextualAssignmentsFrom engine rules (byteLen before.flatten) lines,
      BuiltinOrigin engine text finding := by
  induction lines generalizing before with
  | nil =>
      simp [contextualAssignmentsFrom]
  | cons line lines inductionHypothesis =>
      intro finding member
      unfold contextualAssignmentsFrom at member
      rcases List.mem_append.mp member with here | later
      · obtain ⟨captures, occurs, given⟩ := List.mem_filterMap.mp here
        exact .assignment rules before line lines captures finding cut occurs
          given
      · have next :
            byteLen before.flatten + byteLen line =
              byteLen (before ++ [line]).flatten := by
          simp
        rw [next] at later
        exact inductionHypothesis (by rw [cut]; simp) finding later

theorem origin_detectContextualAssignments {rules : RedactionRules} :
    ∀ finding ∈ detectContextualAssignments engine text rules,
      BuiltinOrigin engine text finding :=
  @origin_contextualAssignmentsFrom engine text rules []
    (splitInclusive '\n' text) rfl

theorem mem_repeatedSecrets {seen : List Text} {findings : List Finding}
    {secret : Text × Text} (listed : secret ∈ repeatedSecrets seen findings) :
    ∃ finding ∈ findings, finding.kind = .secret ∧
      secret = (finding.matchText, finding.normalizedKey) := by
  induction findings generalizing seen with
  | nil =>
      cases listed
  | cons first rest inductionHypothesis =>
      unfold repeatedSecrets at listed
      split at listed
      · rename_i fresh
        rcases List.mem_cons.mp listed with here | later
        · exact ⟨first, List.mem_cons_self, fresh.1, here⟩
        · obtain ⟨finding, member, isSecret⟩ := inductionHypothesis later
          exact ⟨finding, List.mem_cons_of_mem first member, isSecret⟩
      · obtain ⟨finding, member, isSecret⟩ := inductionHypothesis listed
        exact ⟨finding, List.mem_cons_of_mem first member, isSecret⟩

/-- The repetitions are occurrences of secrets among the findings. -/
theorem origin_propagate {findings : List Finding}
    (origins : ∀ finding ∈ findings, BuiltinOrigin engine text finding) :
    ∀ finding ∈ propagateRepeatedSecrets text findings,
      BuiltinOrigin engine text finding := by
  let invariant (progress : Propagation) : Prop :=
    ∀ finding ∈ progress.findings, BuiltinOrigin engine text finding
  apply foldl_mem_invariant invariant _ origins
  intro progress secret listed before
  obtain ⟨original, member, isSecret, shape⟩ := mem_repeatedSecrets listed
  apply foldl_mem_invariant invariant _ before
  intro progress start occurs before finding member'
  unfold Propagation.add at member'
  simp only at member'
  split at member'
  · exact before finding member'
  · rcases List.mem_append.mp member' with earlier | new
    · exact before finding earlier
    · rw [List.mem_singleton.mp new, shape]
      rw [shape] at occurs
      exact .repeated original start (origins original member) isSecret occurs

/-- Every finding of the detectors has its origin. -/
theorem origin_detectBuiltins {environment : Environment}
    {rules : RedactionRules} :
    ∀ finding ∈ detectBuiltins environment text rules,
      BuiltinOrigin environment.engine text finding := by
  intro finding member
  simp only [detectBuiltins, List.mem_append, List.mem_ite_nil_right] at member
  rcases member with
    (((((assigned | email) | url) | cidr) | ip) | phone) | domain
  · split at assigned
    · rcases List.mem_append.mp assigned with propagated | matching
      · exact origin_propagate origin_detectContextualAssignments finding
          propagated
      · exact origin_detectSecrets matching
    · exact origin_detectContextualAssignments finding assigned
  · exact origin_detectEmails email.2
  · exact origin_detectPattern (by simp [builtinPatterns]) url.2
  · exact origin_detectPattern (by simp [builtinPatterns]) cidr.2
  · exact origin_detectPattern (by simp [builtinPatterns]) ip.2
  · exact origin_detectPhones phone.2
  · exact origin_detectDomains domain.2

end Builtin

/-! ## Custom strings -/

/-- The finding of a match of a custom string, in its scope. -/
def customFinding (text : Text) (scope : CustomStringScope)
    (found : RegexMatch) (normalizedKey : Text) : Finding :=
  ruleFinding .customString
    (slice text (customSpan text scope found).1
      (customSpan text scope found).2)
    normalizedKey 100 (customSpan text scope found).1
    (customSpan text scope found).2

/-- Every finding of the custom strings is that of a match. -/
theorem origin_detectCustomStrings {engine : Engine} {text : Text}
    {compiled : CompiledCustomStrings} :
    ∀ finding ∈ detectCustomStrings engine text compiled,
      ∃ candidate ∈ candidateRules engine text compiled,
        ∃ found ∈ engine.findIter candidate.pattern text,
          ∃ normalizedKey,
            finding =
              customFinding text candidate.rule.scope found
                normalizedKey := by
  let invariant (state : CustomMatches) : Prop :=
    ∀ finding ∈ state.all,
      ∃ candidate ∈ candidateRules engine text compiled,
        ∃ found ∈ engine.findIter candidate.pattern text,
          ∃ normalizedKey,
            finding =
              customFinding text candidate.rule.scope found normalizedKey
  apply foldl_mem_invariant invariant
  · intro state candidate listed before
    apply foldl_mem_invariant invariant _ before
    intro state found occurs before finding member
    rcases all_of_mem_push member with earlier | new
    · exact before finding earlier
    · exact ⟨candidate, listed, found, occurs, new⟩
  · intro finding member
    simp [CustomMatches.all] at member

/-- A candidate is the finding of a whole range of a named file, or that of a
detector in a range of another file. -/
inductive CandidateOrigin (environment : Environment) (text : Text)
    (customStrings : CompiledCustomStrings) (customFiles : List Text)
    (ranges : List RedactableRange) : Finding → Prop
  | customFile (range : RedactableRange) (filePath : Text) :
      range ∈ ranges →
      range.filePath = some filePath →
      filePath ∈ customFiles →
      CandidateOrigin environment text customStrings customFiles ranges
        (ruleFinding .customFile (slice text range.start range.finish)
          (lit "file:" ++ filePath) 100 range.start range.finish)
  | builtin (range : RedactableRange) (finding : Finding) :
      range ∈ ranges →
      range.filePath.any (customFiles.contains ·) = false →
      BuiltinOrigin environment.engine
        (slice text range.start range.finish) finding →
      CandidateOrigin environment text customStrings customFiles ranges
        (finding.shift range.start)
  | customString (range : RedactableRange) (candidate : CompiledRule)
      (found : RegexMatch) (normalizedKey : Text) :
      range ∈ ranges →
      range.filePath.any (customFiles.contains ·) = false →
      candidate ∈
        candidateRules environment.engine
          (slice text range.start range.finish) customStrings →
      found ∈
        environment.engine.findIter candidate.pattern
          (slice text range.start range.finish) →
      CandidateOrigin environment text customStrings customFiles ranges
        ((customFinding (slice text range.start range.finish)
          candidate.rule.scope found normalizedKey).shift range.start)

theorem origin_policyCandidates {environment : Environment} {text : Text}
    {policy : RedactionPolicy} {customStrings : CompiledCustomStrings}
    {customFiles : List Text} {ranges : List RedactableRange} :
    ∀ finding ∈
        policyCandidates environment text policy customStrings customFiles
          ranges,
      CandidateOrigin environment text customStrings customFiles ranges
        finding := by
  intro finding member
  rcases mem_policyCandidates.mp member with ofFile | ⟨range, listed, inRange⟩
  · obtain ⟨range, listed, filePath, named, present, isFinding⟩ :=
      mem_detectCustomFiles.mp ofFile
    rw [isFinding]
    exact .customFile range filePath listed named present
  · obtain ⟨other, inner, detected, shifted⟩ :=
      mem_rangeCandidates.mp inRange
    rw [shifted]
    rcases detected with builtin | custom
    · exact .builtin range inner listed other
        (origin_detectBuiltins inner builtin)
    · obtain ⟨candidate, compiled, found, occurs, normalizedKey, shape⟩ :=
        origin_detectCustomStrings inner custom
      rw [shape]
      exact .customString range candidate found normalizedKey listed other
        compiled occurs

end Redactor
