import Redactor.Detect.Coverage
import Redactor.Detect.Placement

/-!
# Findings and line breaks

No detector of the rules finds a line break: a finding stands inside one line.
A file that the policy names is hidden range by range, and a range of a diff
ends with the line break of its line.
-/

namespace Redactor

open Utf8 Fallible

/-- The finding has something of one line. -/
structure Finding.InLine (finding : Finding) : Prop where
  visible : finding.matchText ≠ []
  unbroken : '\n' ∉ finding.matchText

/-- What the patterns of the rules match: something of one line. -/
def Engine.KeepsLines (engine : Engine) : Prop :=
  ∀ pattern kind confidence,
    (pattern, kind, confidence) ∈ builtinPatterns →
    ∀ text, ∀ found ∈ engine.findIter pattern text,
      found.asText text ≠ [] ∧ '\n' ∉ found.asText text

section Builtin

variable {engine : Engine} {text : Text}

theorem unbroken_of_all {accepted : Char → Bool} {part : Text}
    (all : part.all accepted = true) (refused : accepted '\n' = false) :
    '\n' ∉ part := by
  intro broken
  have accepts := List.all_eq_true.mp all '\n' broken
  rw [refused] at accepts
  cases accepts

theorem inLine_of_looksLikeSecret {value : Text}
    (looks : looksLikeSecret value = true) :
    value ≠ [] ∧ '\n' ∉ value := by
  unfold looksLikeSecret at looks
  split at looks
  · cases looks
  · rename_i length
    simp only [Bool.and_eq_true] at looks
    constructor
    · intro empty
      rw [empty] at length
      exact length (by decide)
    · exact unbroken_of_all looks.1.1.1 (by decide)

theorem isValidPhone_of_phoneIn {startByte endByte : Nat} {finding : Finding}
    (found : phoneIn text startByte endByte = some finding) :
    isValidPhone (trim (slice text startByte endByte)) = true := by
  unfold phoneIn at found
  exact (Option.ite_none_right_eq_some.mp found).1

/-- The detectors of the rules find something of one line. -/
theorem inLine_of_origin (keeps : engine.KeepsLines) {finding : Finding}
    (origin : BuiltinOrigin engine text finding) : finding.InLine := by
  induction origin with
  | pattern pattern kind confidence found listed occurs =>
      obtain ⟨visible, unbroken⟩ :=
        keeps pattern kind confidence listed text found occurs
      exact ⟨visible, unbroken⟩
  | secret found occurs looks =>
      obtain ⟨visible, unbroken⟩ := inLine_of_looksLikeSecret looks
      exact ⟨visible, unbroken⟩
  | email before after finding shape around =>
      rw [shape] at around
      obtain ⟨kept, localPart, rest, _, accepted, _, isFinding⟩ :=
        emailAround_eq_some around
      have left : '\n' ∉ localPart := unbroken_of_all accepted (by decide)
      have right : '\n' ∉ after.takeWhile isEmailDomain :=
        unbroken_of_all List.all_takeWhile (by decide)
      rw [isFinding]
      exact {
        visible := by simp [ruleFinding]
        unbroken := by simp [ruleFinding, left, right] }
  | phone before segment after finding shape phone inSegment =>
      have isSegment :
          slice text (byteLen before) (byteLen before + byteLen segment) =
            segment := by
        rw [shape]
        exact slice_middle before segment after
      have valid := isValidPhone_of_phoneIn inSegment
      have isFinding := phoneIn_eq_some inSegment
      rw [isSegment] at valid isFinding
      rw [isFinding]
      exact {
        visible := by
          intro empty
          simp only [ruleFinding] at empty
          rw [empty] at valid
          exact absurd valid (by decide)
        unbroken := by
          intro broken
          have whole := (trim_isInfix segment).subset broken
          exact unbroken_of_all phone (by decide) whole }
  | assignment rules before line after captures finding cut occurs given =>
      obtain ⟨kind, valueMatch, value, start, captured, isValue, visible, _,
          isFinding⟩ := assignmentFinding_eq_some given
      have inside :=
        engine.capturesIter_inside assignmentPattern line captures occurs
          (lit "value") valueMatch captured
      have part : valueMatch.asText line <:+: line := by
        obtain ⟨left, right, shape, _⟩ :=
          slice?_eq_some.mp (slice?_of_match inside)
        exact ⟨left, right, shape.symm⟩
      have ended : EndedAtMost '\n' line :=
        endedAtMost_of_mem_splitInclusive (by rw [cut]; simp)
      rw [isFinding]
      exact {
        visible := visible
        unbroken := by
          intro broken
          simp only [ruleFinding, isValue] at broken
          have trimmed := (trimWrapped_isInfix _).subset broken
          exact ended.not_mem_trim part (by decide) trimmed }
  | repeated secret start origin isSecret occurs inductionHypothesis =>
      exact ⟨inductionHypothesis.visible, inductionHypothesis.unbroken⟩

end Builtin

/-! ## The candidates of a diff -/

/-- The range is of a file that the policy names. -/
def RedactionPolicy.hides (policy : RedactionPolicy)
    (range : RedactableRange) : Bool :=
  range.filePath.any
    ((policy.customFiles.map CustomFileRule.path).contains ·)

/-- No line that the policy hides as part of a file has a line break: it can
only be the last one. -/
def RedactionPolicy.SparesBreaks (policy : RedactionPolicy)
    (text : Text) : Prop :=
  ∀ range ∈ gitDiffRedactableRanges text, policy.hides range = true →
    '\n' ∉ slice text range.start range.finish

/-- Of two ranges of a diff one ends before the other begins. -/
theorem apart_of_ne {text : Text} {left right : RedactableRange}
    (leftListed : left ∈ gitDiffRedactableRanges text)
    (rightListed : right ∈ gitDiffRedactableRanges text)
    (different : left ≠ right) :
    left.finish ≤ right.start ∨ right.finish ≤ left.start := by
  have symmetric :
      Std.Symm fun left right : RedactableRange =>
        left.finish ≤ right.start ∨ right.finish ≤ left.start :=
    ⟨fun _ _ separated => separated.symm⟩
  have separated :
      (gitDiffRedactableRanges text).Pairwise fun left right =>
        left.finish ≤ right.start ∨ right.finish ≤ left.start :=
    (gitDiff_collected text).follow.imp fun follows => Or.inl follows.2
  exact separated.forall leftListed rightListed different

section Diff

variable {environment : Environment} {policy : RedactionPolicy}
  {redactor : RedactorInstance} {text : Text} {sourcePath : Option Text}

/-- A candidate is a whole range of a named file, or something of one line in
a range of another file. -/
theorem candidate_cases
    (accepted : tryBuild environment.engine false policy = .ok redactor)
    (noStrings : policy.customStrings = [])
    (keeps : environment.engine.KeepsLines) {finding : Finding}
    (member :
      finding ∈ redactor.candidates environment text .gitDiff sourcePath) :
    (∃ range ∈ gitDiffRedactableRanges text, ∃ filePath,
      range.filePath = some filePath ∧ policy.hides range = true ∧
      finding = fileFinding text range filePath) ∨
    ∃ range ∈ gitDiffRedactableRanges text,
      policy.hides range = false ∧ finding.InLine ∧
      range.start ≤ finding.start ∧ finding.finish ≤ range.finish := by
  obtain ⟨customStrings, compiled, built⟩ := tryBuild_eq_ok accepted
  rw [noStrings] at compiled
  cases compiled
  have origin := origin_policyCandidates finding member
  rw [built] at origin
  cases origin with
  | customFile range filePath listed named present =>
      refine Or.inl ⟨range, listed, filePath, named, ?_, rfl⟩
      unfold RedactionPolicy.hides
      rw [named]
      simpa using present
  | builtin range inner listed other origin =>
      have within := redactableRanges_in range listed
      have bounds := (slice?_within within.sliced (inText_of_origin origin)).2
      have inLine := inLine_of_origin keeps origin
      refine Or.inr ⟨range, listed, other,
        ⟨inLine.visible, inLine.unbroken⟩, ?_, ?_⟩
      · simp [Finding.shift]
      · simp only [Finding.shift]
        omega
  | customString range candidate found normalizedKey listed other searched
      occurs =>
      cases searched

/-- A named file has a candidate for each of its ranges. -/
theorem fileFinding_candidate
    (accepted : tryBuild environment.engine false policy = .ok redactor)
    {range : RedactableRange}
    (listed : range ∈ gitDiffRedactableRanges text)
    (hidden : policy.hides range = true) :
    ∃ filePath, range.filePath = some filePath ∧
      fileFinding text range filePath ∈
        redactor.candidates environment text .gitDiff sourcePath := by
  obtain ⟨customStrings, compiled, built⟩ := tryBuild_eq_ok accepted
  unfold RedactionPolicy.hides at hidden
  cases named : range.filePath with
  | none =>
      rw [named] at hidden
      cases hidden
  | some filePath =>
      rw [named, Option.any_some, List.contains_iff_mem] at hidden
      have found :
          fileFinding text range filePath ∈
            detectCustomFiles text (gitDiffRedactableRanges text)
              (policy.customFiles.map CustomFileRule.path) :=
        mem_detectCustomFiles.mpr
          ⟨range, listed, filePath, named, hidden, rfl⟩
      refine ⟨filePath, rfl, ?_⟩
      rw [built]
      exact mem_policyCandidates.mpr (Or.inl found)

/-- No other candidate overlaps the range of a named file. -/
theorem prevails_fileFinding
    (accepted : tryBuild environment.engine false policy = .ok redactor)
    (noStrings : policy.customStrings = [])
    (keeps : environment.engine.KeepsLines) {range : RedactableRange}
    (listed : range ∈ gitDiffRedactableRanges text)
    (hidden : policy.hides range = true) {filePath : Text}
    (named : range.filePath = some filePath) :
    Prevails (redactor.candidates environment text .gitDiff sourcePath)
      (fileFinding text range filePath) := by
  intro other candidate different clashes
  exfalso
  simp only [overlaps, Bool.and_eq_true, decide_eq_true_eq] at clashes
  simp only [fileFinding, ruleFinding] at clashes
  rcases candidate_cases accepted noStrings keeps candidate with
    ⟨place, placeListed, otherPath, otherNamed, _, isFinding⟩ |
      ⟨place, placeListed, open', _, bounds⟩
  · have elsewhere : range ≠ place := by
      intro same
      rw [← same, named] at otherNamed
      cases otherNamed
      rw [← same] at isFinding
      exact different isFinding
    have apart := apart_of_ne listed placeListed elsewhere
    rw [isFinding] at clashes
    simp only [fileFinding, ruleFinding] at clashes
    omega
  · have elsewhere : range ≠ place := by
      intro same
      rw [same, open'] at hidden
      cases hidden
    have apart := apart_of_ne listed placeListed elsewhere
    omega

/-- Without a language model the findings are selected from the candidates. -/
theorem findings_eq_rules
    (accepted : tryBuild environment.engine false policy = .ok redactor)
    {response : Except Text (List Candidate)} {inputKind : InputKind}
    {outcome : DetectionOutcome}
    (detected :
      detectInternal environment response redactor text inputKind sourcePath =
        some outcome) :
    outcome.findings =
      (selectNonOverlapping
        (redactor.candidates environment text inputKind sourcePath)).1 := by
  have rulesOnly : redactor.llm = false := by
    obtain ⟨customStrings, _, built⟩ := tryBuild_eq_ok accepted
    rw [built]
  obtain ⟨again, same, findings⟩ :=
    detectInternal_rules rulesOnly response text inputKind sourcePath
  rw [detected] at same
  cases same
  exact findings

/-- All findings of a diff are inside lines exactly when the files that the
policy names have no line break to hide. -/
theorem unbroken_detected_iff
    (accepted : tryBuild environment.engine false policy = .ok redactor)
    (noStrings : policy.customStrings = [])
    (keeps : environment.engine.KeepsLines)
    {response : Except Text (List Candidate)} {outcome : DetectionOutcome}
    (detected :
      detectInternal environment response redactor text .gitDiff sourcePath =
        some outcome) :
    (∀ finding ∈ outcome.findings, '\n' ∉ finding.matchText) ↔
      policy.SparesBreaks text := by
  rw [findings_eq_rules accepted detected]
  constructor
  · intro unbroken range listed hidden
    obtain ⟨filePath, named, candidate⟩ :=
      @fileFinding_candidate environment policy redactor text sourcePath
        accepted range listed hidden
    have survives :=
      survives_of_prevails candidate
        (prevails_fileFinding accepted noStrings keeps listed hidden named)
    exact unbroken _ (mem_selected_iff.mpr survives)
  · intro spares finding selected
    rcases candidate_cases accepted noStrings keeps
        (mem_of_mem_selected selected) with
      ⟨range, listed, filePath, _, hidden, isFinding⟩ |
        ⟨_, _, _, inLine, _⟩
    · rw [isFinding]
      exact spares range listed hidden
    · exact inLine.unbroken

end Diff

end Redactor
