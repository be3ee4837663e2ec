import Redactor.Detect.Origins
import Redactor.Detect.Selection
import Redactor.Input.RangeOrder

/-!
# Findings stand in the text

Every finding carries the text of its range, which is cut at character
boundaries and lies in one redactable range.
-/

namespace Redactor

open Utf8 Fallible

/-- The finding carries what the text has in its range. -/
def Finding.InText (finding : Finding) (text : Text) : Prop :=
  slice? text finding.start finding.finish = some finding.matchText

section Builtin

variable {engine : Engine} {text : Text}

theorem slice?_of_match {found : RegexMatch} (inside : found.Inside text) :
    slice? text found.start found.finish = some (found.asText text) :=
  slice?_of_boundaries inside.start inside.finish inside.ordered

/-- Going to the left ends at the begin of a character. -/
theorem expandLeftOver_reverse (predicate : Char → Bool) (before : Text) :
    ∃ kept dropped, before = kept ++ dropped ∧
      dropped.all predicate = true ∧
      expandLeftOver predicate (byteLen before) before.reverse =
        byteLen kept := by
  induction before using List.reverseRecOn with
  | nil =>
      exact ⟨[], [], rfl, rfl, rfl⟩
  | append_singleton before head inductionHypothesis =>
      rw [List.reverse_append, List.reverse_singleton, List.singleton_append,
        expandLeftOver]
      by_cases accepted : predicate head = true
      · obtain ⟨kept, dropped, shape, passed, size⟩ := inductionHypothesis
        refine ⟨kept, dropped ++ [head], by rw [shape]; simp,
          by simp [passed, accepted], ?_⟩
        simp only [accepted, if_true, byteLen_append, byteLen_cons,
          byteLen_nil, Nat.add_zero, Nat.add_sub_cancel]
        exact size
      · refine ⟨before ++ [head], [], by simp, rfl, ?_⟩
        simp [accepted]

theorem expandLeft_append (predicate : Char → Bool) (before after : Text) :
    ∃ kept dropped, before = kept ++ dropped ∧
      dropped.all predicate = true ∧
      expandLeft (before ++ after) (byteLen before) predicate =
        byteLen kept := by
  unfold expandLeft
  rw [slice_left]
  exact expandLeftOver_reverse predicate before

/-- Going to the right ends at the begin of a character. -/
theorem expandRightOver_eq (predicate : Char → Bool) (index : Nat)
    (after : Text) :
    expandRightOver predicate index after =
      index + byteLen (after.takeWhile predicate) := by
  induction after generalizing index with
  | nil =>
      rfl
  | cons head tail inductionHypothesis =>
      unfold expandRightOver
      by_cases accepted : predicate head = true
      · rw [if_pos accepted, inductionHypothesis,
          List.takeWhile_cons_of_pos accepted, byteLen_cons]
        omega
      · rw [if_neg accepted, List.takeWhile_cons_of_neg accepted]
        rfl

theorem expandRight_append (predicate : Char → Bool) (before after : Text) :
    expandRight (before ++ after) (byteLen before) predicate =
      byteLen before + byteLen (after.takeWhile predicate) := by
  unfold expandRight
  rw [slice_right]
  exact expandRightOver_eq predicate _ after

/-- An address is the characters around its separator. -/
theorem emailAround_eq_some {before after : Text} {finding : Finding}
    (found :
      emailAround engine (before ++ '@' :: after) (byteLen before) '@' =
        some finding) :
    ∃ kept localPart rest,
      before = kept ++ localPart ∧ localPart.all isEmailLocal = true ∧
      after = after.takeWhile isEmailDomain ++ rest ∧
      finding =
        ruleFinding .email
          (localPart ++ '@' :: after.takeWhile isEmailDomain)
          (normalize .email
            (localPart ++ '@' :: after.takeWhile isEmailDomain))
          98 (byteLen kept)
          (byteLen kept +
            byteLen (localPart ++ '@' :: after.takeWhile isEmailDomain)) := by
  obtain ⟨kept, localPart, shape, accepted, atStart⟩ :=
    expandLeft_append isEmailLocal before ('@' :: after)
  have atFinish :
      expandRight (before ++ '@' :: after)
          (byteLen before + Char.utf8Size '@') isEmailDomain =
        byteLen kept +
          byteLen (localPart ++ '@' :: after.takeWhile isEmailDomain) := by
    have next := expandRight_append isEmailDomain (before ++ ['@']) after
    rw [List.append_assoc, List.singleton_append] at next
    rw [byteLen_append, byteLen_cons, byteLen_nil, Nat.add_zero] at next
    rw [next, shape]
    simp only [byteLen_append, byteLen_cons]
    omega
  have cut :
      slice (before ++ '@' :: after) (byteLen kept)
          (byteLen kept +
            byteLen (localPart ++ '@' :: after.takeWhile isEmailDomain)) =
        localPart ++ '@' :: after.takeWhile isEmailDomain := by
    have whole :
        before ++ '@' :: after =
          kept ++
            ((localPart ++ '@' :: after.takeWhile isEmailDomain) ++
              after.dropWhile isEmailDomain) := by
      rw [shape]
      simp [List.takeWhile_append_dropWhile]
    rw [whole]
    exact slice_middle _ _ _
  simp only [emailAround, atStart, atFinish, cut,
    Option.ite_none_left_eq_some, Option.ite_none_right_eq_some,
    Option.some.injEq] at found
  exact ⟨kept, localPart, after.dropWhile isEmailDomain, shape, accepted,
    List.takeWhile_append_dropWhile.symm, found.2.2.symm⟩

theorem phoneIn_eq_some {startByte endByte : Nat} {finding : Finding}
    (found : phoneIn text startByte endByte = some finding) :
    finding =
      ruleFinding .phone (trim (slice text startByte endByte))
        (normalize .phone (trim (slice text startByte endByte))) 80
        (startByte +
          (find? (slice text startByte endByte)
            (trim (slice text startByte endByte))).getD 0)
        (startByte +
            (find? (slice text startByte endByte)
              (trim (slice text startByte endByte))).getD 0 +
          byteLen (trim (slice text startByte endByte))) := by
  simp only [phoneIn, Option.ite_none_right_eq_some,
    Option.ite_none_left_eq_some, Option.some.injEq] at found
  exact found.2.2.symm

/-- The value of an assignment is a part of the group that captures it. -/
theorem assignmentFinding_eq_some {rules : RedactionRules} {offset : Nat}
    {line : Text} {captures : Text → Option RegexMatch} {finding : Finding}
    (found :
      assignmentFinding engine rules offset line captures = some finding) :
    ∃ kind valueMatch value start,
      captures (lit "value") = some valueMatch ∧
      value = trimWrapped (trim (valueMatch.asText line)) ∧
      value ≠ [] ∧
      start =
        offset +
          (valueMatch.start +
            (find? (valueMatch.asText line) value).getD 0) ∧
      finding =
        ruleFinding kind value (normalize kind value) 99 start
          (start + byteLen value) := by
  simp only [assignmentFinding, Option.bind_eq_bind, Option.bind_eq_some_iff,
    Option.ite_none_left_eq_some, Option.some.injEq] at found
  obtain ⟨_, _, valueMatch, captured, _, _, visible, kind, _, shape⟩ := found
  refine ⟨kind, valueMatch, _, _, captured, rfl, ?_, rfl, ?_⟩
  · intro empty
    rw [empty] at visible
    exact visible rfl
  · rw [← shape, Nat.add_assoc offset]

theorem trimWrapped_isInfix (value : Text) : trimWrapped value <:+: value :=
  ((trimMatches_isInfix _ _).trans (trimMatches_isInfix _ _)).trans
    (trim_isInfix value)

/-- A line stands where the lines before it end. -/
theorem slice?_line {before : List Text} {line : Text} {after : List Text}
    (cut : splitInclusive '\n' text = before ++ line :: after) :
    slice? text (byteLen before.flatten)
        (byteLen before.flatten + byteLen line) = some line := by
  have whole := flatten_splitInclusive '\n' text
  rw [cut, List.flatten_append, List.flatten_cons] at whole
  rw [← whole]
  exact slice?_middle _ line _

/-- What the detectors of the rules find stands in the text. -/
theorem inText_of_origin {finding : Finding}
    (origin : BuiltinOrigin engine text finding) : finding.InText text := by
  induction origin with
  | pattern pattern kind confidence found listed occurs =>
      exact slice?_of_match (engine.findIter_inside pattern text found occurs)
  | secret found occurs looks =>
      exact
        slice?_of_match (engine.findIter_inside secretPattern text found occurs)
  | email before after finding shape around =>
      rw [shape] at around ⊢
      obtain ⟨kept, localPart, rest, cutLeft, _, cutRight, isFinding⟩ :=
        emailAround_eq_some around
      have whole :
          before ++ '@' :: after =
            kept ++
              ((localPart ++ '@' :: after.takeWhile isEmailDomain) ++
                rest) := by
        rw [cutLeft]
        conv_lhs => rw [cutRight]
        simp
      rw [isFinding, whole]
      exact slice?_middle kept _ rest
  | phone before segment after finding shape phone inSegment =>
      have segmentSliced :
          slice? text (byteLen before) (byteLen before + byteLen segment) =
            some segment := by
        rw [shape]
        exact slice?_middle before segment after
      have isSegment := (cut_of_slice? segmentSliced).sliced
      have isFinding := phoneIn_eq_some inSegment
      rw [isSegment] at isFinding
      rw [isFinding]
      exact slice?_of_infix segmentSliced (trim_isInfix segment)
  | assignment rules before line after captures finding cut occurs given =>
      obtain ⟨kind, valueMatch, value, start, captured, isValue, _, atStart,
          isFinding⟩ := assignmentFinding_eq_some given
      have inside :=
        engine.capturesIter_inside assignmentPattern line captures occurs
          (lit "value") valueMatch captured
      have valueSliced :=
        (slice?_within (slice?_line cut) (slice?_of_match inside)).1
      have part : value <:+: valueMatch.asText line := by
        rw [isValue]
        exact (trimWrapped_isInfix _).trans (trim_isInfix _)
      have placed := slice?_of_infix valueSliced part
      rw [Nat.add_assoc (byteLen before.flatten), ← atStart] at placed
      rw [isFinding]
      exact placed
  | repeated secret start origin isSecret occurs inductionHypothesis =>
      exact slice?_matchIndices occurs

end Builtin

section Custom

variable {text : Text}

/-- The line begins at a boundary, at the match or before it. -/
theorem lineStart_boundary {start : Nat}
    (boundary : IsCharBoundary text start) :
    IsCharBoundary text (lineStart text start) ∧
      lineStart text start ≤ start := by
  obtain ⟨left, right, shape, size⟩ := boundary
  have whole : slice text 0 start = left := by
    rw [shape, ← size, slice_left]
  unfold lineStart
  rw [whole]
  cases last : rfind? left '\n' with
  | none =>
      exact ⟨isCharBoundary_zero text, Nat.zero_le _⟩
  | some offset =>
      obtain ⟨before, after, cut, atBreak⟩ := rfind?_eq_some last
      have newline : Char.utf8Size '\n' = 1 := rfl
      simp only [Option.map_some, Option.getD_some]
      constructor
      · exact ⟨before ++ ['\n'], after ++ right, by rw [shape, cut]; simp,
          by simp [atBreak, newline]⟩
      · rw [cut, byteLen_append, byteLen_cons, atBreak, newline] at size
        omega

/-- The line ends at a boundary, at the end of the match or behind it. -/
theorem lineEnd_boundary {finish : Nat}
    (boundary : IsCharBoundary text finish) :
    IsCharBoundary text (lineEnd text finish) ∧
      finish ≤ lineEnd text finish := by
  have inside := boundary.le_byteLen
  obtain ⟨left, right, shape, size⟩ := boundary
  have whole : slice text finish (byteLen text) = right := by
    rw [shape, ← size, slice_right]
  unfold lineEnd
  rw [whole]
  cases next : find? right ['\n'] with
  | none =>
      exact ⟨isCharBoundary_byteLen text, inside⟩
  | some offset =>
      obtain ⟨before, after, cut, atBreak⟩ := find?_eq_some next
      simp only [Option.map_some, Option.getD_some]
      constructor
      · exact ⟨left ++ before, '\n' :: after, by rw [shape, cut]; simp,
          by rw [byteLen_append, size, atBreak]⟩
      · omega

/-- The range that a match is to hide is cut at boundaries. -/
theorem slice?_customSpan {found : RegexMatch} (inside : found.Inside text)
    (scope : CustomStringScope) :
    slice? text (customSpan text scope found).1
        (customSpan text scope found).2 =
      some
        (slice text (customSpan text scope found).1
          (customSpan text scope found).2) := by
  cases scope with
  | text =>
      exact slice?_of_boundaries inside.start inside.finish inside.ordered
  | line =>
      obtain ⟨atStart, before⟩ := lineStart_boundary inside.start
      obtain ⟨atFinish, behind⟩ := lineEnd_boundary inside.finish
      have ordered := inside.ordered
      have spans : lineStart text found.start ≤ lineEnd text found.finish := by
        omega
      exact slice?_of_boundaries atStart atFinish spans

end Custom

/-- The finding stands in the text, inside one of the ranges. -/
structure Finding.Confined (finding : Finding) (text : Text)
    (ranges : List RedactableRange) : Prop where
  inText : finding.InText text
  inRange :
    ∃ range ∈ ranges,
      range.start ≤ finding.start ∧ finding.finish ≤ range.finish

section Confined

variable {environment : Environment} {redactor : RedactorInstance}
  {text : Text} {inputKind : InputKind} {sourcePath : Option Text}

/-- A finding of a part of the text is shifted to where the part stands. -/
theorem confined_shift {ranges : List RedactableRange}
    {range : RedactableRange} (listed : range ∈ ranges)
    (within : range.In text) {finding : Finding}
    (inPart :
      finding.InText (slice text range.start range.finish)) :
    (finding.shift range.start).Confined text ranges := by
  obtain ⟨placed, last⟩ := slice?_within within.sliced inPart
  exact {
    inText := by
      unfold Finding.InText Finding.shift
      simp only
      rw [Nat.add_comm finding.start, Nat.add_comm finding.finish]
      exact placed
    inRange := by
      refine ⟨range, listed, ?_, ?_⟩
      · simp only [Finding.shift]
        omega
      · simp only [Finding.shift]
        omega }

theorem confined_of_origin {customStrings : CompiledCustomStrings}
    {customFiles : List Text} {ranges : List RedactableRange}
    (within : ∀ range ∈ ranges, range.In text) {finding : Finding}
    (origin :
      CandidateOrigin environment text customStrings customFiles ranges
        finding) :
    finding.Confined text ranges := by
  cases origin with
  | customFile range filePath listed named present =>
      exact {
        inText := (within range listed).sliced
        inRange := ⟨range, listed, Nat.le_refl _, Nat.le_refl _⟩ }
  | builtin range finding listed other origin =>
      exact
        confined_shift listed (within range listed) (inText_of_origin origin)
  | customString range candidate found normalizedKey listed other compiled
      occurs =>
      have inside := environment.engine.findIter_inside _ _ found occurs
      exact confined_shift listed (within range listed)
        (slice?_customSpan inside candidate.rule.scope)

/-- Every candidate of the rules stands in the text, inside a range. -/
theorem confined_candidates :
    ∀ finding ∈ redactor.candidates environment text inputKind sourcePath,
      finding.Confined text (redactableRanges text inputKind sourcePath) := by
  intro finding member
  exact confined_of_origin redactableRanges_in
    (origin_policyCandidates finding member)

end Confined

/-! ## The language model -/

section Llm

variable {text : Text}

/-- Every position of a value is one where it stands in the text. -/
theorem slice?_collectMatchPositionsFrom {value : Text} {fuel searchStart : Nat}
    {positions : List Nat}
    (collected :
      collectMatchPositionsFrom text value fuel searchStart =
        some positions) :
    ∀ start ∈ positions,
      slice? text start (start + byteLen value) = some value := by
  induction fuel generalizing searchStart positions with
  | zero =>
      cases collected
      simp
  | succ fuel inductionHypothesis =>
      unfold collectMatchPositionsFrom at collected
      split at collected
      · cases collected
        simp
      · obtain ⟨rest, sliced, continued⟩ :=
          Option.bind_eq_some_iff.mp collected
        cases found : find? rest value with
        | none =>
            simp only [found, Option.some.injEq] at continued
            rw [← continued]
            simp
        | some offset =>
            simp only [found] at continued
            obtain ⟨later, collectedLater, last⟩ :=
              Option.bind_eq_some_iff.mp continued
            cases last
            intro start member
            rcases List.mem_cons.mp member with here | further
            · have inner := (slice?_within sliced (slice?_find? found)).1
              rw [here, Nat.add_assoc]
              exact inner
            · exact inductionHypothesis collectedLater start further

/-- The positions of the values stand in the text. -/
def PositionsPlaced (text : Text) (positions : List (Text × List Nat)) :
    Prop :=
  ∀ value places, positions.lookup value = some places →
    ∀ start ∈ places,
      slice? text start (start + byteLen value) = some value

theorem slice?_collectMatchPositions {value : Text} {positions : List Nat}
    (collected : collectMatchPositions text value = some positions) :
    ∀ start ∈ positions,
      slice? text start (start + byteLen value) = some value := by
  unfold collectMatchPositions at collected
  split at collected
  · cases collected
    simp
  · exact slice?_collectMatchPositionsFrom collected

theorem positionsPlaced_build {values : List Text}
    {positions : List (Text × List Nat)}
    (built : buildMatchPositions text values = some positions) :
    PositionsPlaced text positions :=
  fun _ _ known =>
    slice?_collectMatchPositions (lookup_build built known).2

theorem inText_parseCandidates {candidates : List Candidate}
    {rules : RedactionRules} {findings : List Finding}
    (parsed : parseCandidates text candidates rules = some findings) :
    ∀ finding ∈ findings, finding.InText text := by
  intro finding member
  obtain ⟨matchPositions, built, origins⟩ := origin_parseCandidates parsed
  cases origins finding member with
  | named candidate kind places start mapped known occurs =>
      exact positionsPlaced_build built _ places known start occurs

/-- Every finding of the model stands in the text, inside a range. -/
theorem confined_discoverCandidates
    {response : Except Text (List Candidate)} {rules : RedactionRules}
    {ranges : List RedactableRange} {findings : List Finding}
    (discovered :
      discoverCandidates response text rules ranges = some (.ok findings)) :
    ∀ finding ∈ findings, finding.Confined text ranges := by
  intro finding member
  obtain ⟨_, _, parsing, listed, inRange⟩ :=
    exists_parsed_of_discovered discovered member
  exact {
    inText := inText_parseCandidates parsing finding listed
    inRange := inRange }

end Llm

section Outcome

variable {environment : Environment} {redactor : RedactorInstance}
  {response : Except Text (List Candidate)} {text : Text}
  {inputKind : InputKind} {sourcePath : Option Text}

theorem confined_consideredLlm :
    ∀ finding ∈ redactor.consideredLlm response text inputKind sourcePath,
      finding.Confined text (redactableRanges text inputKind sourcePath) := by
  unfold RedactorInstance.consideredLlm
  split
  · split
    · rename_i found discovered
      exact confined_discoverCandidates discovered
    · simp
  · simp

theorem confined_ruleFindings :
    ∀ finding ∈ redactor.ruleFindings environment text inputKind sourcePath,
      finding.Confined text (redactableRanges text inputKind sourcePath) :=
  fun finding member =>
    confined_candidates finding (mem_of_mem_selected member)

/-- Of every finding that a detection returns. -/
theorem confined_detected {outcome : DetectionOutcome}
    (detected :
      detectInternal environment response redactor text inputKind
        sourcePath = some outcome) :
    ∀ finding ∈ outcome.findings,
      finding.Confined text (redactableRanges text inputKind sourcePath) := by
  intro finding member
  rcases detectInternal_selections detected with
    ⟨_, findings, _⟩ | ⟨_, findings, _⟩
  · rw [findings] at member
    exact confined_ruleFindings finding member
  · rw [findings] at member
    rcases List.mem_append.mp (mem_of_mem_selected member) with
      ofRules | ofModel
    · exact confined_ruleFindings finding ofRules
    · exact confined_consideredLlm finding ofModel

end Outcome

end Redactor
