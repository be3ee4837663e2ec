import Redactor.Detect.LineBreaks
import Redactor.Library.LastPlaceParts

/-!
# Files that the policy names

A named file is redacted whole: in each of its ranges one finding is left, that
of the range.  The ranges do not touch, so that what is selected in one of them
does not depend on the others.
-/

namespace Redactor

open Utf8 Fallible

/-- The finding lies inside the range. -/
def RedactableRange.holds (range : RedactableRange) (finding : Finding) :
    Bool :=
  decide (range.start ≤ finding.start) &&
    decide (finding.finish ≤ range.finish)

/-- The finding and the range have a byte in common. -/
def RedactableRange.meets (range : RedactableRange) (finding : Finding) :
    Bool :=
  decide (finding.start < range.finish) &&
    decide (range.start < finding.finish)

/-- Before the range, in it or behind it. -/
def RedactableRange.place (range : RedactableRange) (finding : Finding) :
    Nat :=
  if finding.start < range.start then 0
  else if finding.start ≤ range.finish then 1
  else 2

theorem place_cases (range : RedactableRange) (finding : Finding) :
    finding.start < range.start ∧ range.place finding = 0 ∨
    range.start ≤ finding.start ∧ finding.start ≤ range.finish ∧
      range.place finding = 1 ∨
    range.start ≤ finding.start ∧ range.finish < finding.start ∧
      range.place finding = 2 := by
  unfold RedactableRange.place
  split
  · omega
  · split <;> omega

theorem place_mono (range : RedactableRange) {left right : Finding}
    (ordered : left.start ≤ right.start) :
    range.place left ≤ range.place right := by
  have first := place_cases range left
  have second := place_cases range right
  omega

/-- No finding touches the range from outside. -/
structure RedactableRange.Parts (range : RedactableRange)
    (findings : List Finding) : Prop where
  ordered : range.start ≤ range.finish
  forward : ∀ finding ∈ findings, finding.start ≤ finding.finish
  side :
    ∀ finding ∈ findings,
      finding.finish < range.start ∨ range.holds finding = true ∨
        range.finish < finding.start

namespace RedactableRange.Parts

variable {range : RedactableRange} {findings : List Finding}

theorem of_subset (parts : range.Parts findings) {others : List Finding}
    (subset : ∀ finding ∈ others, finding ∈ findings) :
    range.Parts others where
  ordered := parts.ordered
  forward := fun finding member =>
    parts.forward finding (subset finding member)
  side := fun finding member => parts.side finding (subset finding member)

theorem holds_iff (parts : range.Parts findings) :
    ∀ finding ∈ findings,
      range.holds finding = decide (range.place finding = 1) := by
  intro finding member
  have forward := parts.forward finding member
  have side := parts.side finding member
  have placed := place_cases range finding
  apply Bool.eq_iff_iff.mpr
  simp only [RedactableRange.holds, Bool.and_eq_true,
    decide_eq_true_eq] at side ⊢
  omega

theorem place_eq_of_overlaps (parts : range.Parts findings)
    {left right : Finding} (first : left ∈ findings)
    (second : right ∈ findings) (clashes : overlaps left right = true) :
    range.place left = range.place right := by
  have ordered := parts.ordered
  have sideLeft := parts.side left first
  have sideRight := parts.side right second
  have placedLeft := place_cases range left
  have placedRight := place_cases range right
  simp only [overlaps, RedactableRange.holds, Bool.and_eq_true,
    decide_eq_true_eq] at clashes sideLeft sideRight
  omega

theorem holds_of_meets (parts : range.Parts findings) :
    ∀ finding ∈ findings, range.meets finding = true →
      range.holds finding = true := by
  intro finding member meets
  simp only [RedactableRange.meets, Bool.and_eq_true,
    decide_eq_true_eq] at meets
  rcases parts.side finding member with before | inside | behind
  · omega
  · exact inside
  · omega

end RedactableRange.Parts

/-- What is selected in a range is selected from the candidates in it. -/
theorem selected_filter {range : RedactableRange} {findings : List Finding}
    (parts : range.Parts findings) :
    (selectNonOverlapping findings).1.filter range.holds =
      (selectNonOverlapping (findings.filter range.holds)).1 := by
  have sorted := parts.of_subset fun _ => mem_sortCandidates.mp
  have here :
      (sortCandidates findings).filter range.holds =
        (sortCandidates findings).filter (range.place · = 1) :=
    List.filter_congr sorted.holds_iff
  have kept :=
    @LastPlace.filter_select _ _ _ _ overlaps preferRight range.place
      (sortCandidates findings) 1
      ((started_sortCandidates findings).imp fun ordered =>
        place_mono range ordered)
      fun left first right second clashes =>
        sorted.place_eq_of_overlaps first second clashes
  have selected :
      range.Parts
        (LastPlace.select overlaps preferRight (sortCandidates findings)) :=
    sorted.of_subset fun _ => LastPlace.mem_of_mem_select
  rw [selectNonOverlapping_eq, selectNonOverlapping_eq]
  simp only
  rw [List.filter_congr selected.holds_iff, kept, ← here]
  exact
    congrArg (LastPlace.select overlaps preferRight)
      (LastPlace.filter_insertionSort range.holds findings)

/-- Ranges of the text, with something between any two of them. -/
structure Parted (text : Text) (ranges : List RedactableRange) : Prop where
  within : ∀ range ∈ ranges, range.In text
  apart : ranges.Pairwise fun left right => left.finish < right.start

theorem parted_redactableRanges {text : Text} {inputKind : InputKind}
    {sourcePath : Option Text} :
    Parted text (redactableRanges text inputKind sourcePath) where
  within := redactableRanges_in
  apart := redactableRanges_parted

theorem Finding.Confined.forward {finding : Finding} {text : Text}
    {ranges : List RedactableRange}
    (confined : finding.Confined text ranges) :
    finding.start ≤ finding.finish :=
  (cut_of_slice? confined.inText).ordered

namespace Parted

variable {text : Text} {ranges : List RedactableRange}

theorem apart_of_ne (parted : Parted text ranges)
    {left right : RedactableRange} (first : left ∈ ranges)
    (second : right ∈ ranges) (different : left ≠ right) :
    left.finish < right.start ∨ right.finish < left.start := by
  have symmetric :
      Std.Symm fun left right : RedactableRange =>
        left.finish < right.start ∨ right.finish < left.start :=
    ⟨fun _ _ apart => apart.symm⟩
  have apart :
      ranges.Pairwise fun left right =>
        left.finish < right.start ∨ right.finish < left.start :=
    parted.apart.imp fun before => Or.inl before
  exact apart.forall first second different

/-- A finding in one range is not in another one. -/
theorem holds_iff (parted : Parted text ranges)
    {range other : RedactableRange} (listed : range ∈ ranges)
    (otherListed : other ∈ ranges) {finding : Finding}
    (confined : finding.Confined text [other]) :
    range.holds finding = true ↔ range = other := by
  have forward := confined.forward
  obtain ⟨own, isOwn, bounds⟩ := confined.inRange
  rw [List.mem_singleton.mp isOwn] at bounds
  simp only [RedactableRange.holds, Bool.and_eq_true, decide_eq_true_eq]
  constructor
  · intro inside
    by_contra different
    have apart := parted.apart_of_ne listed otherListed different
    omega
  · intro same
    rw [same]
    exact bounds

theorem parts (parted : Parted text ranges) {range : RedactableRange}
    (listed : range ∈ ranges) {findings : List Finding}
    (confined : ∀ finding ∈ findings, finding.Confined text ranges) :
    range.Parts findings where
  ordered := (parted.within range listed).ordered
  forward := fun finding member => (confined finding member).forward
  side := by
    intro finding member
    have forward := (confined finding member).forward
    obtain ⟨other, otherListed, bounds⟩ := (confined finding member).inRange
    simp only [RedactableRange.holds, Bool.and_eq_true, decide_eq_true_eq]
    by_cases same : other = range
    · rw [same] at bounds
      exact Or.inr (Or.inl bounds)
    · have apart := parted.apart_of_ne otherListed listed same
      omega

end Parted

/-! ## The candidates of one range -/

/-- The policy without its rules for files. -/
def RedactionPolicy.withoutFiles (policy : RedactionPolicy) :
    RedactionPolicy :=
  { policy with customFiles := [] }

section Candidates

variable {environment : Environment} {text : Text}
  {policy : RedactionPolicy} {customStrings : CompiledCustomStrings}
  {customFiles : List Text} {ranges : List RedactableRange}
  {range : RedactableRange}

theorem confined_rangeCandidates (within : range.In text) :
    ∀ finding ∈
        rangeCandidates environment text policy customStrings customFiles
          range,
      finding.Confined text [range] := by
  intro finding member
  have alone : ∀ other ∈ [range], other.In text := by
    intro other isRange
    rw [List.mem_singleton.mp isRange]
    exact within
  apply
    @confined_of_origin environment text customStrings customFiles [range]
      alone
  apply @origin_policyCandidates _ _ policy
  exact List.mem_append_right _ (by simpa using member)

theorem confined_fileFinding (within : range.In text) (filePath : Text) :
    (fileFinding text range filePath).Confined text [range] where
  inText := within.sliced
  inRange := ⟨range, List.mem_singleton_self range, Nat.le_refl _,
    Nat.le_refl _⟩

/-- What the detectors find in one range is not in another one. -/
theorem rangeCandidates_filter_of_ne (parted : Parted text ranges)
    (listed : range ∈ ranges) {other : RedactableRange}
    (otherListed : other ∈ ranges) (different : range ≠ other) :
    (rangeCandidates environment text policy customStrings customFiles
        other).filter range.holds =
      [] := by
  apply List.filter_eq_nil_iff.mpr
  intro finding member inside
  have confined :=
    confined_rangeCandidates (parted.within other otherListed) finding member
  exact different ((parted.holds_iff listed otherListed confined).mp inside)

/-- In a range of another file nothing depends on the rules for files. -/
theorem candidates_filter_of_other (parted : Parted text ranges)
    (listed : range ∈ ranges)
    (other : range.filePath.any (customFiles.contains ·) = false) :
    (policyCandidates environment text policy customStrings customFiles
        ranges).filter range.holds =
      (policyCandidates environment text policy.withoutFiles customStrings []
        ranges).filter range.holds := by
  have noFiles :
      (if customFiles.isEmpty then []
        else detectCustomFiles text ranges customFiles).filter range.holds =
        [] := by
    apply List.filter_eq_nil_iff.mpr
    intro finding member inside
    have found : finding ∈ detectCustomFiles text ranges customFiles := by
      split at member
      · cases member
      · exact member
    obtain ⟨place, placeListed, filePath, named, present, isFinding⟩ :=
      mem_detectCustomFiles.mp found
    have confined :=
      confined_fileFinding (parted.within place placeListed) filePath
    rw [isFinding] at inside
    have same := (parted.holds_iff listed placeListed confined).mp inside
    rw [same, named] at other
    simp [present] at other
  have sameRanges :
      ∀ place ∈ ranges,
        (rangeCandidates environment text policy customStrings customFiles
            place).filter range.holds =
          (rangeCandidates environment text policy.withoutFiles customStrings
            [] place).filter range.holds := by
    intro place placeListed
    by_cases same : range = place
    · rw [← same]
      unfold rangeCandidates
      rw [other]
      simp [RedactionPolicy.withoutFiles]
    · rw [rangeCandidates_filter_of_ne parted listed placeListed same,
        rangeCandidates_filter_of_ne parted listed placeListed same]
  unfold policyCandidates
  rw [List.filter_append, List.filter_append, noFiles, List.filter_flatMap,
    List.filter_flatMap, List.flatMap_congr sameRanges]
  rfl

/-- The only candidate in a range of a named file is that of the file. -/
theorem mem_candidates_filter_of_hidden (parted : Parted text ranges)
    (listed : range ∈ ranges) {filePath : Text}
    (named : range.filePath = some filePath)
    (present : filePath ∈ customFiles) {finding : Finding} :
    finding ∈
        (policyCandidates environment text policy customStrings customFiles
          ranges).filter range.holds ↔
      finding = fileFinding text range filePath := by
  rw [List.mem_filter, mem_policyCandidates]
  constructor
  · intro found
    obtain ⟨ofFile | ⟨place, placeListed, searched⟩, inside⟩ := found
    · obtain ⟨place, placeListed, otherPath, otherNamed, _, isFinding⟩ :=
        mem_detectCustomFiles.mp ofFile
      have confined :=
        confined_fileFinding (parted.within place placeListed) otherPath
      rw [isFinding] at inside
      have same := (parted.holds_iff listed placeListed confined).mp inside
      rw [← same, named] at otherNamed
      cases otherNamed
      rw [isFinding, same]
    · exfalso
      have confined :=
        confined_rangeCandidates (parted.within place placeListed) finding
          searched
      have same := (parted.holds_iff listed placeListed confined).mp inside
      rw [← same] at searched
      simp [rangeCandidates, named, present] at searched
  · intro isFinding
    rw [isFinding]
    constructor
    · left
      exact
        mem_detectCustomFiles.mpr ⟨range, listed, filePath, named, present, rfl⟩
    · have confined :=
        confined_fileFinding (parted.within range listed) filePath
      exact (parted.holds_iff listed listed confined).mpr rfl

end Candidates

/-- A finding that only a language model can have. -/
structure Finding.OfModel (finding : Finding) : Prop where
  source : finding.source = .llm
  kind : finding.kind = .person ∨ finding.kind = .organization
  visible : finding.matchText ≠ []

section NamedFile

variable {text : Text} {range : RedactableRange} {filePath : Text}

/-- Nothing that the model finds in the file is preferred to the file. -/
theorem file_preferred {finding : Finding} (ofModel : finding.OfModel)
    (inside : range.holds finding = true) :
    preferRight finding (fileFinding text range filePath) = true ∧
      preferRight (fileFinding text range filePath) finding = false := by
  have contained :
      nested finding (fileFinding text range filePath) = true := by
    unfold nested
    rw [Bool.or_eq_true]
    exact Or.inr inside
  have lower :
      finding.kind.containmentPriority <
        FindingKind.customFile.containmentPriority := by
    rcases ofModel.kind with person | organization
    · rw [person]
      decide
    · rw [organization]
      decide
  have kind :
      (fileFinding text range filePath).kind = .customFile := rfl
  rw [preferRight_eq, preferRight_eq, nested_comm _ finding, contained, kind]
  have different := Nat.ne_of_lt lower
  simp [different, different.symm, lower, Nat.le_of_lt lower]

theorem proper_of_ofModel {finding : Finding} (ofModel : finding.OfModel)
    (inText : finding.InText text) : finding.start < finding.finish := by
  have length := (cut_of_slice? inText).length
  have visible := mt byteLen_eq_zero.mp ofModel.visible
  omega

/-- Beside findings of the model the finding of the file is the only one
selected. -/
theorem selected_eq_file (nonempty : range.start < range.finish)
    {findings : List Finding}
    (candidate : fileFinding text range filePath ∈ findings)
    (others :
      ∀ finding ∈ findings,
        finding = fileFinding text range filePath ∨
          finding.OfModel ∧ finding.InText text ∧
            range.holds finding = true) :
    (selectNonOverlapping findings).1 = [fileFinding text range filePath] := by
  have proper : ∀ finding ∈ findings, finding.start < finding.finish := by
    intro finding member
    rcases others finding member with isFile | ⟨ofModel, inText, _⟩
    · rw [isFile]
      exact nonempty
    · exact proper_of_ofModel ofModel inText
  have prevails : Prevails findings (fileFinding text range filePath) := by
    intro other member different _
    rcases others other member with isFile | ⟨ofModel, _, inside⟩
    · exact absurd isFile different
    · have preferred :=
        @file_preferred text range filePath other ofModel inside
      exact ⟨fun _ => preferred.1, fun _ => preferred.2⟩
  have selected :=
    mem_selected_iff.mpr (survives_of_prevails candidate prevails)
  have alone :
      ∀ finding ∈ (selectNonOverlapping findings).1,
        finding = fileFinding text range filePath := by
    intro finding member
    by_contra different
    have apart := overlaps_of_mem_selected proper member selected different
    rcases others finding (mem_of_mem_selected member) with
      isFile | ⟨_, _, inside⟩
    · exact different isFile
    · have forward := proper finding (mem_of_mem_selected member)
      simp only [RedactableRange.holds, Bool.and_eq_true,
        decide_eq_true_eq] at inside
      simp only [overlaps, Bool.and_eq_false_iff,
        decide_eq_false_iff_not] at apart
      simp only [fileFinding, ruleFinding] at apart
      omega
  have once :
      (selectNonOverlapping findings).1.Nodup := by
    apply (pairwise_follows_selected proper).imp
    intro left right follows same
    rw [same] at follows
    exact absurd follows.1 (Nat.lt_irrefl _)
  have same :
      (selectNonOverlapping findings).1.Perm
        [fileFinding text range filePath] := by
    apply (List.perm_ext_iff_of_nodup once (List.nodup_singleton _)).mpr
    intro finding
    rw [List.mem_singleton]
    constructor
    · exact alone finding
    · intro isFile
      rw [isFile]
      exact selected
  exact same.eq_singleton

end NamedFile

/-! ## Detection -/

/-- What is returned when the language model has found this. -/
def RedactorInstance.mergedFindings (environment : Environment)
    (redactor : RedactorInstance) (text : Text) (inputKind : InputKind)
    (sourcePath : Option Text) (found : List Finding) : List Finding :=
  (selectNonOverlapping
    (redactor.ruleFindings environment text inputKind sourcePath ++ found)).1

/-- The same redactor without its rules for files. -/
def RedactorInstance.withoutFiles (redactor : RedactorInstance) :
    RedactorInstance :=
  { redactor with
    compiledPolicy :=
      { policy := redactor.compiledPolicy.policy.withoutFiles
        customStrings := redactor.compiledPolicy.customStrings
        customFiles := [] } }

/-- In every range of a named file the finding of the whole range is the only
one. -/
def HidesFiles (policy : RedactionPolicy) (text : Text)
    (ranges : List RedactableRange) (findings : List Finding) : Prop :=
  ∀ range ∈ ranges, range.start < range.finish →
    ∀ filePath, range.filePath = some filePath →
      filePath ∈ policy.customFiles.map CustomFileRule.path →
      findings.filter range.meets = [fileFinding text range filePath]

/-- In the ranges of other files the findings are the same. -/
def SameElsewhere (policy : RedactionPolicy) (ranges : List RedactableRange)
    (left right : List Finding) : Prop :=
  ∀ range ∈ ranges, policy.hides range = false →
    left.filter range.holds = right.filter range.holds

theorem tryBuild_withoutFiles {engine : Engine} {llm : Bool}
    {policy : RedactionPolicy} {redactor : RedactorInstance}
    (accepted : tryBuild engine llm policy = .ok redactor) :
    tryBuild engine llm policy.withoutFiles = .ok redactor.withoutFiles := by
  obtain ⟨customStrings, compiled, built⟩ := tryBuild_eq_ok accepted
  obtain ⟨valid, _⟩ := check_bind_eq_ok.mp accepted
  obtain ⟨strings, _⟩ := check_bind_eq_ok.mp valid
  apply check_bind_eq_ok.mpr
  constructor
  · exact check_bind_eq_ok.mpr ⟨strings, rfl⟩
  · apply bind_eq_ok.mpr
    refine ⟨customStrings, compiled, ?_⟩
    rw [built]
    rfl

section Detection

variable {environment : Environment} {redactor : RedactorInstance}
  {response : Except Text (List Candidate)} {text : Text}
  {inputKind : InputKind} {sourcePath : Option Text}
  {outcome : DetectionOutcome}

/-- Without findings of a model the second selection changes nothing. -/
theorem findings_eq_merged
    (detected :
      detectInternal environment response redactor text inputKind
        sourcePath = some outcome) :
    outcome.findings =
      redactor.mergedFindings environment text inputKind sourcePath
        (redactor.consideredLlm response text inputKind sourcePath) := by
  rcases detectInternal_selections detected with
    ⟨rulesOnly, findings, _⟩ | ⟨_, findings, _⟩
  · have noLlm :
        redactor.consideredLlm response text inputKind sourcePath = [] := by
      simp [RedactorInstance.consideredLlm, rulesOnly]
    have again :=
      selectNonOverlapping_selected
        (redactor.candidates environment text inputKind sourcePath)
    rw [findings, noLlm]
    unfold RedactorInstance.mergedFindings
    rw [List.append_nil]
    exact (congrArg Prod.fst again).symm
  · exact findings

/-- The model is asked the same with the rules for files and without. -/
theorem exists_outcome_withoutFiles
    (detected :
      detectInternal environment response redactor text inputKind
        sourcePath = some outcome) :
    ∃ plain,
      detectInternal environment response redactor.withoutFiles text
        inputKind sourcePath = some plain := by
  by_cases unredactable :
      (redactableRanges text inputKind sourcePath).isEmpty = true
  · unfold detectInternal
    simp only [unredactable, if_true]
    exact ⟨_, rfl⟩
  · apply exists_outcome
    intro configured
    have alsoConfigured : redactor.llm = true := configured
    simp only [detectInternal, unredactable, alsoConfigured,
      Bool.false_eq_true, if_false, if_true] at detected
    obtain ⟨discovered, asked, _⟩ := Option.bind_eq_some_iff.mp detected
    exact Option.isSome_of_eq_some asked

theorem ofModel_consideredLlm :
    ∀ finding ∈ redactor.consideredLlm response text inputKind sourcePath,
      finding.OfModel := by
  unfold RedactorInstance.consideredLlm
  split
  · split
    · rename_i found discovered
      intro finding member
      obtain ⟨_, _, parsing, listed, _⟩ :=
        exists_parsed_of_discovered discovered member
      obtain ⟨_, built, origins⟩ := origin_parseCandidates parsing
      cases origins finding listed with
      | named candidate kind places start mapped known _ =>
          exact {
            source := rfl
            kind := (llmScored_llmFinding mapped start).kind
            visible := (lookup_build built known).1 }
    · simp
  · simp

variable {found : List Finding}

theorem confined_merged
    (confined :
      ∀ finding ∈ found,
        finding.Confined text
          (redactableRanges text inputKind sourcePath)) :
    ∀ finding ∈
        redactor.mergedFindings environment text inputKind sourcePath found,
      finding.Confined text (redactableRanges text inputKind sourcePath) := by
  intro finding member
  rcases List.mem_append.mp (mem_of_mem_selected member) with
    ofRules | ofModel
  · exact confined_ruleFindings finding ofRules
  · exact confined finding ofModel

/-- The findings in a range come from the candidates in it. -/
theorem merged_filter
    (confined :
      ∀ finding ∈ found,
        finding.Confined text (redactableRanges text inputKind sourcePath))
    {range : RedactableRange}
    (listed : range ∈ redactableRanges text inputKind sourcePath) :
    (redactor.mergedFindings environment text inputKind sourcePath
        found).filter range.holds =
      (selectNonOverlapping
        ((selectNonOverlapping
          ((redactor.candidates environment text inputKind sourcePath).filter
            range.holds)).1 ++
          found.filter range.holds)).1 := by
  have ofRules :
      ∀ finding ∈
          redactor.candidates environment text inputKind sourcePath,
        finding.Confined text
          (redactableRanges text inputKind sourcePath) :=
    confined_candidates
  have ofBoth :
      ∀ finding ∈
          redactor.ruleFindings environment text inputKind sourcePath ++
            found,
        finding.Confined text
          (redactableRanges text inputKind sourcePath) := by
    intro finding member
    rcases List.mem_append.mp member with rule | llm
    · exact confined_ruleFindings finding rule
    · exact confined finding llm
  have rules := selected_filter (parted_redactableRanges.parts listed ofRules)
  unfold RedactorInstance.mergedFindings
  rw [selected_filter (parted_redactableRanges.parts listed ofBoth),
    List.filter_append, ← rules]
  rfl

/-- A named file is redacted whole, whatever the model finds. -/
theorem hidesFiles_merged {llm : Bool} {policy : RedactionPolicy}
    (accepted : tryBuild environment.engine llm policy = .ok redactor)
    (ofModel : ∀ finding ∈ found, finding.OfModel)
    (confined :
      ∀ finding ∈ found,
        finding.Confined text
          (redactableRanges text inputKind sourcePath)) :
    HidesFiles policy text (redactableRanges text inputKind sourcePath)
      (redactor.mergedFindings environment text inputKind sourcePath
        found) := by
  intro range listed nonempty filePath named present
  obtain ⟨customStrings, _, built⟩ := tryBuild_eq_ok accepted
  have files :
      filePath ∈ redactor.compiledPolicy.customFiles := by
    rw [built]
    exact present
  have isFile {finding : Finding} :
      finding ∈
          (redactor.candidates environment text inputKind
            sourcePath).filter range.holds ↔
        finding = fileFinding text range filePath :=
    mem_candidates_filter_of_hidden parted_redactableRanges listed named files
  have ofRules :
      (selectNonOverlapping
        ((redactor.candidates environment text inputKind sourcePath).filter
          range.holds)).1 =
        [fileFinding text range filePath] :=
    selected_eq_file nonempty (isFile.mpr rfl) fun finding member =>
      Or.inl (isFile.mp member)
  have inRange :
      (redactor.mergedFindings environment text inputKind sourcePath
          found).filter range.holds =
        [fileFinding text range filePath] := by
    rw [merged_filter confined listed, ofRules]
    apply selected_eq_file nonempty (by simp)
    intro finding member
    rcases List.mem_append.mp member with rule | llm
    · exact Or.inl (List.mem_singleton.mp rule)
    · obtain ⟨named, inside⟩ := List.mem_filter.mp llm
      exact Or.inr
        ⟨ofModel finding named, (confined finding named).inText, inside⟩
  have parts :=
    parted_redactableRanges.parts listed
      (@confined_merged environment redactor text inputKind sourcePath found
        confined)
  -- whatever meets the range lies in it
  have meeting :
      (redactor.mergedFindings environment text inputKind sourcePath
          found).filter range.meets =
        ((redactor.mergedFindings environment text inputKind sourcePath
          found).filter range.holds).filter range.meets := by
    rw [List.filter_filter]
    apply List.filter_congr
    intro finding member
    have inside := parts.holds_of_meets finding member
    cases meets : range.meets finding with
    | true => simp [inside meets]
    | false => rfl
  rw [meeting, inRange]
  simp [RedactableRange.meets, fileFinding, ruleFinding, nonempty]

/-- In the ranges of other files the rules for files have no part. -/
theorem sameElsewhere_merged {llm : Bool} {policy : RedactionPolicy}
    (accepted : tryBuild environment.engine llm policy = .ok redactor)
    (confined :
      ∀ finding ∈ found,
        finding.Confined text
          (redactableRanges text inputKind sourcePath)) :
    SameElsewhere policy (redactableRanges text inputKind sourcePath)
      (redactor.mergedFindings environment text inputKind sourcePath found)
      (redactor.withoutFiles.mergedFindings environment text inputKind
        sourcePath found) := by
  intro range listed other
  obtain ⟨customStrings, _, built⟩ := tryBuild_eq_ok accepted
  have same :
      (redactor.candidates environment text inputKind sourcePath).filter
          range.holds =
        (redactor.withoutFiles.candidates environment text inputKind
          sourcePath).filter range.holds := by
    rw [built]
    exact candidates_filter_of_other parted_redactableRanges listed other
  rw [merged_filter confined listed, merged_filter confined listed, same]

end Detection

/-- Every range of a file that the policy names is left with one finding, that
of the whole range, whatever else is looked for and whatever a language model
finds; in the ranges of other files the findings are those without the rules
for files. -/
theorem named_files_redacted_whole (environment : Environment) (llm : Bool)
    (policy : RedactionPolicy) (redactor : RedactorInstance)
    (accepted : tryBuild environment.engine llm policy = .ok redactor)
    (text : Text) (inputKind : InputKind) (sourcePath : Option Text) :
    tryBuild environment.engine llm policy.withoutFiles =
        .ok redactor.withoutFiles ∧
    (∀ found : List Finding,
      (∀ finding ∈ found, finding.OfModel ∧
        finding.Confined text
          (redactableRanges text inputKind sourcePath)) →
      HidesFiles policy text (redactableRanges text inputKind sourcePath)
        (redactor.mergedFindings environment text inputKind sourcePath
          found) ∧
      SameElsewhere policy (redactableRanges text inputKind sourcePath)
        (redactor.mergedFindings environment text inputKind sourcePath found)
        (redactor.withoutFiles.mergedFindings environment text inputKind
          sourcePath found)) ∧
    ∀ (response : Except Text (List Candidate)) (outcome : DetectionOutcome),
      detectInternal environment response redactor text inputKind
          sourcePath = some outcome →
      ∃ plain,
        detectInternal environment response redactor.withoutFiles text
            inputKind sourcePath = some plain ∧
        HidesFiles policy text (redactableRanges text inputKind sourcePath)
          outcome.findings ∧
        SameElsewhere policy (redactableRanges text inputKind sourcePath)
          outcome.findings plain.findings := by
  refine ⟨tryBuild_withoutFiles accepted, ?_, ?_⟩
  · intro found ofModel
    exact
      ⟨hidesFiles_merged accepted (fun finding member =>
          (ofModel finding member).1)
        (fun finding member => (ofModel finding member).2),
      sameElsewhere_merged accepted fun finding member =>
        (ofModel finding member).2⟩
  · intro response outcome detected
    obtain ⟨plain, plainDetected⟩ := exists_outcome_withoutFiles detected
    have found :
        redactor.withoutFiles.consideredLlm response text inputKind
            sourcePath =
          redactor.consideredLlm response text inputKind sourcePath := rfl
    refine ⟨plain, plainDetected, ?_, ?_⟩
    · rw [findings_eq_merged detected]
      exact hidesFiles_merged accepted ofModel_consideredLlm
        confined_consideredLlm
    · rw [findings_eq_merged detected, findings_eq_merged plainDetected,
        found]
      exact sameElsewhere_merged accepted confined_consideredLlm

def sampleNamedPolicy : RedactionPolicy where
  rules := { person := true }
  customFiles := [{ path := lit "s" }]

def sampleNamedRedactor : RedactorInstance where
  llm := true
  compiledPolicy :=
    { policy := sampleNamedPolicy
      customStrings :=
        { exact := { set := none, rules := [] }
          contains := { set := none, rules := [] }
          regex := [] }
      customFiles := [lit "s"] }

/-- The whole file is hidden, and the name that the model finds in it has no
finding of its own. -/
theorem named_files_redacted_whole_around_name :
    (sampleNamedRedactor.mergedFindings sampleLineEnvironment sampleLine .text
        (some (lit "s")) [llmFinding .person sampleName 7]).filter
          (RedactableRange.meets
            { start := 0
              finish := byteLen sampleLine
              filePath := some (lit "s") }) =
      [fileFinding sampleLine
        { start := 0
          finish := byteLen sampleLine
          filePath := some (lit "s") }
        (lit "s")] := by
  have whole :=
    (named_files_redacted_whole sampleLineEnvironment true sampleNamedPolicy
      sampleNamedRedactor rfl sampleLine .text (some (lit "s"))).2.1
      [llmFinding .person sampleName 7]
      (by
        intro finding member
        rw [List.mem_singleton.mp member]
        exact
          ⟨⟨rfl, Or.inl rfl, by decide⟩,
            by
              have placed :
                  slice? sampleLine 7 12 = some sampleName.value := by
                decide +kernel
              exact placed,
            _, List.mem_singleton_self _, by decide, by decide⟩)
  exact
    whole.1 _ (List.mem_singleton_self _) (by decide) (lit "s") rfl
      (by decide)

end Redactor
