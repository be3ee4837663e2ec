import Redactor.Detect.LlmCoverage
import Redactor.Library.LastPlaceRuns

/-!
# The selection as a whole

What is selected is a list in the order of the text, without repetitions, and
a second selection leaves it as it is.  So a language model that finds nothing
has no part in the result.
-/

namespace Redactor

open Utf8 Fallible

theorem sorted_sortCandidates (findings : List Finding) :
    (sortCandidates findings).Pairwise Precedes :=
  List.pairwise_insertionSort Precedes findings

theorem started_sortCandidates (findings : List Finding) :
    (sortCandidates findings).Pairwise
      fun left right => left.start ≤ right.start := by
  apply (sorted_sortCandidates findings).imp
  intro left right precedes
  have cases := precedes_iff.mp precedes
  omega

/-- The loop counts what the last place drops. -/
theorem foldl_selectStep_dropped (previous : Finding)
    (selected : List Finding) (dropped : Nat) (rest : List Finding) :
    (rest.foldl selectStep (previous :: selected, dropped)).2 =
      dropped +
        LastPlace.droppedFrom overlaps preferRight previous rest := by
  induction rest generalizing previous selected dropped with
  | nil =>
      rfl
  | cons finding rest inductionHypothesis =>
      unfold LastPlace.droppedFrom
      simp only [List.foldl_cons, selectStep]
      by_cases overlapping : overlaps previous finding = true
      · by_cases preferred : preferRight previous finding = true
        · simp only [overlapping, preferred, if_true]
          exact inductionHypothesis finding selected dropped
        · simp only [overlapping, preferred, if_true, Bool.false_eq_true,
            if_false]
          rw [inductionHypothesis previous selected (dropped + 1)]
          omega
      · simp only [overlapping, Bool.false_eq_true, if_false]
        exact inductionHypothesis finding (previous :: selected) dropped

/-- The selection is made in one reading; the last sort finds its result in
order. -/
theorem selectNonOverlapping_eq (findings : List Finding) :
    selectNonOverlapping findings =
      (LastPlace.select overlaps preferRight (sortCandidates findings),
        LastPlace.dropped overlaps preferRight
          (sortCandidates findings)) := by
  apply Prod.ext
  · rw [selected_eq]
    have kept :=
      @LastPlace.select_sublist _ overlaps preferRight
        (sortCandidates findings)
    exact ((started_sortCandidates findings).sublist kept).insertionSort_eq
  · unfold selectNonOverlapping LastPlace.dropped
    cases sortCandidates findings with
    | nil =>
        rfl
    | cons first rest =>
        simp only [List.foldl_cons, selectStep]
        rw [foldl_selectStep_dropped, Nat.zero_add]

/-- No finding is invented or returned twice. -/
theorem selected_subperm (findings : List Finding) :
    (selectNonOverlapping findings).1.Subperm findings := by
  rw [selectNonOverlapping_eq]
  have kept :=
    @LastPlace.select_sublist _ overlaps preferRight (sortCandidates findings)
  exact kept.subperm.trans (List.perm_insertionSort Precedes findings).subperm

theorem isChain_selected (findings : List Finding) :
    (selectNonOverlapping findings).1.IsChain (overlaps · · = false) := by
  rw [selectNonOverlapping_eq]
  exact
    @LastPlace.isChain_select _ _ _ Finding.start Finding.finish preferRight _
      (started_sortCandidates findings)

theorem sortCandidates_selected (findings : List Finding) :
    sortCandidates (selectNonOverlapping findings).1 =
      (selectNonOverlapping findings).1 := by
  rw [selectNonOverlapping_eq]
  have kept :=
    @LastPlace.select_sublist _ overlaps preferRight (sortCandidates findings)
  exact ((sorted_sortCandidates findings).sublist kept).insertionSort_eq

/-- A second selection leaves the findings as they are. -/
theorem selectNonOverlapping_selected (findings : List Finding) :
    selectNonOverlapping (selectNonOverlapping findings).1 =
      ((selectNonOverlapping findings).1, 0) := by
  rw [selectNonOverlapping_eq (selectNonOverlapping findings).1,
    sortCandidates_selected,
    LastPlace.select_eq_self (isChain_selected findings),
    LastPlace.dropped_eq_zero (isChain_selected findings)]

/-! ## The selections of a detection -/

/-- The candidates of the language model that enter the second selection. -/
def RedactorInstance.consideredLlm (redactor : RedactorInstance)
    (response : Except Text (List Candidate)) (text : Text)
    (inputKind : InputKind) (sourcePath : Option Text) : List Finding :=
  if redactor.llm then
    match
      discoverCandidates response text redactor.compiledPolicy.policy.rules
        (redactableRanges text inputKind sourcePath)
    with
    | some (.ok found) => found
    | _ => []
  else
    []

/-- The request fails, or its answer names nothing that is in the ranges. -/
def LlmFindsNothing (redactor : RedactorInstance)
    (response : Except Text (List Candidate)) (text : Text)
    (ranges : List RedactableRange) : Prop :=
  discoverCandidates response text redactor.compiledPolicy.policy.rules
      ranges = some (.ok []) ∨
    ∃ message,
      discoverCandidates response text redactor.compiledPolicy.policy.rules
        ranges = some (.error message)

/-- The same redactor without its language model. -/
def RedactorInstance.withoutLlm (redactor : RedactorInstance) :
    RedactorInstance :=
  { redactor with llm := false }

section Outcomes

variable {environment : Environment} {redactor : RedactorInstance}
  {response : Except Text (List Candidate)} {text : Text}
  {inputKind : InputKind} {sourcePath : Option Text}
  {outcome : DetectionOutcome}

theorem candidates_eq_nil
    (unredactable : redactableRanges text inputKind sourcePath = []) :
    redactor.candidates environment text inputKind sourcePath = [] := by
  simp [RedactorInstance.candidates, policyCandidates, unredactable,
    detectCustomFiles]

theorem consideredLlm_eq_nil
    (unredactable : redactableRanges text inputKind sourcePath = []) :
    redactor.consideredLlm response text inputKind sourcePath = [] := by
  unfold RedactorInstance.consideredLlm
  rw [unredactable]
  split
  · split
    · rename_i found discovered
      exact discoverCandidates_nil discovered
    · rfl
  · rfl

/-- A detection is one selection, or two when a language model is
configured. -/
theorem detectInternal_selections
    (detected :
      detectInternal environment response redactor text inputKind
        sourcePath = some outcome) :
    (redactor.llm = false ∧
      outcome.findings =
        redactor.ruleFindings environment text inputKind sourcePath ∧
      outcome.stats.droppedFindings =
        (selectNonOverlapping
          (redactor.candidates environment text inputKind sourcePath)).2) ∨
    (redactor.llm = true ∧
      outcome.findings =
        (selectNonOverlapping
          (redactor.ruleFindings environment text inputKind sourcePath ++
            redactor.consideredLlm response text inputKind sourcePath)).1 ∧
      outcome.stats.droppedFindings =
        (selectNonOverlapping
          (redactor.candidates environment text inputKind sourcePath)).2 +
        (selectNonOverlapping
          (redactor.ruleFindings environment text inputKind sourcePath ++
            redactor.consideredLlm response text inputKind
              sourcePath)).2) := by
  by_cases unredactable : redactableRanges text inputKind sourcePath = []
  · have noCandidates :=
      @candidates_eq_nil environment redactor text inputKind sourcePath
        unredactable
    have noLlm :=
      @consideredLlm_eq_nil redactor response text inputKind sourcePath
        unredactable
    have noRules :
        redactor.ruleFindings environment text inputKind sourcePath = [] :=
      congrArg (fun candidates => (selectNonOverlapping candidates).1)
        noCandidates
    simp only [detectInternal, unredactable, List.isEmpty_nil, if_true,
      Option.some.injEq] at detected
    rw [noCandidates, noLlm, noRules, ← detected]
    cases redactor.llm
    · exact Or.inl ⟨rfl, rfl, rfl⟩
    · exact Or.inr ⟨rfl, rfl, rfl⟩
  · have present := (List.isEmpty_eq_false_iff).mpr unredactable
    by_cases configured : redactor.llm = true
    · right
      refine ⟨configured, ?_⟩
      simp only [detectInternal, present, configured, Bool.false_eq_true,
        if_false, if_true] at detected
      obtain ⟨discovered, asked, last⟩ :=
        Option.bind_eq_some_iff.mp detected
      unfold RedactorInstance.consideredLlm
      rw [if_pos configured, asked]
      cases discovered with
      | ok found =>
          cases last
          exact ⟨rfl, rfl⟩
      | error message =>
          cases last
          simp only [List.append_nil]
          exact ⟨rfl, rfl⟩
    · left
      have rulesOnly := Bool.eq_false_iff.mpr configured
      refine ⟨rulesOnly, ?_⟩
      simp only [detectInternal, present, rulesOnly, Bool.false_eq_true,
        if_false, Option.some.injEq] at detected
      rw [← detected]
      exact ⟨rfl, rfl⟩

/-- A detection ends unless the search for the named values aborts. -/
theorem exists_outcome
    (searched :
      redactor.llm = true →
        (discoverCandidates response text
          redactor.compiledPolicy.policy.rules
          (redactableRanges text inputKind sourcePath)).isSome = true) :
    ∃ outcome,
      detectInternal environment response redactor text inputKind
        sourcePath = some outcome := by
  unfold detectInternal
  by_cases unredactable :
      (redactableRanges text inputKind sourcePath).isEmpty = true
  · simp only [unredactable, if_true]
    exact ⟨_, rfl⟩
  · by_cases configured : redactor.llm = true
    · obtain ⟨discovered, asked⟩ :=
        Option.isSome_iff_exists.mp (searched configured)
      simp only [unredactable, configured, asked, Bool.false_eq_true,
        if_false, if_true, Option.bind_eq_bind, Option.bind_some]
      exact ⟨_, rfl⟩
    · simp only [unredactable, configured, Bool.false_eq_true, if_false]
      exact ⟨_, rfl⟩

theorem consideredLlm_of_finds_nothing
    (nothing :
      LlmFindsNothing redactor response text
        (redactableRanges text inputKind sourcePath)) :
    redactor.consideredLlm response text inputKind sourcePath = [] := by
  unfold RedactorInstance.consideredLlm
  rcases nothing with empty | ⟨message, failed⟩
  · simp [empty]
  · simp [failed]

/-- A language model that finds nothing has no part in the result. -/
theorem detectInternal_of_finds_nothing
    (nothing :
      LlmFindsNothing redactor response text
        (redactableRanges text inputKind sourcePath)) :
    ∃ outcome ruleOutcome,
      detectInternal environment response redactor text inputKind
          sourcePath = some outcome ∧
      detectInternal environment response redactor.withoutLlm text inputKind
          sourcePath = some ruleOutcome ∧
      outcome.findings = ruleOutcome.findings ∧
      outcome.stats.droppedFindings =
        ruleOutcome.stats.droppedFindings := by
  obtain ⟨ruleOutcome, ruleDetected⟩ :=
    @exists_outcome environment redactor.withoutLlm response text inputKind
      sourcePath (by simp [RedactorInstance.withoutLlm])
  have answered :
      (discoverCandidates response text redactor.compiledPolicy.policy.rules
        (redactableRanges text inputKind sourcePath)).isSome = true := by
    rcases nothing with empty | ⟨message, failed⟩
    · rw [empty]
      rfl
    · rw [failed]
      rfl
  obtain ⟨outcome, detected⟩ :=
    @exists_outcome environment redactor response text inputKind sourcePath
      fun _ => answered
  refine ⟨outcome, ruleOutcome, detected, ruleDetected, ?_⟩
  have ofRules :
      ruleOutcome.findings =
          redactor.ruleFindings environment text inputKind sourcePath ∧
        ruleOutcome.stats.droppedFindings =
          (selectNonOverlapping
            (redactor.candidates environment text inputKind
              sourcePath)).2 := by
    rcases detectInternal_selections ruleDetected with
      ⟨_, findings, dropped⟩ | ⟨configured, _⟩
    · exact ⟨findings, dropped⟩
    · cases configured
  rw [ofRules.1, ofRules.2]
  rcases detectInternal_selections detected with
    ⟨_, findings, dropped⟩ | ⟨_, findings, dropped⟩
  · exact ⟨findings, dropped⟩
  · have again :
        selectNonOverlapping
            (redactor.ruleFindings environment text inputKind sourcePath) =
          (redactor.ruleFindings environment text inputKind sourcePath, 0) :=
      selectNonOverlapping_selected
        (redactor.candidates environment text inputKind sourcePath)
    rw [consideredLlm_of_finds_nothing nothing, List.append_nil,
      again] at findings dropped
    exact ⟨findings, dropped⟩

end Outcomes

/-- A later finding begins after the earlier one has ended. -/
def Follows (left right : Finding) : Prop :=
  left.start < right.start ∧ left.finish ≤ right.start

instance : DecidableRel Follows :=
  fun left right =>
    inferInstanceAs
      (Decidable (left.start < right.start ∧ left.finish ≤ right.start))

theorem pairwise_follows_selected {findings : List Finding}
    (proper : ∀ finding ∈ findings, finding.start < finding.finish) :
    (selectNonOverlapping findings).1.Pairwise Follows := by
  apply (pairwise_selected proper).imp_of_mem
  intro left right selectedLeft _ ended
  have nonempty := proper left (mem_of_mem_selected selectedLeft)
  exact ⟨Nat.lt_of_lt_of_le nonempty ended, ended⟩

/-- The selection is drawn from its candidates, in order and disjoint, and is
its own selection; a language model that finds nothing changes neither the
findings nor the number of those dropped. -/
theorem selection_sound_and_idempotent :
    (∀ findings : List Finding,
      (∀ finding ∈ findings, finding.start < finding.finish) →
      (selectNonOverlapping findings).1.Subperm findings ∧
      (selectNonOverlapping findings).1.Pairwise Follows ∧
      selectNonOverlapping (selectNonOverlapping findings).1 =
        ((selectNonOverlapping findings).1, 0)) ∧
    ∀ (environment : Environment) (redactor : RedactorInstance)
      (response : Except Text (List Candidate)) (text : Text)
      (inputKind : InputKind) (sourcePath : Option Text),
      redactor.llm = true →
      LlmFindsNothing redactor response text
        (redactableRanges text inputKind sourcePath) →
      ∃ outcome ruleOutcome,
        detectInternal environment response redactor text inputKind
            sourcePath = some outcome ∧
        detectInternal environment response redactor.withoutLlm text
            inputKind sourcePath = some ruleOutcome ∧
        outcome.findings = ruleOutcome.findings ∧
        outcome.stats.droppedFindings =
          ruleOutcome.stats.droppedFindings := by
  constructor
  · intro findings proper
    exact ⟨selected_subperm findings, pairwise_follows_selected proper,
      selectNonOverlapping_selected findings⟩
  · intro environment redactor response text inputKind sourcePath _ nothing
    exact detectInternal_of_finds_nothing nothing

/-- The custom string in the address, and the sample line when the request to
the model times out. -/
theorem selection_sound_and_idempotent_sample :
    selectNonOverlapping (selectNonOverlapping sampleNested).1 =
        ((selectNonOverlapping sampleNested).1, 0) ∧
      ∃ outcome ruleOutcome,
        detectInternal sampleLineEnvironment (.error (lit "timed out"))
            (sampleLineRedactor true { person := true } .text) sampleLine
            .text none = some outcome ∧
        detectInternal sampleLineEnvironment (.error (lit "timed out"))
            (sampleLineRedactor true
              { person := true } .text).withoutLlm sampleLine .text none =
          some ruleOutcome ∧
        outcome.findings = ruleOutcome.findings ∧
        outcome.stats.droppedFindings =
          ruleOutcome.stats.droppedFindings :=
  ⟨(selection_sound_and_idempotent.1 sampleNested (by decide)).2.2,
    selection_sound_and_idempotent.2 sampleLineEnvironment
      (sampleLineRedactor true { person := true } .text)
      (.error (lit "timed out")) sampleLine .text none rfl
      (Or.inr ⟨lit "timed out", by decide +kernel⟩)⟩

end Redactor
