import Redactor.Detect.Selection

/-!
# The order of the detectors

The sort leaves candidates of different kinds in the order in which they were
found when their ranges and scores are the same.  Whichever of two such
candidates comes first, the same kind is left with the range.
-/

namespace Redactor

open Utf8 Fallible

theorem containmentPriority_injective {left right : FindingKind}
    (same : left.containmentPriority = right.containmentPriority) :
    left = right := by
  cases left <;> cases right <;> first | rfl | exact absurd same (by decide)

/-- The same range with the same score. -/
structure Tied (left right : Finding) : Prop where
  start : left.start = right.start
  finish : left.finish = right.finish
  score : left.score = right.score

theorem tied_of_precedes {left right : Finding}
    (properLeft : left.start < left.finish)
    (properRight : right.start < right.finish)
    (before : Precedes left right) (after : Precedes right left) :
    Tied left right := by
  rw [precedes_iff] at before after
  exact ⟨by omega, by omega, by omega⟩

section Tie

variable {held left right : Finding}

theorem overlaps_of_tied (tied : Tied left right) :
    overlaps held left = overlaps held right := by
  simp only [overlaps, tied.start, tied.finish]

theorem nested_of_tied (tied : Tied left right) :
    nested held left = nested held right := by
  simp only [nested, tied.start, tied.finish]

theorem overlaps_tied (tied : Tied left right)
    (proper : left.start < left.finish) :
    overlaps left right = true := by
  simp only [overlaps, Bool.and_eq_true, decide_eq_true_eq]
  rw [← tied.start, ← tied.finish]
  exact ⟨proper, proper⟩

/-- Between two candidates that tie, the kind decides. -/
theorem preferRight_tied (tied : Tied left right)
    (different : left.kind ≠ right.kind) :
    preferRight left right =
      decide
        (left.kind.containmentPriority <
          right.kind.containmentPriority) := by
  have priorities :
      left.kind.containmentPriority ≠ right.kind.containmentPriority :=
    fun same => different (containmentPriority_injective same)
  have inside : nested left right = true := by
    simp [nested, tied.start, tied.finish]
  rw [preferRight_eq, inside]
  simp [priorities]

/-- A finding that yields to the one of lower priority yields to the other one
that ties with it. -/
theorem preferRight_of_tied (tied : Tied left right)
    (lower :
      left.kind.containmentPriority < right.kind.containmentPriority)
    (preferred : preferRight held left = true) :
    preferRight held right = true := by
  rw [preferRight_eq] at preferred ⊢
  rw [← nested_of_tied tied, ← tied.score, ← tied.start, ← tied.finish]
  by_cases inside : nested held left = true
  · by_cases sameLeft :
        held.kind.containmentPriority = left.kind.containmentPriority
    · have sameRight :
          held.kind.containmentPriority ≠
            right.kind.containmentPriority := by omega
      simp only [inside, Bool.true_and, bne_iff_ne, ne_eq, sameRight,
        not_false_eq_true, if_true, decide_eq_true_eq]
      omega
    · simp only [inside, Bool.true_and, bne_iff_ne, ne_eq, sameLeft,
        not_false_eq_true, if_true, decide_eq_true_eq] at preferred
      have sameRight :
          held.kind.containmentPriority ≠
            right.kind.containmentPriority := by omega
      simp only [inside, Bool.true_and, bne_iff_ne, ne_eq, sameRight,
        not_false_eq_true, if_true, decide_eq_true_eq]
      omega
  · simpa only [inside, Bool.false_and, Bool.false_eq_true,
      if_false] using preferred

end Tie

/-- Two candidates that tie and are of different kinds change places. -/
theorem interchangeable_of_lower {left right : Finding}
    (tied : Tied left right) (proper : left.start < left.finish)
    (lower :
      left.kind.containmentPriority < right.kind.containmentPriority) :
    LastPlace.Interchangeable overlaps preferRight left right := by
  have different : left.kind ≠ right.kind := by
    intro same
    rw [same] at lower
    exact absurd lower (Nat.lt_irrefl _)
  have backwards : Tied right left :=
    ⟨tied.start.symm, tied.finish.symm, tied.score.symm⟩
  have meets := overlaps_tied tied proper
  have meetsBack : overlaps right left = true := by
    rw [overlaps_comm]
    exact meets
  have gains : preferRight left right = true := by
    rw [preferRight_tied tied different]
    exact decide_eq_true lower
  have holds : preferRight right left = false := by
    rw [preferRight_tied backwards (Ne.symm different)]
    exact decide_eq_false (Nat.lt_asymm lower)
  intro rest
  constructor
  · simp [LastPlace.select, LastPlace.selectFrom, meets, meetsBack, gains,
      holds]
  · intro held
    have alike := @overlaps_of_tied held left right tied
    by_cases reached : overlaps held left = true
    · rw [reached] at alike
      by_cases preferred : preferRight held left = true
      · have preferredRight := preferRight_of_tied tied lower preferred
        simp [LastPlace.selectFrom, reached, ← alike, meets, meetsBack, gains,
          holds, preferred, preferredRight]
      · by_cases preferredRight : preferRight held right = true
        · simp [LastPlace.selectFrom, reached, ← alike, meetsBack, holds,
            preferred, preferredRight]
        · simp [LastPlace.selectFrom, reached, ← alike, preferred,
            preferredRight]
    · have apart := Bool.eq_false_iff.mpr reached
      rw [apart] at alike
      simp [LastPlace.selectFrom, apart, ← alike, meets, meetsBack, gains,
        holds]

theorem interchangeable_comm {left right : Finding}
    (interchange :
      LastPlace.Interchangeable overlaps preferRight left right) :
    LastPlace.Interchangeable overlaps preferRight right left := by
  intro rest
  have same := interchange rest
  exact ⟨same.1.symm, fun held => (same.2 held).symm⟩

/-! ## What the selection looks at -/

/-- The finding without its texts; its score is kept. -/
def Finding.bare (finding : Finding) : Finding where
  kind := finding.kind
  source := .llm
  matchText := []
  normalizedKey := []
  confidence := finding.source.bonus + finding.confidence
  start := finding.start
  finish := finding.finish

@[simp]
theorem Finding.score_bare (finding : Finding) :
    finding.bare.score = finding.score := by
  simp only [Finding.score, Finding.bare, FindingSource.bonus]
  omega

theorem overlaps_bare (left right : Finding) :
    overlaps left right = overlaps left.bare right.bare := rfl

theorem preferRight_bare (left right : Finding) :
    preferRight left right = preferRight left.bare right.bare := by
  simp only [preferRight, Finding.score_bare]
  rfl

theorem precedes_bare (left right : Finding) :
    Precedes left right ↔ Precedes left.bare right.bare := by
  simp only [precedes_iff, Finding.score_bare]
  rfl

/-- Of one kind, candidates that tie look the same. -/
theorem bare_eq_of_tied {left right : Finding}
    (tied : Tied left.bare right.bare) (kind : left.kind = right.kind) :
    left.bare = right.bare := by
  have score := tied.score
  rw [Finding.score_bare, Finding.score_bare] at score
  simp only [Finding.score, kind] at score
  have confidence :
      left.source.bonus + left.confidence =
        right.source.bonus + right.confidence := by omega
  simp only [Finding.bare, kind, confidence, Finding.mk.injEq, true_and]
  exact ⟨tied.start, tied.finish⟩

/-- Candidates between which the sort does not decide change places. -/
theorem interchangeable_of_precedes {left right : Finding}
    (properLeft : left.start < left.finish)
    (properRight : right.start < right.finish)
    (before : Precedes left.bare right.bare)
    (after : Precedes right.bare left.bare) :
    LastPlace.Interchangeable overlaps preferRight left.bare right.bare := by
  have tied : Tied left.bare right.bare :=
    tied_of_precedes properLeft properRight before after
  have backwards : Tied right.bare left.bare :=
    tied_of_precedes properRight properLeft after before
  by_cases kind : left.kind = right.kind
  · rw [bare_eq_of_tied tied kind]
    exact fun rest => ⟨rfl, fun held => rfl⟩
  · have priorities :
        left.kind.containmentPriority ≠ right.kind.containmentPriority :=
      fun same => kind (containmentPriority_injective same)
    rcases Nat.lt_or_gt_of_ne priorities with lower | higher
    · exact interchangeable_of_lower tied properLeft lower
    · exact interchangeable_comm
        (interchangeable_of_lower backwards properRight higher)

theorem selected_map_bare (findings : List Finding) :
    (selectNonOverlapping findings).1.map Finding.bare =
      LastPlace.select overlaps preferRight
        ((sortCandidates findings).map Finding.bare) := by
  rw [selectNonOverlapping_eq]
  exact LastPlace.map_select overlaps_bare preferRight_bare _

theorem sorted_map_bare (findings : List Finding) :
    ((sortCandidates findings).map Finding.bare).Pairwise Precedes := by
  rw [List.pairwise_map]
  apply (sorted_sortCandidates findings).imp
  intro left right precedes
  exact (precedes_bare left right).mp precedes

/-- Two lists of the same candidates, apart from their texts, are selected
from alike. -/
theorem selected_bare_eq_of_perm {left right : List Finding}
    (proper : ∀ finding ∈ right, finding.start < finding.finish)
    (permuted : (left.map Finding.bare).Perm (right.map Finding.bare)) :
    (selectNonOverlapping left).1.map Finding.bare =
      (selectNonOverlapping right).1.map Finding.bare := by
  rw [selected_map_bare, selected_map_bare]
  have sortedPerm :
      ((sortCandidates left).map Finding.bare).Perm
        ((sortCandidates right).map Finding.bare) :=
    (((List.perm_insertionSort Precedes left).map Finding.bare).trans
      permuted).trans
      ((List.perm_insertionSort Precedes right).map Finding.bare).symm
  apply
    LastPlace.select_eq_of_perm _ (sorted_map_bare left)
      (sorted_map_bare right) sortedPerm
  intro one first other second before after
  obtain ⟨ofOne, memberOne, isOne⟩ := List.mem_map.mp first
  obtain ⟨ofOther, memberOther, isOther⟩ := List.mem_map.mp second
  rw [← isOne, ← isOther] at before after ⊢
  exact
    interchangeable_of_precedes
      (proper ofOne (mem_sortCandidates.mp memberOne))
      (proper ofOther (mem_sortCandidates.mp memberOther)) before after

/-- What is redacted, and under which kind. -/
def Finding.triple (finding : Finding) : FindingKind × Nat × Nat :=
  (finding.kind, finding.start, finding.finish)

theorem map_triple_of_bare {left right : List Finding}
    (alike : left.map Finding.bare = right.map Finding.bare) :
    left.map Finding.triple = right.map Finding.triple := by
  have through : Finding.triple = Finding.triple ∘ Finding.bare := rfl
  rw [through, ← List.map_map, ← List.map_map, alike]

/-- The same kinds are selected for the same ranges whatever the order of the
candidates, and likewise when the candidates of a language model are added to
those selected from the rules. -/
theorem selection_order_independent (left right : List Finding)
    (permuted : left.Perm right)
    (proper : ∀ finding ∈ left, finding.start < finding.finish) :
    (selectNonOverlapping left).1.map Finding.triple =
        (selectNonOverlapping right).1.map Finding.triple ∧
      ∀ llm : List Finding,
        (∀ finding ∈ llm, finding.start < finding.finish) →
        (selectNonOverlapping
            ((selectNonOverlapping left).1 ++ llm)).1.map Finding.triple =
          (selectNonOverlapping
            ((selectNonOverlapping right).1 ++ llm)).1.map
              Finding.triple := by
  have properRight :
      ∀ finding ∈ right, finding.start < finding.finish :=
    fun finding member => proper finding (permuted.mem_iff.mpr member)
  have alike :=
    selected_bare_eq_of_perm properRight (permuted.map Finding.bare)
  constructor
  · exact map_triple_of_bare alike
  · intro llm properLlm
    apply map_triple_of_bare
    apply selected_bare_eq_of_perm
    · intro finding member
      rcases List.mem_append.mp member with ofRules | ofModel
      · exact properRight finding (mem_of_mem_selected ofRules)
      · exact properLlm finding ofModel
    · rw [List.map_append, List.map_append, alike]

/-- A secret and a custom string with the same bytes and the same score. -/
def sampleTie : List Finding :=
  [sampleCandidate .secret (lit "token") 90 0,
    sampleCandidate .customString (lit "token") 95 0]

/-- The secret is selected in either order. -/
theorem selection_order_independent_tie :
    (selectNonOverlapping sampleTie).1.map Finding.triple =
        (selectNonOverlapping sampleTie.reverse).1.map Finding.triple ∧
      ∀ llm : List Finding,
        (∀ finding ∈ llm, finding.start < finding.finish) →
        (selectNonOverlapping
            ((selectNonOverlapping sampleTie).1 ++ llm)).1.map
              Finding.triple =
          (selectNonOverlapping
            ((selectNonOverlapping sampleTie.reverse).1 ++ llm)).1.map
              Finding.triple :=
  selection_order_independent sampleTie sampleTie.reverse
    (List.reverse_perm sampleTie).symm (by decide)

end Redactor
