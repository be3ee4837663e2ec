import Redactor.Detect.Overlap
import Redactor.Library.LastPlaceTurns

/-!
# Bytes that the selection leaves covered

A byte is covered when it lies in a returned finding.  The selection keeps the
bytes of the candidates that survive it: those that get the last place and are
not replaced there.
-/

namespace Redactor

open Utf8

/-- A byte of the finding's range. -/
def Finding.Covers (finding : Finding) (byte : Nat) : Prop :=
  finding.start ≤ byte ∧ byte < finding.finish

instance (finding : Finding) (byte : Nat) : Decidable (finding.Covers byte) :=
  inferInstanceAs (Decidable (_ ∧ _))

def CoveredBy (findings : List Finding) (byte : Nat) : Prop :=
  ∃ finding ∈ findings, finding.Covers byte

instance (findings : List Finding) (byte : Nat) :
    Decidable (CoveredBy findings byte) :=
  inferInstanceAs (Decidable (∃ finding ∈ findings, finding.Covers byte))

/-- The finding in the last place does not overlap this candidate, or gives way
to it, and no candidate that overlaps it from then on is preferred to it. -/
def Survives (findings : List Finding) (finding : Finding) : Prop :=
  ∃ before after,
    sortCandidates findings = before ++ finding :: after ∧
    LastPlace.takes overlaps preferRight before finding = true ∧
    LastPlace.keeps overlaps preferRight finding after = true

/-- A surviving candidate has the byte. -/
def HeldAt (findings : List Finding) (byte : Nat) : Prop :=
  ∃ finding, Survives findings finding ∧ finding.Covers byte

theorem covered_selected_iff {findings : List Finding} {byte : Nat} :
    CoveredBy (selectNonOverlapping findings).1 byte ↔
      HeldAt findings byte := by
  constructor
  · intro covered
    obtain ⟨finding, selected, covers⟩ := covered
    exact ⟨finding, mem_selected_iff.mp selected, covers⟩
  · intro held
    obtain ⟨finding, survives, covers⟩ := held
    exact ⟨finding, mem_selected_iff.mpr survives, covers⟩

/-- The candidate is preferred to every other one that it overlaps, whichever
of the two comes first. -/
def Prevails (findings : List Finding) (finding : Finding) : Prop :=
  ∀ other ∈ findings, other ≠ finding → overlaps finding other = true →
    (Precedes other finding → preferRight other finding = true) ∧
    (Precedes finding other → preferRight finding other = false)

theorem preferRight_self (finding : Finding) :
    preferRight finding finding = false := by
  simp [preferRight]

/-- A candidate that wins against all others survives. -/
theorem survives_of_prevails {findings : List Finding} {finding : Finding}
    (candidate : finding ∈ findings)
    (prevails : Prevails findings finding) :
    Survives findings finding := by
  have listed := mem_sortCandidates.mpr candidate
  obtain ⟨before, after, shape, first⟩ := List.eq_append_cons_of_mem listed
  have sorted := List.pairwise_insertionSort Precedes findings
  have shape' :
      findings.insertionSort Precedes = before ++ finding :: after := shape
  rw [shape', List.pairwise_append] at sorted
  obtain ⟨_, sortedAfter, sortedAcross⟩ := sorted
  have isCandidate :
      ∀ other ∈ before ++ finding :: after, other ∈ findings := by
    intro other member
    rw [← shape] at member
    exact mem_sortCandidates.mp member
  refine ⟨before, after, shape, ?_, ?_⟩
  · apply LastPlace.takes_of_forall
    intro earlier member clashes
    have different : earlier ≠ finding := by
      intro same
      rw [same] at member
      exact first member
    have won :=
      prevails earlier (isCandidate earlier (by simp [member])) different
        (by rw [overlaps_comm]; exact clashes)
    exact won.1 (sortedAcross earlier member finding (by simp))
  · apply LastPlace.keeps_of_forall
    intro later member clashes
    by_cases same : later = finding
    · rw [same]
      exact preferRight_self finding
    · have won :=
        prevails later (isCandidate later (by simp [member])) same clashes
      exact won.2 ((List.pairwise_cons.mp sortedAfter).1 later member)

end Redactor
