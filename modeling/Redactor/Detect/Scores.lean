import Redactor.Detect.CustomStrings
import Redactor.Detect.LlmOrigins

/-!
# Scores of the two sources

Every rule scores its findings at least as high as any finding of a language
model scores, so that `preferRight` decides between them by their kinds and by
ties.
-/

namespace Redactor

open Utf8 Fallible

/-- What a candidate of a language model can come to. -/
structure LlmScored (finding : Finding) : Prop where
  kind : finding.kind = .person ∨ finding.kind = .organization
  score : finding.score ≤ 150

theorem llmScored_llmFinding {rules : RedactionRules} {kind : FindingKind}
    {candidate : Candidate} (mapped : mapKind candidate.kind rules = some kind)
    (start : Nat) :
    LlmScored (llmFinding kind candidate start) := by
  have kinds : kind = .person ∨ kind = .organization := by
    unfold mapKind at mapped
    split at mapped
    · exact Or.inl (Option.some.inj mapped).symm
    · split at mapped
      · exact Or.inr (Option.some.inj mapped).symm
      · cases mapped
  have confidence : min (candidate.confidence.getD 60) 100 ≤ 100 :=
    Nat.min_le_right _ _
  have priority : kind.priority ≤ 50 := by
    rcases kinds with person | organization
    · rw [person]
      decide
    · rw [organization]
      decide
  refine ⟨kinds, ?_⟩
  show kind.priority + 0 + min (candidate.confidence.getD 60) 100 ≤ 150
  omega

/-- One of the two ranges contains the other. -/
def nested (left right : Finding) : Bool :=
  (decide (left.start ≤ right.start) &&
      decide (right.finish ≤ left.finish)) ||
    (decide (right.start ≤ left.start) &&
      decide (left.finish ≤ right.finish))

theorem nested_comm (left right : Finding) :
    nested left right = nested right left := by
  simp only [nested, Bool.or_comm]

theorem preferRight_eq (left right : Finding) :
    preferRight left right =
      if nested left right &&
          left.kind.containmentPriority != right.kind.containmentPriority then
        decide
          (left.kind.containmentPriority < right.kind.containmentPriority)
      else
        decide (left.score < right.score) ||
          (right.score == left.score &&
            decide (left.finish - left.start < right.finish - right.start)) :=
  rfl

end Redactor
