import Redactor.Replace.Copies
import Redactor.Library.Replacing

/-!
# The candidates of a scan

Every range that the scanner visits is a candidate: a marker with the text up
to the first suffix behind it, or up to the byte limit when no suffix follows.
The visited ranges follow one another, and every marker of the text starts
inside one of them.
-/

namespace Redactor

open Utf8

/-- What the scanner takes for a token: a marker and what follows it, to the
first suffix or, when there is none, to the byte limit. -/
inductive IsCandidate (text : Text) : Nat × Nat → Prop
  | closed {before body remaining : Text} :
      text =
          before ++ (tokenPrefix ++ (body ++ (tokenSuffix ++ remaining))) →
      NotBefore tokenSuffix (body ++ (tokenSuffix ++ remaining))
        body.length →
      IsCandidate text
        (byteLen before,
          byteLen before + byteLen (tokenPrefix ++ (body ++ tokenSuffix)))
  | unclosed {before after : Text} :
      text = before ++ (tokenPrefix ++ after) →
      ¬ tokenSuffix <:+: after →
      IsCandidate text
        (byteLen before,
          byteLen before +
            byteLen (tokenPrefix ++
              (splitWithin maxTokenCandidateBytes after).1))

/-- A candidate of the rest of a text is one of the text. -/
theorem IsCandidate.shift {front rest : Text} {range : Nat × Nat}
    (candidate : IsCandidate rest range) :
    IsCandidate (front ++ rest)
      (byteLen front + range.1, byteLen front + range.2) := by
  cases candidate with
  | @closed before body remaining shape firstClosing =>
      have found :=
        @IsCandidate.closed (front ++ rest) (front ++ before) body remaining
          (by rw [shape, List.append_assoc]) firstClosing
      rwa [byteLen_append, Nat.add_assoc] at found
  | @unclosed before after shape neverClosed =>
      have found :=
        @IsCandidate.unclosed (front ++ rest) (front ++ before) after
          (by rw [shape, List.append_assoc]) neverClosed
      rwa [byteLen_append, Nat.add_assoc] at found

/-- A candidate is a slice that begins with the marker. -/
theorem IsCandidate.slice? {text : Text} {range : Nat × Nat}
    (candidate : IsCandidate text range) :
    ∃ body, slice? text range.1 range.2 = some (tokenPrefix ++ body) := by
  cases candidate with
  | @closed before body remaining shape _ =>
      refine ⟨body ++ tokenSuffix, ?_⟩
      have regroup :
          text =
            before ++ ((tokenPrefix ++ (body ++ tokenSuffix)) ++
              remaining) := by
        rw [shape]
        simp only [List.append_assoc]
      rw [regroup]
      exact slice?_middle _ _ _
  | @unclosed before after shape _ =>
      refine ⟨(splitWithin maxTokenCandidateBytes after).1, ?_⟩
      have regroup :
          text =
            before ++
              ((tokenPrefix ++
                  (splitWithin maxTokenCandidateBytes after).1) ++
                (splitWithin maxTokenCandidateBytes after).2) := by
        rw [shape, List.append_assoc, splitWithin_append]
      rw [regroup]
      exact slice?_middle _ _ _

theorem length_splitWithin_lt (limit : Nat) (after : Text) :
    (splitWithin limit after).2.length <
      (tokenPrefix ++ after).length := by
  have total := congrArg List.length (splitWithin_append limit after)
  rw [List.length_append] at total
  simp [tokenPrefix, lit]
  omega

/-- One round of the scanner: a gap where no marker starts, a candidate, and
the rest of the text. -/
structure Visited (gap candidate remaining : Text) : Prop where
  first :
    NotBefore tokenPrefix (gap ++ (candidate ++ remaining)) gap.length
  marker : tokenPrefix <+: candidate
  isCandidate :
    IsCandidate (gap ++ (candidate ++ remaining))
      (byteLen gap, byteLen gap + byteLen candidate)
  scanned :
    ∀ index,
      scanFrom index (gap ++ (candidate ++ remaining)) =
        (index + byteLen gap,
            index + byteLen gap + byteLen candidate) ::
          scanFrom (index + byteLen gap + byteLen candidate) remaining

theorem visited_closed {gap body remaining : Text}
    (first :
      NotBefore tokenPrefix
        (gap ++ (tokenPrefix ++ (body ++ (tokenSuffix ++ remaining))))
        gap.length)
    (firstClosing :
      NotBefore tokenSuffix (body ++ (tokenSuffix ++ remaining))
        body.length) :
    Visited gap (tokenPrefix ++ (body ++ tokenSuffix)) remaining := by
  have regroup :
      gap ++ ((tokenPrefix ++ (body ++ tokenSuffix)) ++ remaining) =
        gap ++ (tokenPrefix ++ (body ++ (tokenSuffix ++ remaining))) := by
    simp only [List.append_assoc]
  refine ⟨?_, List.prefix_append _ _, ?_, fun index => ?_⟩
  · rwa [regroup]
  · exact .closed regroup firstClosing
  · rw [regroup]
    exact scanFrom_closed first firstClosing

theorem visited_unclosed {gap after : Text}
    (first :
      NotBefore tokenPrefix (gap ++ (tokenPrefix ++ after)) gap.length)
    (neverClosed : ¬ tokenSuffix <:+: after) :
    Visited gap
      (tokenPrefix ++ (splitWithin maxTokenCandidateBytes after).1)
      (splitWithin maxTokenCandidateBytes after).2 := by
  have regroup :
      gap ++
          ((tokenPrefix ++ (splitWithin maxTokenCandidateBytes after).1) ++
            (splitWithin maxTokenCandidateBytes after).2) =
        gap ++ (tokenPrefix ++ after) := by
    rw [List.append_assoc, splitWithin_append]
  refine ⟨?_, List.prefix_append _ _, ?_, fun index => ?_⟩
  · rwa [regroup]
  · exact .unclosed regroup neverClosed
  · rw [regroup]
    exact scanFrom_unclosed first neverClosed

/-- Induction over the rounds of the scanner. -/
theorem scan_induction {motive : Text → Prop}
    (absent : ∀ rest, MarkerFree rest → motive rest)
    (visit :
      ∀ gap candidate remaining, Visited gap candidate remaining →
        motive remaining → motive (gap ++ (candidate ++ remaining)))
    (rest : Text) : motive rest := by
  induction size : rest.length using Nat.strongRecOn generalizing rest with
  | ind size inductionHypothesis =>
      subst size
      cases scanShape rest with
      | absent none =>
          exact absent rest (dropInfix?_eq_none_iff.mp none)
      | closed gap body remaining first firstClosing =>
          have round := visited_closed first firstClosing
          have later : motive remaining := by
            apply inductionHypothesis remaining.length _ remaining rfl
            simp [tokenPrefix, lit]
            omega
          have whole := visit _ _ _ round later
          simpa only [List.append_assoc] using whole
      | unclosed gap after first neverClosed =>
          have round := visited_unclosed first neverClosed
          have shorter := length_splitWithin_lt maxTokenCandidateBytes after
          have later :
              motive (splitWithin maxTokenCandidateBytes after).2 := by
            apply inductionHypothesis _ _ _ rfl
            rw [List.length_append]
            omega
          have whole := visit _ _ _ round later
          rwa [List.append_assoc, splitWithin_append] at whole

section Scan

variable {rest : Text}

theorem isCandidate_of_mem_scanFrom (front : Text) {range : Nat × Nat}
    (member : range ∈ scanFrom (byteLen front) rest) :
    IsCandidate (front ++ rest) range := by
  induction rest using scan_induction generalizing front with
  | absent rest markerFree =>
      rw [scanFrom_absent (dropInfix?_eq_none_iff.mpr markerFree)] at member
      cases member
  | visit gap candidate remaining round inductionHypothesis =>
      rw [round.scanned] at member
      rcases List.mem_cons.mp member with here | later
      · rw [here, Nat.add_assoc]
        exact round.isCandidate.shift
      · rw [← byteLen_append, ← byteLen_append] at later
        have found := inductionHypothesis _ later
        simpa only [List.append_assoc] using found

/-- Every marker starts inside a visited range. -/
theorem exists_mem_scanFrom (index : Nat) {before after : Text}
    (shape : rest = before ++ (tokenPrefix ++ after)) :
    ∃ range ∈ scanFrom index rest,
      range.1 ≤ index + byteLen before ∧
        index + byteLen before < range.2 := by
  induction rest using scan_induction generalizing index before with
  | absent rest markerFree =>
      exact absurd ⟨before, after, by rw [shape, List.append_assoc]⟩
        markerFree
  | visit gap candidate remaining round inductionHypothesis =>
      have behindGap : gap.length ≤ before.length := by
        by_contra inGap
        apply round.first before.length (by omega)
        rw [shape, List.drop_left]
        exact List.prefix_append _ _
      obtain ⟨middle, rfl, followed⟩ :
          ∃ middle, before = gap ++ middle ∧
            candidate ++ remaining = middle ++ (tokenPrefix ++ after) := by
        obtain ⟨middle, isBefore⟩ :=
          List.prefix_of_prefix_length_le (List.prefix_append gap _)
            (shape ▸ List.prefix_append before _) behindGap
        refine ⟨middle, isBefore.symm, ?_⟩
        rw [← isBefore, List.append_assoc] at shape
        exact List.append_cancel_left shape
      rw [round.scanned, byteLen_append]
      by_cases inside : byteLen middle < byteLen candidate
      · refine ⟨_, List.mem_cons_self, ?_, ?_⟩
        · omega
        · omega
      · obtain ⟨between, rfl, further⟩ :=
          append_of_byteLen_le followed (by omega)
        obtain ⟨range, member, lower, upper⟩ :=
          inductionHypothesis (index + byteLen gap + byteLen candidate)
            further
        refine ⟨range, List.mem_cons_of_mem _ member, ?_, ?_⟩
        · rw [byteLen_append]
          omega
        · rw [byteLen_append]
          omega

end Scan

theorem isCandidate_of_mem_scan {text : Text} {range : Nat × Nat}
    (member : range ∈ scanTokenLikeRanges text) :
    IsCandidate text range :=
  isCandidate_of_mem_scanFrom [] member

end Redactor
