import Redactor.Replace.Candidates

/-!
# Batch restoration is a single pass

The scanner visits ranges that follow one another.  Batch restoration copies
what is between them and decides each range once: a known token that is
authorized makes way for its original, everything else is copied.  A candidate
that is never closed ends at the byte limit; one that is closed ends where it
is closed, however far away that is.
-/

namespace Redactor

open Utf8 RestoreResult

section Decision

variable {runtime : Runtime} {context : RestoreContext}

/-- An authorized token, with the original that is known for it. -/
structure RestoreContext.Restores (runtime : Runtime)
    (context : RestoreContext) (candidate original : Text) : Prop where
  parses : ∃ parsed, parseToken runtime candidate = .ok parsed
  authorized : candidate ∈ context.authorizedTokens
  known : context.original? candidate = some original

/-- What stands in the restored text for a candidate: the original of an
authorized known token, and otherwise the candidate itself. -/
def RestoreContext.replaced (runtime : Runtime) (context : RestoreContext)
    (candidate : Text) : Text :=
  match parseToken runtime candidate with
  | .ok _ =>
      if candidate ∈ context.authorizedTokens then
        (context.original? candidate).getD candidate
      else
        candidate
  | .error _ => candidate

theorem RestoreContext.replaced_of_restores {candidate original : Text}
    (restores : context.Restores runtime candidate original) :
    context.replaced runtime candidate = original := by
  obtain ⟨⟨parsed, read⟩, authorized, known⟩ := restores
  simp only [replaced, read, authorized, if_true, known, Option.getD_some]

theorem RestoreContext.replaced_of_not_restores {candidate : Text}
    (copied : ∀ original, ¬ context.Restores runtime candidate original) :
    context.replaced runtime candidate = candidate := by
  unfold replaced
  split
  · rename_i parsed read
    by_cases authorized : candidate ∈ context.authorizedTokens
    · rw [if_pos authorized]
      cases known : context.original? candidate with
      | none =>
          rfl
      | some original =>
          exact absurd ⟨⟨parsed, read⟩, authorized, known⟩ (copied original)
    · rw [if_neg authorized]
  · rfl

/-- The number of candidates that a result accounts for. -/
def RestoreResult.decided (result : RestoreResult) : Nat :=
  result.restoredCount + result.skippedTokens.length +
    result.unresolvedTokens.length

theorem RestoreResult.decided_append (left right : RestoreResult) :
    (left ++ right).decided = left.decided + right.decided := by
  simp only [decided, restoredCount_append, skippedTokens_append,
    unresolvedTokens_append, List.length_append]
  omega

/-- One candidate is decided once. -/
theorem restoreCandidate_spec (candidate : Text) :
    (context.restoreCandidate runtime candidate).restoredText =
        context.replaced runtime candidate ∧
      (context.restoreCandidate runtime candidate).decided = 1 ∧
      (context.restoreCandidate runtime candidate).unresolvedTokens ⊆
        [candidate] := by
  unfold RestoreContext.restoreCandidate RestoreContext.replaced
  cases parseToken runtime candidate with
  | error error =>
      exact ⟨rfl, rfl, List.Subset.refl _⟩
  | ok parsed =>
      by_cases authorized : candidate ∈ context.authorizedTokens
      · simp only [authorized, not_true, if_false, if_true]
        cases context.original? candidate with
        | none =>
            exact ⟨rfl, rfl, List.Subset.refl _⟩
        | some original =>
            exact ⟨rfl, rfl, List.nil_subset _⟩
      · simp only [authorized, not_false_iff, if_true, if_false]
        exact ⟨rfl, rfl, List.nil_subset _⟩

end Decision

/-! ## All candidates -/

section Pass

variable {runtime : Runtime} {context : RestoreContext} {text : Text}

/-- What the visits of the ranges do to the result so far. -/
private theorem foldl_visit_spec (ranges : List (Nat × Nat))
    (result : RestoreResult) (cursor : Nat) :
    let progress :=
      ranges.foldl (RestoreContext.visit runtime context text)
        (result, cursor)
    progress.1.restoredText ++ slice text progress.2 (byteLen text) =
        result.restoredText ++
          replaceFrom (context.replaced runtime) text cursor ranges ∧
      progress.1.decided = result.decided + ranges.length ∧
      ∀ token ∈ progress.1.unresolvedTokens,
        token ∈ result.unresolvedTokens ∨
          ∃ range ∈ ranges, token = slice text range.1 range.2 := by
  induction ranges generalizing result cursor with
  | nil =>
      refine ⟨rfl, rfl, fun token member => Or.inl member⟩
  | cons range ranges inductionHypothesis =>
      obtain ⟨restored, once, unresolved⟩ :=
        @restoreCandidate_spec runtime context
          (slice text range.1 range.2)
      obtain ⟨texts, numbers, tokens⟩ :=
        inductionHypothesis
          (result ++ plain (slice text cursor range.1) ++
            context.restoreCandidate runtime
              (slice text range.1 range.2))
          range.2
      rw [List.foldl_cons, RestoreContext.visit]
      refine ⟨?_, ?_, ?_⟩
      · rw [texts, replaceFrom]
        simp only [restoredText_append, restored, plain, List.append_assoc]
      · have gap : (plain (slice text cursor range.1)).decided = 0 := rfl
        rw [numbers, decided_append, decided_append, gap, once,
          List.length_cons]
        omega
      · intro token member
        rcases tokens token member with before | ⟨later, laterMember, same⟩
        · simp only [unresolvedTokens_append, List.mem_append] at before
          rcases before with (earlier | gap) | here
          · exact Or.inl earlier
          · cases gap
          · have same := List.mem_singleton.mp (unresolved here)
            exact Or.inr ⟨range, List.mem_cons_self, same⟩
        · exact Or.inr ⟨later, List.mem_cons_of_mem _ laterMember, same⟩

theorem restoredText_restoreText :
    (context.restoreText runtime text).restoredText =
      replaceFrom (context.replaced runtime) text 0
        (scanTokenLikeRanges text) :=
  (foldl_visit_spec (scanTokenLikeRanges text) empty 0).1

theorem decided_restoreText :
    (context.restoreText runtime text).decided =
      (scanTokenLikeRanges text).length := by
  obtain ⟨_, numbers, _⟩ :=
    @foldl_visit_spec runtime context text (scanTokenLikeRanges text) empty 0
  have none : empty.decided = 0 := rfl
  rw [none, Nat.zero_add] at numbers
  rw [RestoreContext.restoreText, decided_append, numbers]
  rfl

theorem exists_of_mem_unresolvedTokens {token : Text}
    (member :
      token ∈ (context.restoreText runtime text).unresolvedTokens) :
    ∃ range ∈ scanTokenLikeRanges text,
      token = slice text range.1 range.2 := by
  obtain ⟨_, _, tokens⟩ :=
    @foldl_visit_spec runtime context text (scanTokenLikeRanges text) empty 0
  rw [RestoreContext.restoreText, unresolvedTokens_append,
    List.mem_append] at member
  rcases member with visited | tail
  · rcases tokens token visited with before | inRange
    · cases before
    · exact inRange
  · cases tail

/-- Wherever a suffix follows a marker, the first one ends within the byte
limit. -/
def ClosesWithinLimit (text : Text) : Prop :=
  ∀ before body after,
    text = before ++ (tokenPrefix ++ (body ++ (tokenSuffix ++ after))) →
    NotBefore tokenSuffix (body ++ (tokenSuffix ++ after)) body.length →
    byteLen (body ++ tokenSuffix) ≤ maxTokenCandidateBytes

theorem closing_not_mem_tokenPrefix :
    ∀ head ∈ tokenPrefix, head ∉ tokenSuffix := by
  intro head member closing
  have isBracket : head = ']' := by
    simpa [tokenSuffix, lit] using closing
  rw [isBracket] at member
  exact absurd member (by decide)

/-- Candidates within the limit, seen from a marker that is closed: the range
that the marker stands in ends where the marker is closed. -/
private theorem closesWithinLimit_of_bounded
    (bounded :
      ∀ range ∈ scanTokenLikeRanges text,
        range.2 ≤
          range.1 + (byteLen tokenPrefix + maxTokenCandidateBytes)) :
    ClosesWithinLimit text := by
  intro before body after shape firstClosing
  obtain ⟨range, member, lower, upper⟩ := exists_mem_scanFrom 0 shape
  rw [Nat.zero_add] at lower upper
  have bound := bounded range member
  cases isCandidate_of_mem_scan member with
  | @closed before' body' remaining shape' _ =>
      -- the closing of the range is not before the marker is over
      have same :
          before ++ (tokenPrefix ++ (body ++ (tokenSuffix ++ after))) =
            (before' ++ (tokenPrefix ++ body')) ++
              (tokenSuffix ++ remaining) := by
        rw [← shape, shape']
        simp only [List.append_assoc]
      rcases apart_of_no_common (by decide) (by decide)
          closing_not_mem_tokenPrefix same with
        ⟨between, isFront, isRest⟩ | ⟨between, isBefore, _⟩
      · have notEarlier : body.length ≤ between.length := by
          by_contra earlier
          apply firstClosing between.length (by omega)
          rw [isRest, List.drop_left]
          exact List.prefix_append _ _
        have within : body <+: between := by
          apply List.prefix_of_prefix_length_le
            (List.prefix_append body (tokenSuffix ++ after)) _ notEarlier
          rw [isRest]
          exact List.prefix_append _ _
        have shorter := byteLen_le_of_prefix within
        have size := congrArg byteLen isFront
        simp only [byteLen_append] at size bound lower ⊢
        omega
      · have size := congrArg byteLen isBefore
        simp only [byteLen_append] at size upper
        omega
  | @unclosed before' after' shape' neverClosed =>
      have same :
          before' ++ (tokenPrefix ++ after') =
            (before ++ (tokenPrefix ++ body)) ++
              (tokenSuffix ++ after) := by
        rw [← shape', shape]
        simp only [List.append_assoc]
      rcases apart_of_no_common (by decide) (by decide)
          closing_not_mem_tokenPrefix same with
        ⟨between, _, isRest⟩ | ⟨between, isBefore, _⟩
      · exact absurd ⟨between, after, by rw [isRest, List.append_assoc]⟩
          neverClosed
      · have size := congrArg byteLen isBefore
        have marker : byteLen tokenPrefix = 9 := by decide
        simp only [byteLen_append] at size lower
        omega

private theorem bounded_of_closesWithinLimit
    (closes : ClosesWithinLimit text) {range : Nat × Nat}
    (member : range ∈ scanTokenLikeRanges text) :
    range.2 ≤ range.1 + (byteLen tokenPrefix + maxTokenCandidateBytes) := by
  cases isCandidate_of_mem_scan member with
  | closed shape firstClosing =>
      have near := closes _ _ _ shape firstClosing
      rw [byteLen_append tokenPrefix]
      omega
  | @unclosed _ after _ _ =>
      have near := byteLen_splitWithin_le maxTokenCandidateBytes after
      rw [byteLen_append tokenPrefix]
      omega

/-- The candidates, and with them the unresolved tokens, are within the limit
if and only if every marker that is closed is closed within it. -/
theorem candidates_bounded_iff (text : Text) :
    ((∀ range ∈ scanTokenLikeRanges text,
          range.2 ≤
            range.1 + (byteLen tokenPrefix + maxTokenCandidateBytes)) ∧
        ∀ (runtime : Runtime) (context : RestoreContext),
          ∀ token ∈ (context.restoreText runtime text).unresolvedTokens,
            byteLen token ≤
              byteLen tokenPrefix + maxTokenCandidateBytes) ↔
      ClosesWithinLimit text := by
  constructor
  · rintro ⟨bounded, _⟩
    exact closesWithinLimit_of_bounded bounded
  · intro closes
    refine ⟨fun range member => bounded_of_closesWithinLimit closes member,
      ?_⟩
    intro runtime context token member
    obtain ⟨range, visited, rfl⟩ := exists_of_mem_unresolvedTokens member
    have bound := bounded_of_closesWithinLimit closes visited
    obtain ⟨body, sliced⟩ := (isCandidate_of_mem_scan visited).slice?
    have cut := cut_of_slice? sliced
    have size := cut.length
    rw [cut.sliced]
    omega

end Pass

/-- A marker that is not closed before the next token, too far away. -/
def sampleStrayMarker : Text :=
  tokenPrefix ++
    (List.replicate maxTokenCandidateBytes 'x' ++ sampleToken 1)

/-- A stray marker makes one candidate of everything up to the closing of the
next token, and hides that token although it is authorized. -/
theorem stray_marker_hides_token :
    let context := RestoreContext.new (sampleSession [])
    scanTokenLikeRanges sampleStrayMarker =
        [(0, byteLen sampleStrayMarker)] ∧
      byteLen tokenPrefix + maxTokenCandidateBytes <
        byteLen sampleStrayMarker ∧
      (context.restoreText sampleRuntime sampleStrayMarker).unresolvedTokens =
        [sampleStrayMarker] ∧
      (context.restoreText sampleRuntime (sampleToken 1)).restoredCount =
        1 := by
  intro context
  have token :
      sampleToken 1 =
        tokenPrefix ++ (lit "ab:EMAIL:001:5393acba" ++ tokenSuffix) := by
    decide +kernel
  have shape :
      sampleStrayMarker =
        tokenPrefix ++
          ((List.replicate maxTokenCandidateBytes 'x' ++
              (tokenPrefix ++ lit "ab:EMAIL:001:5393acba")) ++
            (tokenSuffix ++ [])) := by
    rw [sampleStrayMarker, token]
    simp only [List.append_assoc, List.append_nil]
  have noClosing :
      ']' ∉ List.replicate maxTokenCandidateBytes 'x' ++
        (tokenPrefix ++ lit "ab:EMAIL:001:5393acba") := by
    rw [List.mem_append, List.mem_replicate]
    decide +kernel
  have firstClosing :
      NotBefore tokenSuffix
        ((List.replicate maxTokenCandidateBytes 'x' ++
            (tokenPrefix ++ lit "ab:EMAIL:001:5393acba")) ++
          (tokenSuffix ++ []))
        (List.replicate maxTokenCandidateBytes 'x' ++
          (tokenPrefix ++ lit "ab:EMAIL:001:5393acba")).length :=
    notBefore_of_not_mem noClosing
  refine ⟨?_, ?_, ?_, by decide +kernel⟩
  · have none (index : Nat) : scanFrom index [] = [] := scanFrom_absent rfl
    have scanned :=
      (@visited_closed [] _ _ (notBefore_zero _ _) firstClosing).scanned 0
    rw [List.nil_append, List.append_nil, none, byteLen_nil,
      Nat.zero_add, Nat.zero_add] at scanned
    rw [shape, List.append_nil]
    exact scanned
  · rw [sampleStrayMarker, byteLen_append, byteLen_append,
      byteLen_replicate, token]
    decide +kernel
  · obtain ⟨message, malformed⟩ :=
      @parseToken_of_nested sampleRuntime
        (List.replicate maxTokenCandidateBytes 'x')
        (lit "ab:EMAIL:001:5393acba")
    rw [shape, RestoreContext.restoreText_closed_first firstClosing,
      RestoreContext.restoreText_nil, append_empty, List.append_nil,
      RestoreContext.restoreCandidate, malformed]

end Redactor
