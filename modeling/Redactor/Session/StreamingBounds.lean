import Redactor.Session.SinglePass
import Redactor.Session.StreamingEquivalence

/-!
# Streaming restoration is bounded and loses nothing

Whatever is pushed, the pending text of a stream stays within the byte limit
and is a part of the marker or an open candidate.  Every pushed character is
put out once, in order, except that tokens make way for their originals.  Both
hold without the assumption on the candidates under which streaming agrees
with batch restoration.
-/

namespace Redactor

open Utf8 RestoreResult RestoreContext StreamingRestoreContext

/-- The second text is the first one with some occurrences of authorized known
tokens replaced by their originals; the number counts them. -/
inductive TokensReplaced (runtime : Runtime) (context : RestoreContext) :
    Text → Text → Nat → Prop
  | copied (text : Text) : TokensReplaced runtime context text text 0
  | token {before token original rest output : Text} {count : Nat} :
      context.Restores runtime token original →
      TokensReplaced runtime context rest output count →
      TokensReplaced runtime context (before ++ (token ++ rest))
        (before ++ (original ++ output)) (count + 1)

section Replaced

variable {runtime : Runtime} {context : RestoreContext}

theorem TokensReplaced.prepend {text output : Text} {count : Nat}
    (before : Text) (replaced : TokensReplaced runtime context text output
      count) :
    TokensReplaced runtime context (before ++ text) (before ++ output)
      count := by
  cases replaced with
  | copied =>
      exact .copied (before ++ text)
  | @token front token original rest output count restores later =>
      have longer :=
        @TokensReplaced.token runtime context (before ++ front) token
          original rest output count restores later
      simpa only [List.append_assoc] using longer

/-- Replacing in two texts is replacing in both of them together. -/
theorem TokensReplaced.append {left right leftOutput rightOutput : Text}
    {leftCount rightCount : Nat}
    (first : TokensReplaced runtime context left leftOutput leftCount)
    (second : TokensReplaced runtime context right rightOutput rightCount) :
    TokensReplaced runtime context (left ++ right)
      (leftOutput ++ rightOutput) (leftCount + rightCount) := by
  induction first with
  | copied text =>
      rw [Nat.zero_add]
      exact second.prepend text
  | @token before token original rest output count restores _
      inductionHypothesis =>
      simp only [List.append_assoc, Nat.add_right_comm count 1 rightCount]
      exact .token restores inductionHypothesis

/-- A decided candidate has been replaced, or it is copied. -/
theorem tokensReplaced_restoreCandidate (candidate : Text) :
    TokensReplaced runtime context candidate
      (context.restoreCandidate runtime candidate).restoredText
      (context.restoreCandidate runtime candidate).restoredCount := by
  unfold RestoreContext.restoreCandidate
  cases read : parseToken runtime candidate with
  | error error =>
      exact .copied candidate
  | ok parsed =>
      by_cases authorized : candidate ∈ context.authorizedTokens
      · simp only [authorized, not_true, if_false]
        cases known : context.original? candidate with
        | none =>
            exact .copied candidate
        | some original =>
            have whole :=
              @TokensReplaced.token runtime context [] candidate original []
                [] 0 ⟨⟨parsed, read⟩, authorized, known⟩ (.copied [])
            simpa [plain, empty] using whole
      · simp only [authorized, not_false_iff, if_true]
        exact .copied candidate

end Replaced

/-! ## One character -/

section Step

variable {runtime : Runtime} {restore : RestoreContext} {pending : Text}
  {head : Char}

/-- What a stream may keep back, within the limit. -/
structure PendingWithin (pending : Text) : Prop where
  shape : PendingShape pending
  bounded : byteLen pending ≤ maxTokenCandidateBytes

theorem pendingWithin_nil : PendingWithin [] :=
  ⟨pendingShape_nil, by decide⟩

theorem PendingShape.proper_or_open (shape : PendingShape pending) :
    (pending <+: tokenPrefix ∧ pending ≠ tokenPrefix) ∨
      ∃ body, pending = tokenPrefix ++ body ∧ ¬ tokenSuffix <:+: body := by
  cases shape with
  | marker _ part proper =>
      exact Or.inl ⟨part, proper⟩
  | candidate body notInside =>
      exact Or.inr ⟨body, rfl, notInside⟩

theorem PendingShape.within_of_part (shape : PendingShape pending)
    (part : pending <+: tokenPrefix) : PendingWithin pending := by
  have short := byteLen_le_of_prefix part
  have marker : byteLen tokenPrefix ≤ maxTokenCandidateBytes := by decide
  exact ⟨shape, Nat.le_trans short marker⟩

/-- What one step leaves pending, and that its output and the pending text are
what was there, with tokens replaced. -/
structure Carried (runtime : Runtime) (restore : RestoreContext)
    (text after : Text) (output : RestoreResult) : Prop where
  within : PendingWithin after
  emitted :
    ∃ front, text = front ++ after ∧
      TokensReplaced runtime restore front output.restoredText
        output.restoredCount

/-- A candidate that would grow past the limit is put out. -/
theorem flushOverflow_spec (within : PendingWithin pending) :
    ∃ after output, flushOverflow pending head = (after, output) ∧
      Carried runtime restore pending after output ∧
      (tokenPrefix <+: after →
        byteLen after + head.utf8Size ≤ maxTokenCandidateBytes) := by
  unfold flushOverflow
  by_cases overflows :
      tokenPrefix <+: pending ∧
        maxTokenCandidateBytes < byteLen pending + head.utf8Size
  · rw [if_pos overflows]
    refine ⟨[], _, rfl, ⟨pendingWithin_nil, pending, by simp, ?_⟩, ?_⟩
    · exact .copied pending
    · intro marked
      exact absurd marked (by decide)
  · rw [if_neg overflows]
    refine ⟨pending, empty, rfl, ⟨within, [], rfl, .copied []⟩, ?_⟩
    intro marked
    by_contra exceeds
    exact overflows ⟨marked, by omega⟩

/-- A candidate that is closed by the pushed character is decided. -/
theorem restoreText_of_justClosed (shape : PendingShape pending)
    (marked : tokenPrefix <+: pending ++ [head])
    (closed : tokenSuffix <:+ pending ++ [head]) :
    restoreText runtime restore (pending ++ [head]) =
      restoreCandidate runtime restore (pending ++ [head]) := by
  rcases extended_of_marked shape marked with ⟨body, notInside, same⟩ | same
  · rw [same] at closed ⊢
    obtain ⟨inner, bodyShape, firstClosing⟩ :=
      notBefore_suffix_of_closed [] notInside (exists_inner_of_suffix closed)
    have whole :=
      @restoreText_closed_first runtime restore inner [] firstClosing
    rw [bodyShape]
    rwa [List.append_nil, restoreText_nil, append_empty] at whole
  · rw [same] at closed
    exact absurd closed (by decide)

theorem carried_extendPending (shape : PendingShape pending)
    (room :
      tokenPrefix <+: pending →
        byteLen pending + head.utf8Size ≤ maxTokenCandidateBytes) :
    ∃ after output,
      extendPending runtime restore pending head = (after, output) ∧
        Carried runtime restore (pending ++ [head]) after output := by
  unfold extendPending
  by_cases marked : tokenPrefix <+: pending ++ [head]
  · simp only [if_pos marked]
    by_cases closed : tokenSuffix <:+ pending ++ [head]
    · simp only [if_pos closed]
      refine ⟨[], _, rfl, pendingWithin_nil, pending ++ [head], by simp, ?_⟩
      rw [restoreText_of_justClosed shape marked closed]
      exact tokensReplaced_restoreCandidate _
    · simp only [if_neg closed]
      have after := pendingShape_of_open shape marked closed
      refine ⟨_, empty, rfl, ⟨after, ?_⟩, [], rfl, .copied []⟩
      -- the marker was there before, or it has just been completed
      by_cases before : tokenPrefix <+: pending
      · have bound := room before
        simpa [byteLen_append] using bound
      · rcases extended_of_marked shape marked with ⟨body, _, same⟩ | same
        · have shorter : pending = tokenPrefix ++ body := by
            rw [← List.append_assoc] at same
            exact List.append_cancel_right same
          exact absurd ⟨body, shorter.symm⟩ before
        · rw [same]
          decide
  · simp only [if_neg marked]
    by_cases part : pending ++ [head] <+: tokenPrefix
    · simp only [if_pos part]
      have after : PendingShape (pending ++ [head]) := by
        apply PendingShape.marker _ part
        intro same
        exact marked (same ▸ List.prefix_rfl)
      exact ⟨_, empty, rfl, after.within_of_part part, [], rfl, .copied []⟩
    · simp only [if_neg part]
      obtain ⟨cut, keptPart, after, _⟩ :=
        pendingShape_of_cut shape marked part rfl
      exact ⟨_, _, rfl, after.within_of_part keptPart, _, cut.symm,
        .copied _⟩

theorem carried_pushChar (within : PendingWithin pending) (head : Char) :
    Carried runtime restore (pending ++ [head])
      (pushChar runtime restore pending head).1
      (pushChar runtime restore pending head).2 := by
  obtain ⟨middle, flushed, overflow, ⟨middleWithin, front, cut, replaced⟩,
    room⟩ := @flushOverflow_spec runtime restore pending head within
  obtain ⟨after, output, extended, ⟨afterWithin, back, cut', replaced'⟩⟩ :=
    @carried_extendPending runtime restore middle head middleWithin.shape
      room
  rw [pushChar, overflow]
  simp only [extended]
  refine ⟨afterWithin, front ++ back, ?_, replaced.append replaced'⟩
  rw [cut, List.append_assoc, cut', List.append_assoc]

theorem carried_pushChars (within : PendingWithin pending) (text : Text) :
    Carried runtime restore (pending ++ text)
      (pushChars runtime restore pending text).1
      (pushChars runtime restore pending text).2 := by
  induction text generalizing pending with
  | nil =>
      exact ⟨within, [], by simp [pushChars], .copied []⟩
  | cons head rest inductionHypothesis =>
      obtain ⟨middleWithin, front, cut, replaced⟩ :=
        @carried_pushChar runtime restore pending within head
      obtain ⟨afterWithin, back, cut', replaced'⟩ :=
        inductionHypothesis middleWithin
      rw [pushChars]
      refine ⟨afterWithin, front ++ back, ?_, replaced.append replaced'⟩
      rw [← List.singleton_append, ← List.append_assoc, cut,
        List.append_assoc, cut', List.append_assoc]

end Step

/-- What is still pending at the end is put out as it is. -/
theorem tokensReplaced_finish {runtime : Runtime} (restore : RestoreContext)
    (pending : Text) :
    TokensReplaced runtime restore pending
      (finish ⟨restore, pending⟩).restoredText
      (finish ⟨restore, pending⟩).restoredCount := by
  unfold finish
  by_cases marked : tokenPrefix <+: pending
  · simp only [if_pos marked]
    exact .copied pending
  · simp only [if_neg marked]
    exact .copied pending

/-- The state after some calls of `push_str`. -/
def StreamingRestoreContext.afterCalls (runtime : Runtime)
    (stream : StreamingRestoreContext) (fragments : List Text) :
    StreamingRestoreContext :=
  fragments.foldl (fun stream fragment => (stream.pushStr runtime fragment).1)
    stream

theorem afterCalls_within {runtime : Runtime}
    {stream : StreamingRestoreContext}
    (within : PendingWithin stream.pending) (fragments : List Text) :
    PendingWithin (stream.afterCalls runtime fragments).pending := by
  induction fragments generalizing stream with
  | nil =>
      exact within
  | cons fragment fragments inductionHypothesis =>
      exact inductionHypothesis
        (@carried_pushChars runtime _ _ within fragment).within

/-- After every call the pending text is within the limit, and a proper part
of the marker or an open candidate; and all results together are the pushed
text with some occurrences of authorized known tokens replaced and counted. -/
theorem streaming_restore_lossless (runtime : Runtime)
    (restore : RestoreContext) (fragments : List Text) :
    let stream : StreamingRestoreContext := ⟨restore, []⟩
    (∀ calls, calls <+: fragments →
        let pending := (stream.afterCalls runtime calls).pending
        byteLen pending ≤ maxTokenCandidateBytes ∧
          ((pending <+: tokenPrefix ∧ pending ≠ tokenPrefix) ∨
            ∃ body, pending = tokenPrefix ++ body ∧
              ¬ tokenSuffix <:+: body)) ∧
      TokensReplaced runtime restore fragments.flatten
        (stream.concatenated runtime fragments).restoredText
        (stream.concatenated runtime fragments).restoredCount := by
  intro stream
  constructor
  · intro calls _ pending
    obtain ⟨shape, bounded⟩ :=
      @afterCalls_within runtime stream pendingWithin_nil calls
    exact ⟨bounded, shape.proper_or_open⟩
  · obtain ⟨_, front, cut, replaced⟩ :=
      @carried_pushChars runtime restore [] pendingWithin_nil
        fragments.flatten
    rw [List.nil_append] at cut
    have whole := replaced.append (tokensReplaced_finish restore
      (pushChars runtime restore [] fragments.flatten).1)
    rw [← cut] at whole
    rw [concatenated_eq]
    exact whole

end Redactor
