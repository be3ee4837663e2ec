import Redactor.Session.Streaming

/-!
# Streaming restoration agrees with batch restoration

The pending text of a stream is either a proper part of the marker or a marker
with a candidate that has not been closed.  In both cases, pushing the rest of
a text and finishing has the outcome that batch restoration has on the pending
text followed by the rest.  The proof is an induction on the rest; each case
of one pushed character is a rule of batch restoration.

The limit on pending candidates is never reached when every candidate of the
whole text is within it.
-/

namespace Redactor

open Utf8 Fallible RestoreResult RestoreContext StreamingRestoreContext

/-- Everything a caller sees of two results, except the wording of the
validation errors. -/
structure SameOutcome (left right : RestoreResult) : Prop where
  restoredText : left.restoredText = right.restoredText
  restoredCount : left.restoredCount = right.restoredCount
  skippedTokens : left.skippedTokens = right.skippedTokens
  unresolvedTokens : left.unresolvedTokens = right.unresolvedTokens
  isValid : left.isValid = right.isValid

namespace SameOutcome

theorem refl (result : RestoreResult) : SameOutcome result result :=
  ⟨rfl, rfl, rfl, rfl, rfl⟩

theorem append {left right left' right' : RestoreResult}
    (first : SameOutcome left left') (second : SameOutcome right right') :
    SameOutcome (left ++ right) (left' ++ right') where
  restoredText := by
    simp [first.restoredText, second.restoredText]
  restoredCount := by
    simp [first.restoredCount, second.restoredCount]
  skippedTokens := by
    simp [first.skippedTokens, second.skippedTokens]
  unresolvedTokens := by
    simp [first.unresolvedTokens, second.unresolvedTokens]
  isValid := by
    simp [first.isValid, second.isValid]

end SameOutcome

/-- Every candidate that the scanner visits has at most the pending limit of
bytes. -/
def CandidatesWithin (text : Text) : Prop :=
  ∀ range ∈ scanTokenLikeRanges text,
    range.2 - range.1 ≤ maxTokenCandidateBytes

private def RangesWithin (ranges : List (Nat × Nat)) : Prop :=
  ∀ range ∈ ranges, range.2 - range.1 ≤ maxTokenCandidateBytes

private theorem rangesWithin_scanFrom_iff (index : Nat) {text : Text} :
    RangesWithin (scanFrom index text) ↔ CandidatesWithin text := by
  have moved := scanFrom_shift index 0 text
  rw [Nat.add_zero] at moved
  unfold RangesWithin CandidatesWithin
  rw [moved]
  change _ ↔ ∀ range ∈ scanFrom 0 text, _
  constructor
  · intro within range member
    have bound := within _ (List.mem_map_of_mem member)
    simp only at bound
    omega
  · intro within range member
    obtain ⟨original, originalMember, rfl⟩ := List.mem_map.mp member
    have bound := within original originalMember
    simp only
    omega

theorem CandidatesWithin.of_skip {before rest : Text}
    (noMarker : NotBefore tokenPrefix (before ++ rest) before.length)
    (within : CandidatesWithin (before ++ rest)) :
    CandidatesWithin rest := by
  rw [← rangesWithin_scanFrom_iff 0, scanFrom_skip noMarker,
    rangesWithin_scanFrom_iff] at within
  exact within

/-- A closed candidate is within the limit, and so is everything behind it. -/
theorem CandidatesWithin.of_closed {body remaining : Text}
    (firstClosing :
      NotBefore tokenSuffix (body ++ (tokenSuffix ++ remaining)) body.length)
    (within :
      CandidatesWithin
        (tokenPrefix ++ (body ++ (tokenSuffix ++ remaining)))) :
    byteLen (tokenPrefix ++ (body ++ tokenSuffix)) ≤
        maxTokenCandidateBytes ∧
      CandidatesWithin remaining := by
  rw [← rangesWithin_scanFrom_iff 0] at within
  have scan :=
    @scanFrom_closed 0 [] body remaining (notBefore_zero _ _) firstClosing
  rw [List.nil_append] at scan
  rw [scan] at within
  constructor
  · have bound := within _ List.mem_cons_self
    simp only [byteLen_nil] at bound
    omega
  · rw [← rangesWithin_scanFrom_iff]
    exact fun range member => within range (List.mem_cons_of_mem _ member)

/-- A candidate that is never closed is within the limit only if it is not
cut. -/
theorem CandidatesWithin.of_unclosed {after : Text}
    (neverClosed : ¬ tokenSuffix <:+: after)
    (within : CandidatesWithin (tokenPrefix ++ after)) :
    byteLen (tokenPrefix ++ after) ≤ maxTokenCandidateBytes := by
  rw [← rangesWithin_scanFrom_iff 0] at within
  have scan :=
    @scanFrom_unclosed 0 [] after (notBefore_zero _ _) neverClosed
  rw [List.nil_append] at scan
  rw [scan] at within
  have bound := within _ List.mem_cons_self
  simp only [byteLen_nil, byteLen_append] at bound
  have marker : byteLen tokenPrefix = 9 := by decide
  have limit : maxTokenCandidateBytes = 4096 := rfl
  rcases Nat.lt_or_ge maxTokenCandidateBytes (byteLen after) with long | short
  · have cut := limit_lt_byteLen_splitWithin long
    omega
  · simp only [splitWithin_of_byteLen_le short] at bound
    simp only [byteLen_append]
    omega

/-- A text that has just been closed has its first closing at its end. -/
theorem notBefore_suffix_of_closed {body : Text} {last : Char}
    (rest : Text)
    (notInside : ¬ tokenSuffix <:+: body)
    (shape : ∃ inner, body ++ [last] = inner ++ tokenSuffix) :
    ∃ inner, body ++ [last] = inner ++ tokenSuffix ∧
      NotBefore tokenSuffix (inner ++ (tokenSuffix ++ rest))
        inner.length := by
  obtain ⟨inner, shape⟩ := shape
  refine ⟨inner, shape, ?_⟩
  have bodyShape : body = inner ++ [']'] := by
    have split : inner ++ tokenSuffix = (inner ++ [']']) ++ [']'] := by
      simp [tokenSuffix, lit]
    rw [split] at shape
    exact (List.append_inj' shape rfl).1
  subst bodyShape
  intro position inside occurs
  apply notInside
  -- the occurrence lies before the last bracket
  have regroup :
      inner ++ (tokenSuffix ++ rest) =
        (inner ++ [']']) ++ ([']'] ++ rest) := by
    simp [tokenSuffix, lit]
  rw [regroup, List.drop_append_of_le_length (by simp; omega)] at occurs
  have insideBody : tokenSuffix <+: (inner ++ [']']).drop position := by
    apply List.prefix_of_prefix_length_le occurs (List.prefix_append _ _)
    simp [tokenSuffix, lit]
    omega
  exact insideBody.isInfix.trans (List.drop_suffix _ _).isInfix

/-- The marker does not end with a part of the suffix, so a marked text ends
with the suffix only if its candidate does. -/
theorem exists_inner_of_suffix {body : Text}
    (closed : tokenSuffix <:+ tokenPrefix ++ body) :
    ∃ inner, body = inner ++ tokenSuffix := by
  have reversed :
      tokenSuffix.reverse <+: body.reverse ++ tokenPrefix.reverse := by
    rw [← List.reverse_append, List.reverse_prefix]
    exact closed
  match shape : body.reverse with
  | [] =>
      rw [shape] at reversed
      exact absurd reversed (by decide)
  | [only] =>
      rw [shape] at reversed
      simp [tokenSuffix, tokenPrefix, lit] at reversed
  | last :: next :: rest =>
      rw [shape] at reversed
      have both : last = ']' ∧ next = ']' := by
        simpa [tokenSuffix, lit, eq_comm] using reversed
      refine ⟨rest.reverse, ?_⟩
      have again := congrArg List.reverse shape
      rw [List.reverse_reverse] at again
      rw [again, both.1, both.2]
      simp [tokenSuffix, lit]

/-- Extending an open candidate by one character closes it at the end or
leaves it open. -/
theorem infix_concat {body : Text} {last : Char}
    (notInside : ¬ tokenSuffix <:+: body)
    (notEnd : ¬ tokenSuffix <:+ body ++ [last]) :
    ¬ tokenSuffix <:+: body ++ [last] := by
  intro occurs
  rcases List.infix_concat_iff.mp occurs with atEnd | inside
  · exact notEnd atEnd
  · exact notInside inside

/-- What a stream keeps back. -/
inductive PendingShape : Text → Prop
  | marker (pending : Text) :
      pending <+: tokenPrefix → pending ≠ tokenPrefix → PendingShape pending
  | candidate (body : Text) :
      ¬ tokenSuffix <:+: body → PendingShape (tokenPrefix ++ body)

theorem pendingShape_nil : PendingShape [] :=
  .marker [] (List.nil_prefix) (by decide)

/-- A proper part of the marker is shorter than the marker. -/
theorem length_lt_of_proper {pending : Text}
    (part : pending <+: tokenPrefix) (proper : pending ≠ tokenPrefix) :
    pending.length < tokenPrefix.length := by
  apply Nat.lt_of_le_of_ne part.length_le
  intro same
  exact proper (part.eq_of_length same)

theorem not_prefix_of_shorter {pending : Text}
    (shorter : pending.length < tokenPrefix.length) :
    ¬ tokenPrefix <+: pending := by
  intro whole
  have size := whole.length_le
  omega

/-- The cut keeps a part of the marker, and every earlier suffix is none. -/
theorem cutNonMarkerPrefix_spec (pending : Text) :
    (cutNonMarkerPrefix pending).1 ++ (cutNonMarkerPrefix pending).2 =
        pending ∧
      (cutNonMarkerPrefix pending).2 <+: tokenPrefix ∧
      ∀ position, position < (cutNonMarkerPrefix pending).1.length →
        ¬ pending.drop position <+: tokenPrefix := by
  induction pending with
  | nil =>
      simp [cutNonMarkerPrefix]
  | cons head tail inductionHypothesis =>
      rw [cutNonMarkerPrefix]
      split
      · rename_i part
        refine ⟨rfl, part, ?_⟩
        intro position inside
        simp at inside
      · rename_i noPart
        obtain ⟨shape, part, earlier⟩ := inductionHypothesis
        refine ⟨by simp [shape], part, ?_⟩
        intro position inside
        cases position with
        | zero =>
            simpa using noPart
        | succ position =>
            simpa using earlier position (by simpa using inside)

/-- No marker starts in what the cut gives up, whatever follows. -/
theorem notBefore_cutNonMarkerPrefix {pending : Text} (rest : Text)
    (short : pending.length ≤ tokenPrefix.length) :
    NotBefore tokenPrefix (pending ++ rest)
      (cutNonMarkerPrefix pending).1.length := by
  obtain ⟨shape, _, earlier⟩ := cutNonMarkerPrefix_spec pending
  intro position inside occurs
  have size := congrArg List.length shape
  rw [List.length_append] at size
  rw [List.drop_append_of_le_length (by omega)] at occurs
  apply earlier position inside
  apply List.prefix_of_prefix_length_le (List.prefix_append _ rest) occurs
  rw [List.length_drop]
  omega

/-! ## One character -/

section Step

variable {runtime : Runtime} {restore : RestoreContext}

theorem flushOverflow_of_within {pending rest : Text} {head : Char}
    (shape : PendingShape pending)
    (within : CandidatesWithin (pending ++ head :: rest)) :
    flushOverflow pending head = (pending, empty) := by
  rw [flushOverflow, if_neg]
  rintro ⟨marked, overflows⟩
  cases shape with
  | marker pending part proper =>
      exact not_prefix_of_shorter (length_lt_of_proper part proper)
        marked
  | candidate body notInside =>
      -- the candidate of the whole text contains the pushed character
      have contained :
          ∀ whole : Text, body ++ [head] <+: whole →
            byteLen (tokenPrefix ++ whole) ≤ maxTokenCandidateBytes →
            False := by
        intro whole part bound
        have smaller := byteLen_le_of_prefix part
        simp only [byteLen_append, byteLen_cons, byteLen_nil] at *
        omega
      have regroup : body ++ head :: rest = (body ++ [head]) ++ rest := by
        simp
      rw [List.append_assoc] at within
      cases closing : (body ++ head :: rest).dropInfix? tokenSuffix with
      | none =>
          have neverClosed := dropInfix?_eq_none_iff.mp closing
          refine contained (body ++ head :: rest) ?_
            (within.of_unclosed neverClosed)
          rw [regroup]
          exact List.prefix_append _ _
      | some parts =>
          obtain ⟨inner, remaining⟩ := parts
          obtain ⟨same, firstClosing⟩ :=
            dropInfix?_eq_some_iff_notBefore.mp closing
          rw [same] at within firstClosing
          refine contained (inner ++ tokenSuffix) ?_
            (within.of_closed firstClosing).1
          have leftPart : body ++ [head] <+: body ++ head :: rest := by
            rw [regroup]
            exact List.prefix_append _ _
          have rightPart :
              inner ++ tokenSuffix <+: body ++ head :: rest := by
            rw [same, ← List.append_assoc]
            exact List.prefix_append _ _
          apply List.prefix_of_prefix_length_le leftPart rightPart
          -- otherwise the closing would lie inside the open candidate
          apply Nat.le_of_not_lt
          intro longer
          apply notInside
          have bodyPart : body <+: body ++ head :: rest :=
            List.prefix_append _ _
          have closedInside : inner ++ tokenSuffix <+: body := by
            apply List.prefix_of_prefix_length_le rightPart bodyPart
            simp only [List.length_append, List.length_singleton] at longer ⊢
            omega
          exact (List.suffix_append _ _).isInfix.trans closedInside.isInfix

/-- Batch restoration of an open candidate at the end of a text. -/
theorem restoreText_open {body : Text}
    (notInside : ¬ tokenSuffix <:+: body)
    (within : CandidatesWithin (tokenPrefix ++ body)) :
    SameOutcome (finish ⟨restore, tokenPrefix ++ body⟩)
      (restoreText runtime restore (tokenPrefix ++ body)) := by
  have bound := within.of_unclosed notInside
  have short : byteLen body ≤ maxTokenCandidateBytes := by
    rw [byteLen_append] at bound
    omega
  have malformed :
      ∃ error, parseToken runtime (tokenPrefix ++ body) = .error error := by
    cases parse : parseToken runtime (tokenPrefix ++ body) with
    | error error =>
        exact ⟨error, rfl⟩
    | ok parsed =>
        obtain ⟨_, _, inner, shape⟩ := of_parseToken_eq_ok parse
        have same := List.append_cancel_left shape
        exact (notInside ⟨inner, [], by simp [same]⟩).elim
  obtain ⟨error, parse⟩ := malformed
  rw [restoreText_unclosed_first notInside, splitWithin_of_byteLen_le short,
    restoreText_nil, append_empty]
  constructor <;>
    simp [finish, restoreCandidate, parse, plain, empty,
      RestoreResult.isValid]

/-- Batch restoration of a text that starts with a candidate that has just
been closed. -/
theorem restoreText_justClosed {body rest : Text}
    (firstClosing :
      NotBefore tokenSuffix (body ++ (tokenSuffix ++ rest)) body.length) :
    restoreText runtime restore
        (tokenPrefix ++ (body ++ (tokenSuffix ++ rest))) =
      restoreText runtime restore (tokenPrefix ++ (body ++ tokenSuffix)) ++
        restoreText runtime restore rest := by
  have aloneClosing :
      NotBefore tokenSuffix (body ++ (tokenSuffix ++ [])) body.length := by
    intro position inside occurs
    apply firstClosing position inside
    have longer :
        (body ++ (tokenSuffix ++ [])).drop position <+:
          (body ++ (tokenSuffix ++ rest)).drop position := by
      apply List.IsPrefix.drop
      rw [List.append_nil, ← List.append_assoc]
      exact List.prefix_append _ _
    exact occurs.trans longer
  have alone :
      restoreText runtime restore (tokenPrefix ++ (body ++ tokenSuffix)) =
        restoreCandidate runtime restore
          (tokenPrefix ++ (body ++ tokenSuffix)) := by
    have whole :=
      @restoreText_closed_first runtime restore body [] aloneClosing
    rwa [List.append_nil, restoreText_nil, append_empty] at whole
  rw [restoreText_closed_first firstClosing, alone]

/-- The pending text with a complete marker: a candidate that was open before,
or the marker alone. -/
theorem extended_of_marked {pending : Text} {head : Char}
    (shape : PendingShape pending)
    (marked : tokenPrefix <+: pending ++ [head]) :
    (∃ body, ¬ tokenSuffix <:+: body ∧
        pending ++ [head] = tokenPrefix ++ (body ++ [head])) ∨
      pending ++ [head] = tokenPrefix := by
  cases shape with
  | marker pending part proper =>
      have shorter := length_lt_of_proper part proper
      right
      refine (marked.eq_of_length_le ?_).symm
      simp only [List.length_append, List.length_singleton]
      omega
  | candidate body notInside =>
      exact Or.inl ⟨body, notInside, by simp⟩

/-- A candidate that is closed is restored at once. -/
theorem restoreText_of_closed {pending rest : Text} {head : Char}
    (shape : PendingShape pending)
    (within : CandidatesWithin ((pending ++ [head]) ++ rest))
    (marked : tokenPrefix <+: pending ++ [head])
    (closed : tokenSuffix <:+ pending ++ [head]) :
    CandidatesWithin rest ∧
      restoreText runtime restore ((pending ++ [head]) ++ rest) =
        restoreText runtime restore (pending ++ [head]) ++
          restoreText runtime restore rest := by
  rcases extended_of_marked shape marked with ⟨body, notInside, same⟩ | same
  · rw [same] at closed within ⊢
    obtain ⟨inner, bodyShape, firstClosing⟩ :=
      notBefore_suffix_of_closed rest notInside
        (exists_inner_of_suffix closed)
    rw [bodyShape] at within ⊢
    simp only [List.append_assoc] at within ⊢
    exact ⟨(within.of_closed firstClosing).2,
      restoreText_justClosed firstClosing⟩
  · rw [same] at closed
    exact absurd closed (by decide)

/-- A candidate that is not closed stays pending. -/
theorem pendingShape_of_open {pending : Text} {head : Char}
    (shape : PendingShape pending)
    (marked : tokenPrefix <+: pending ++ [head])
    (notClosed : ¬ tokenSuffix <:+ pending ++ [head]) :
    PendingShape (pending ++ [head]) := by
  rcases extended_of_marked shape marked with ⟨body, notInside, same⟩ | same
  · rw [same] at notClosed ⊢
    refine .candidate _ (infix_concat notInside fun atEnd => notClosed ?_)
    exact atEnd.trans (List.suffix_append _ _)
  · rw [same]
    have bare := PendingShape.candidate [] (by decide)
    rwa [List.append_nil] at bare

/-- What can be no part of a marker is put out, and the longest part of one
stays pending. -/
theorem pendingShape_of_cut {pending flushed kept : Text} {head : Char}
    (shape : PendingShape pending)
    (unmarked : ¬ tokenPrefix <+: pending ++ [head])
    (noPart : ¬ pending ++ [head] <+: tokenPrefix)
    (parts : cutNonMarkerPrefix (pending ++ [head]) = (flushed, kept)) :
    flushed ++ kept = pending ++ [head] ∧ kept <+: tokenPrefix ∧
      PendingShape kept ∧
      ∀ rest,
        NotBefore tokenPrefix ((pending ++ [head]) ++ rest)
          flushed.length := by
  have short : (pending ++ [head]).length ≤ tokenPrefix.length := by
    cases shape with
    | marker pending part proper =>
        have shorter := length_lt_of_proper part proper
        simp only [List.length_append, List.length_singleton]
        omega
    | candidate body notInside =>
        exact (unmarked (by simp [List.append_assoc])).elim
  obtain ⟨cut, keptPart, _⟩ := cutNonMarkerPrefix_spec (pending ++ [head])
  have noMarker (rest : Text) := notBefore_cutNonMarkerPrefix rest short
  rw [parts] at cut keptPart noMarker
  refine ⟨cut, keptPart, .marker kept keptPart ?_, noMarker⟩
  intro whole
  -- a kept marker would have been the whole pending text
  have size := congrArg List.length cut
  simp only [List.length_append, List.length_singleton, whole] at size short
  have nothing : flushed = [] :=
    List.eq_nil_of_length_eq_zero (by omega)
  rw [nothing, List.nil_append] at cut
  exact noPart (cut ▸ keptPart)

/-- What is put out by the cut is copied by batch restoration. -/
theorem restoreText_of_cut {pending rest flushed kept : Text} {head : Char}
    (shape : PendingShape pending)
    (within : CandidatesWithin ((pending ++ [head]) ++ rest))
    (unmarked : ¬ tokenPrefix <+: pending ++ [head])
    (noPart : ¬ pending ++ [head] <+: tokenPrefix)
    (parts : cutNonMarkerPrefix (pending ++ [head]) = (flushed, kept)) :
    PendingShape kept ∧ CandidatesWithin (kept ++ rest) ∧
      restoreText runtime restore ((pending ++ [head]) ++ rest) =
        plain flushed ++ restoreText runtime restore (kept ++ rest) := by
  obtain ⟨cut, _, keptShape, nowhere⟩ :=
    pendingShape_of_cut shape unmarked noPart parts
  have noMarker := nowhere rest
  rw [← cut, List.append_assoc] at within noMarker ⊢
  exact ⟨keptShape, within.of_skip noMarker, restoreText_skip noMarker⟩

/-- What pushing a character does to the batch restoration of everything that
is still to be read: the output of the push comes first, and the pending text
it leaves is restored with the rest. -/
theorem extendPending_spec {pending rest : Text} {head : Char}
    (shape : PendingShape pending)
    (within : CandidatesWithin (pending ++ head :: rest)) :
    ∃ after output,
      extendPending runtime restore pending head = (after, output) ∧
        PendingShape after ∧ CandidatesWithin (after ++ rest) ∧
        restoreText runtime restore (pending ++ head :: rest) =
          output ++ restoreText runtime restore (after ++ rest) := by
  have regroup : pending ++ head :: rest = (pending ++ [head]) ++ rest := by
    simp
  rw [regroup] at within ⊢
  unfold extendPending
  by_cases marked : tokenPrefix <+: pending ++ [head]
  · simp only [if_pos marked]
    by_cases closed : tokenSuffix <:+ pending ++ [head]
    · simp only [if_pos closed]
      exact ⟨[], _, rfl, pendingShape_nil,
        restoreText_of_closed shape within marked closed⟩
    · simp only [if_neg closed]
      exact ⟨_, empty, rfl, pendingShape_of_open shape marked closed, within,
        by rw [empty_append]⟩
  · simp only [if_neg marked]
    by_cases part : pending ++ [head] <+: tokenPrefix
    · simp only [if_pos part]
      refine ⟨_, empty, rfl, .marker _ part ?_, within,
        by rw [empty_append]⟩
      intro same
      exact marked (same ▸ List.prefix_rfl)
    · simp only [if_neg part]
      exact ⟨_, _, rfl, restoreText_of_cut shape within marked part rfl⟩

/-- Pushing a text and finishing has the outcome of restoring the pending text
and the text at once. -/
theorem pushChars_finish_sameOutcome {pending text : Text}
    (shape : PendingShape pending)
    (within : CandidatesWithin (pending ++ text)) :
    SameOutcome
      ((pushChars runtime restore pending text).2 ++
        finish ⟨restore, (pushChars runtime restore pending text).1⟩)
      (restoreText runtime restore (pending ++ text)) := by
  induction text generalizing pending with
  | nil =>
      rw [List.append_nil] at within ⊢
      rw [pushChars, empty_append]
      cases shape with
      | marker pending part proper =>
          have shorter := length_lt_of_proper part proper
          have absent : pending.dropInfix? tokenPrefix = none := by
            rw [dropInfix?_eq_none_iff]
            intro occurs
            have size := occurs.length_le
            omega
          rw [restoreText_absent absent, finish,
            if_neg (not_prefix_of_shorter shorter)]
          exact SameOutcome.refl _
      | candidate body notInside =>
          exact restoreText_open notInside within
  | cons head rest inductionHypothesis =>
      have noOverflow := flushOverflow_of_within shape within
      obtain ⟨after, output, extended, afterShape, afterWithin, batch⟩ :=
        @extendPending_spec runtime restore pending rest head shape within
      rw [pushChars, pushChar, noOverflow, batch]
      simp only [extended, empty_append, RestoreResult.append_assoc]
      exact (SameOutcome.refl output).append
        (inductionHypothesis afterShape afterWithin)

theorem pushChars_append (pending left right : Text) :
    pushChars runtime restore pending (left ++ right) =
      ((pushChars runtime restore
          (pushChars runtime restore pending left).1 right).1,
        (pushChars runtime restore pending left).2 ++
          (pushChars runtime restore
            (pushChars runtime restore pending left).1 right).2) := by
  induction left generalizing pending with
  | nil =>
      simp [pushChars]
  | cons head tail inductionHypothesis =>
      simp only [List.cons_append, pushChars, inductionHypothesis,
        RestoreResult.append_assoc]

/-- Cutting a text into fragments does not matter. -/
theorem concatenated_eq (stream : StreamingRestoreContext)
    (fragments : List Text) :
    stream.concatenated runtime fragments =
      (pushChars runtime stream.restore stream.pending
          fragments.flatten).2 ++
        finish ⟨stream.restore,
          (pushChars runtime stream.restore stream.pending
            fragments.flatten).1⟩ := by
  induction fragments generalizing stream with
  | nil =>
      simp [concatenated, results, pushChars]
  | cons fragment fragments inductionHypothesis =>
      have rest :=
        inductionHypothesis (stream.pushStr runtime fragment).1
      rw [concatenated] at rest ⊢
      rw [results, List.foldr_cons, rest, List.flatten_cons,
        pushChars_append]
      simp only [pushStr, RestoreResult.append_assoc]

end Step

/-- Streaming a text in any fragments has the outcome of restoring it at once,
as long as no candidate of the text is longer than the pending limit. -/
theorem streaming_restore_eq_batch_restore
    (runtime : Runtime) (session : RedactionSession)
    (permits : List RestorePermit) (context : RestoreContext)
    (accepted : RestoreContext.withPermits session permits = .ok context)
    (text : Text) (within : CandidatesWithin text)
    (fragments : List Text) (cut : fragments.flatten = text) :
    ∃ stream,
      StreamingRestoreContext.withPermits session permits = .ok stream ∧
        SameOutcome (stream.concatenated runtime fragments)
          (context.restoreText runtime text) := by
  refine ⟨⟨context, []⟩, ?_, ?_⟩
  · rw [StreamingRestoreContext.withPermits, accepted, ok_bind]
  · rw [concatenated_eq, cut]
    exact pushChars_finish_sameOutcome pendingShape_nil
      (by rwa [List.nil_append])

/-- A token behind a partial marker, next to characters of several bytes, and a
marker that stays open; the cuts fall into the marker and into the suffix. -/
theorem streaming_restore_eq_batch_restore_split_marker :
    ∃ stream,
      StreamingRestoreContext.withPermits (sampleSession []) [samplePermit] =
          .ok stream ∧
        SameOutcome
          (stream.concatenated sampleRuntime
            [lit "é[[[RD", [], lit "X:v2:ab:EMAIL:001:5393acba]",
              lit "]é[[RDX:v2:", lit "x"])
          (RestoreContext.restoreText sampleRuntime
            (RestoreContext.fromAuthorizedTokens (sampleSession [])
              [sampleToken 1])
            (lit "é[[[RDX:v2:ab:EMAIL:001:5393acba]]é[[RDX:v2:x")) := by
  refine streaming_restore_eq_batch_restore sampleRuntime (sampleSession [])
    [samplePermit] _ ?_ _ ?_ _ ?_
  · rfl
  · unfold CandidatesWithin
    decide +kernel
  · decide +kernel

end Redactor
