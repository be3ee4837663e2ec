import Redactor.Library.Occurrences
import Redactor.Replace.RoundTrip

/-!
# Texts with copied tokens

A text into which tokens were copied has one marker for each copy.  The scanner
visits the copies one by one; a token behind a stretch of text is visited on
its own exactly when every marker of the stretch is closed in it.
-/

namespace Redactor

open Utf8 Fallible RestoreResult

/-- A token that parses. -/
def IsValidToken (runtime : Runtime) (token : Text) : Prop :=
  ∃ parsed, parseToken runtime token = .ok parsed

/-- A token that parses, in a scope without closing brackets. -/
def IsWholeToken (runtime : Runtime) (token : Text) : Prop :=
  ∃ parsed, parseToken runtime token = .ok parsed ∧
    ¬ tokenSuffix <:+: parsed.scopeId

/-- The text between the marker and the closing brackets. -/
structure IsInner (inner : Text) : Prop where
  markerFree : MarkerFree inner
  closing : NotBefore tokenSuffix (inner ++ tokenSuffix) inner.length

theorem notBefore_append_right {needle before after : Text}
    (first : NotBefore needle (before ++ (needle ++ after)) before.length)
    (rest : Text) :
    NotBefore needle (before ++ (needle ++ (after ++ rest)))
      before.length := by
  intro position inside starts
  refine first position inside ?_
  have longer :
      before ++ (needle ++ (after ++ rest)) =
        (before ++ (needle ++ after)) ++ rest := by
    simp only [List.append_assoc]
  rw [longer, List.drop_append_of_le_length (by simp; omega)] at starts
  refine List.prefix_of_prefix_length_le starts (List.prefix_append _ _) ?_
  simp only [List.length_drop, List.length_append]
  omega

/-- No marker starts in a scope without a colon, nor in its fields. -/
theorem markerFree_of_fields {scopeId fields : Text}
    (noColon : ':' ∉ scopeId) (noOpening : '[' ∉ fields)
    (noVersion : ¬ lit "v2:" <+: fields) :
    MarkerFree (scopeId ++ ':' :: fields) := by
  intro starts
  obtain ⟨before, after, shape⟩ := starts
  have split :
      (before ++ lit "[[RDX") ++ ':' :: (lit "v2:" ++ after) =
        scopeId ++ ':' :: fields := by
    rw [← shape]
    simp [tokenPrefix, lit]
  rcases List.append_eq_append_iff.mp split with
    ⟨part, isScope, isRest⟩ | ⟨part, isFront, isFields⟩
  · cases part with
    | nil =>
        exact noVersion ⟨after, (List.cons.inj isRest).2⟩
    | cons head part =>
        have isColon := (List.cons.inj isRest).1
        rw [isScope, ← isColon] at noColon
        simp at noColon
  · cases part with
    | nil =>
        exact noVersion ⟨after, (List.cons.inj isFields).2.symm⟩
    | cons head part =>
        -- the fields begin before the last part of the marker, behind a colon
        obtain ⟨isColon, isRest⟩ := List.cons.inj isFields
        rw [isRest] at noOpening
        rw [← isColon] at isFront
        rcases List.append_eq_append_iff.mp isFront with
          ⟨early, _, isMarker⟩ | ⟨late, _, isPart⟩
        · have colon : ':' ∈ lit "[[RDX" := by rw [isMarker]; simp
          exact absurd colon (by decide)
        · cases late with
          | nil =>
              exact absurd (List.cons.inj isPart).1 (by decide)
          | cons first late =>
              rw [(List.cons.inj isPart).2] at noOpening
              simp [lit] at noOpening

/-- Without closing brackets in its scope, a token ends at its first ones. -/
theorem notBefore_tokenSuffix_of_scope {scopeId fields : Text}
    (noSuffix : ¬ tokenSuffix <:+: scopeId) (clean : ']' ∉ fields)
    (rest : Text) :
    NotBefore tokenSuffix
      ((scopeId ++ ':' :: fields) ++ (tokenSuffix ++ rest))
      (scopeId ++ ':' :: fields).length := by
  have behind :
      NotBefore tokenSuffix
        (':' :: fields ++ (tokenSuffix ++ rest))
        (':' :: fields).length := by
    have noClosing : ']' ∉ ':' :: fields := by
      simp [clean]
    exact notBefore_of_not_mem noClosing
  rw [List.append_assoc, List.length_append]
  apply NotBefore.append _ behind
  exact notBefore_of_foreign noSuffix (by decide)

section Tokens

variable {runtime : Runtime}

/-- A token that parses has no second marker. -/
theorem markerFree_of_parseToken {token : Text} {parsed : ParsedToken}
    (read : parseToken runtime token = .ok parsed) :
    ∃ inner, token = tokenPrefix ++ (inner ++ tokenSuffix) ∧
      MarkerFree inner ∧
      (¬ tokenSuffix <:+: parsed.scopeId → IsInner inner) := by
  obtain ⟨scope, _, _⟩ := of_parseToken_eq_ok read
  obtain ⟨fields, shape, _, clean, noVersion⟩ := fields_of_parseToken read
  have markerFree :=
    markerFree_of_fields scope.2 (clean '[' (by decide)) noVersion
  refine ⟨_, shape, markerFree, fun noSuffix => ⟨markerFree, ?_⟩⟩
  have closing :=
    notBefore_tokenSuffix_of_scope noSuffix (clean ']' (by decide)) []
  rwa [List.append_nil] at closing

theorem IsWholeToken.exists_inner {token : Text}
    (whole : IsWholeToken runtime token) :
    ∃ inner, token = tokenPrefix ++ (inner ++ tokenSuffix) ∧
      IsInner inner := by
  obtain ⟨parsed, read, noSuffix⟩ := whole
  obtain ⟨inner, shape, _, isInner⟩ := markerFree_of_parseToken read
  exact ⟨inner, shape, isInner noSuffix⟩

theorem IsInner.notBefore {inner : Text} (isInner : IsInner inner)
    (rest : Text) :
    NotBefore tokenSuffix (inner ++ (tokenSuffix ++ rest)) inner.length := by
  have closing :
      NotBefore tokenSuffix (inner ++ (tokenSuffix ++ [])) inner.length := by
    rw [List.append_nil]
    exact isInner.closing
  exact notBefore_append_right closing rest

/-- The marker of a token is the only one in it, also in front of other
text. -/
theorem occurrences_token {inner : Text} (markerFree : MarkerFree inner)
    (rest : Text) :
    occurrences tokenPrefix
        (tokenPrefix ++ (inner ++ (tokenSuffix ++ rest))) =
      1 + occurrences tokenPrefix rest := by
  have behindMarker :
      Utf8.occurrences tokenPrefix
          (lit "RDX:v2:" ++ (inner ++ (tokenSuffix ++ rest))) =
        Utf8.occurrences tokenPrefix (inner ++ (tokenSuffix ++ rest)) :=
    occurrences_append_eq_iff.mpr (notBefore_of_not_mem (by decide))
  have behindInner :
      Utf8.occurrences tokenPrefix (inner ++ (tokenSuffix ++ rest)) =
        Utf8.occurrences tokenPrefix (tokenSuffix ++ rest) :=
    occurrences_append_eq_iff.mpr
      (notBefore_of_foreign markerFree (by decide))
  have behindSuffix :
      Utf8.occurrences tokenPrefix (tokenSuffix ++ rest) =
        Utf8.occurrences tokenPrefix rest :=
    occurrences_append_eq_iff.mpr (notBefore_of_not_mem (by decide))
  have opened :
      tokenPrefix ++ (inner ++ (tokenSuffix ++ rest)) =
        '[' :: '[' ::
          (lit "RDX:v2:" ++ (inner ++ (tokenSuffix ++ rest))) := by
    simp [tokenPrefix, lit]
  have starts :
      tokenPrefix <+:
        '[' :: '[' ::
          (lit "RDX:v2:" ++ (inner ++ (tokenSuffix ++ rest))) := by
    rw [← opened]
    exact List.prefix_append _ _
  have notSecond :
      ¬ tokenPrefix <+:
        '[' :: (lit "RDX:v2:" ++ (inner ++ (tokenSuffix ++ rest))) := by
    simp [tokenPrefix, lit]
  rw [opened, Utf8.occurrences, if_pos starts, Utf8.occurrences,
    if_neg notSecond, behindMarker, behindInner, behindSuffix, Nat.zero_add]

/-- A candidate that runs on over another marker does not parse. -/
theorem parseToken_of_nested (after inner : Text) :
    ∃ message,
      parseToken runtime
          (tokenPrefix ++ ((after ++ (tokenPrefix ++ inner)) ++ tokenSuffix)) =
        .error message := by
  cases read :
      parseToken runtime
        (tokenPrefix ++
          ((after ++ (tokenPrefix ++ inner)) ++ tokenSuffix)) with
  | error message =>
      exact ⟨message, rfl⟩
  | ok parsed =>
      obtain ⟨whole, shape, markerFree, _⟩ := markerFree_of_parseToken read
      have same : after ++ (tokenPrefix ++ inner) = whole :=
        List.append_cancel_right (List.append_cancel_left shape)
      exfalso
      apply markerFree
      rw [← same, ← List.append_assoc]
      exact ⟨after, inner, rfl⟩

end Tokens

/-! ## Closed stretches -/

/-- Every marker of the text is closed in it. -/
inductive Settled : Text → Prop
  | absent {text : Text} : MarkerFree text → Settled text
  | closed {before body remaining : Text} :
      NotBefore tokenPrefix
        (before ++ (tokenPrefix ++ (body ++ (tokenSuffix ++ remaining))))
        before.length →
      NotBefore tokenSuffix (body ++ (tokenSuffix ++ remaining))
        body.length →
      Settled remaining →
      Settled
        (before ++ (tokenPrefix ++ (body ++ (tokenSuffix ++ remaining))))

/-- No closing brackets run across the begin of a token. -/
theorem notBefore_tokenSuffix {after : Text}
    (neverClosed : ¬ tokenSuffix <:+: after) (rest : Text) :
    NotBefore tokenSuffix (after ++ '[' :: rest) after.length :=
  notBefore_of_foreign neverClosed (by decide)

section Stretches

variable {runtime : Runtime} {context : RestoreContext}

/-- Behind a closed stretch restoration begins anew with a token. -/
theorem restoreText_settled {gap inner : Text} (settled : Settled gap)
    (isInner : IsInner inner) (rest : Text) :
    context.restoreText runtime
        (gap ++ (tokenPrefix ++ (inner ++ (tokenSuffix ++ rest)))) =
      context.restoreText runtime gap ++
          context.restoreCandidate runtime
            (tokenPrefix ++ (inner ++ tokenSuffix)) ++
        context.restoreText runtime rest := by
  induction settled with
  | absent markerFree =>
      rw [RestoreContext.restoreText_closed
          (borderless_tokenPrefix.notBefore markerFree)
          (isInner.notBefore rest),
        RestoreContext.restoreText_absent
          (dropInfix?_eq_none_iff.mpr markerFree)]
  | @closed before body remaining first firstClosing _ inductionHypothesis =>
      have firstLonger :=
        notBefore_append_right first
          (tokenPrefix ++ (inner ++ (tokenSuffix ++ rest)))
      have closingLonger :=
        notBefore_append_right firstClosing
          (tokenPrefix ++ (inner ++ (tokenSuffix ++ rest)))
      simp only [List.append_assoc] at firstLonger closingLonger ⊢
      rw [RestoreContext.restoreText_closed firstLonger closingLonger,
        RestoreContext.restoreText_closed first firstClosing,
        inductionHypothesis]
      simp only [RestoreResult.append_assoc]

theorem isValid_restoreCandidate_error {candidate message : Text}
    (malformed : parseToken runtime candidate = .error message) :
    (context.restoreCandidate runtime candidate).isValid = false := by
  simp only [RestoreContext.restoreCandidate, malformed]
  rfl

/-- The markers of a stretch are closed before a candidate behind it that is
closed, and this one parses, or the result is invalid. -/
theorem settled_of_isValid_append {gap body rest : Text}
    (firstClosing :
      NotBefore tokenSuffix (body ++ (tokenSuffix ++ rest)) body.length)
    (valid :
      (context.restoreText runtime
        (gap ++
          (tokenPrefix ++ (body ++ (tokenSuffix ++ rest))))).isValid =
        true) :
    Settled gap ∧
      IsValidToken runtime (tokenPrefix ++ (body ++ tokenSuffix)) := by
  induction size : gap.length using Nat.strongRecOn generalizing gap with
  | ind size inductionHypothesis =>
      subst size
      cases scanShape gap with
      | absent absent =>
          have markerFree := dropInfix?_eq_none_iff.mp absent
          rw [RestoreContext.restoreText_closed
              (borderless_tokenPrefix.notBefore markerFree) firstClosing,
            isValid_append, isValid_append, Bool.and_eq_true,
            Bool.and_eq_true] at valid
          refine ⟨.absent markerFree, ?_⟩
          cases read :
              parseToken runtime (tokenPrefix ++ (body ++ tokenSuffix)) with
          | ok parsed =>
              exact ⟨parsed, read⟩
          | error message =>
              rw [isValid_restoreCandidate_error read] at valid
              cases valid.1.2
      | closed before inner remaining first innerClosing =>
          have firstLonger :=
            notBefore_append_right first
              (tokenPrefix ++ (body ++ (tokenSuffix ++ rest)))
          have closingLonger :=
            notBefore_append_right innerClosing
              (tokenPrefix ++ (body ++ (tokenSuffix ++ rest)))
          simp only [List.append_assoc] at firstLonger closingLonger valid
          rw [RestoreContext.restoreText_closed firstLonger closingLonger,
            isValid_append, Bool.and_eq_true] at valid
          obtain ⟨settled, isValid⟩ :=
            inductionHypothesis _
              (by simp [tokenPrefix, lit]; omega) valid.2 rfl
          exact ⟨.closed first innerClosing settled, isValid⟩
      | unclosed before after first neverClosed =>
          -- the candidate of the last marker runs on over the one behind
          obtain ⟨message, malformed⟩ :=
            @parseToken_of_nested runtime after body
          have closing :
              NotBefore tokenSuffix
                ((after ++ (tokenPrefix ++ body)) ++ (tokenSuffix ++ rest))
                (after ++ (tokenPrefix ++ body)).length := by
            have inMarker :
                NotBefore tokenSuffix
                  (tokenPrefix ++ (body ++ (tokenSuffix ++ rest)))
                  tokenPrefix.length :=
              notBefore_of_not_mem (by decide)
            have later := inMarker.append firstClosing
            rw [List.append_assoc, List.append_assoc, List.length_append,
              List.length_append]
            exact
              (notBefore_tokenSuffix neverClosed _).append later
          have firstLonger :=
            notBefore_append_right first
              (tokenPrefix ++ (body ++ (tokenSuffix ++ rest)))
          have shape :
              (before ++ (tokenPrefix ++ after)) ++
                  (tokenPrefix ++ (body ++ (tokenSuffix ++ rest))) =
                before ++
                  (tokenPrefix ++
                    ((after ++ (tokenPrefix ++ body)) ++
                      (tokenSuffix ++ rest))) := by
            simp only [List.append_assoc]
          rw [show
            after ++ (tokenPrefix ++ (body ++ (tokenSuffix ++ rest))) =
              (after ++ (tokenPrefix ++ body)) ++ (tokenSuffix ++ rest) by
            simp only [List.append_assoc]] at firstLonger
          rw [shape,
            RestoreContext.restoreText_closed firstLonger closing,
            isValid_append, isValid_append,
            isValid_restoreCandidate_error malformed] at valid
          simp at valid

theorem length_skippedTokens_restoreCandidate (candidate : Text) :
    (context.restoreCandidate runtime candidate).skippedTokens.length ≤
      1 := by
  unfold RestoreContext.restoreCandidate
  split
  · split
    · simp
    · split <;> simp [plain, RestoreResult.empty]
  · simp [plain, RestoreResult.empty]

/-- Every token that is skipped has a marker of its own. -/
theorem length_skippedTokens_le (text : Text) :
    (context.restoreText runtime text).skippedTokens.length ≤
      occurrences tokenPrefix text := by
  have candidate (before after rest : Text) :
      1 + occurrences tokenPrefix rest ≤
        occurrences tokenPrefix
          (before ++ (tokenPrefix ++ (after ++ rest))) := by
    have split :
        before ++ (tokenPrefix ++ (after ++ rest)) =
          (before ++ (tokenPrefix ++ after)) ++ rest := by
      simp only [List.append_assoc]
    have joined :=
      @occurrences_add_le tokenPrefix (before ++ (tokenPrefix ++ after)) rest
    have front :=
      @occurrences_add_le tokenPrefix before (tokenPrefix ++ after)
    have marker := @one_le_occurrences tokenPrefix (by decide) after
    rw [split]
    omega
  induction size : text.length using Nat.strongRecOn generalizing text with
  | ind size inductionHypothesis =>
      subst size
      cases scanShape text with
      | absent absent =>
          rw [RestoreContext.restoreText_absent absent]
          exact Nat.zero_le _
      | closed before body remaining first firstClosing =>
          have rest := inductionHypothesis _ (by simp [tokenPrefix, lit]; omega)
            remaining rfl
          have here :=
            @length_skippedTokens_restoreCandidate runtime context
              (tokenPrefix ++ (body ++ tokenSuffix))
          have counted := candidate before (body ++ tokenSuffix) remaining
          rw [RestoreContext.restoreText_closed first firstClosing]
          simp only [skippedTokens_append, List.length_append,
            List.append_assoc] at counted ⊢
          have none : (plain before).skippedTokens.length = 0 := rfl
          omega
      | unclosed before after first neverClosed =>
          have whole := splitWithin_append maxTokenCandidateBytes after
          have shorter :=
            congrArg List.length whole
          have rest := inductionHypothesis _ (by
            simp only [List.length_append] at shorter ⊢
            simp [tokenPrefix, lit]
            omega) (splitWithin maxTokenCandidateBytes after).2 rfl
          have here :=
            @length_skippedTokens_restoreCandidate runtime context
              (tokenPrefix ++ (splitWithin maxTokenCandidateBytes after).1)
          have counted :=
            candidate before (splitWithin maxTokenCandidateBytes after).1
              (splitWithin maxTokenCandidateBytes after).2
          rw [whole] at counted
          rw [RestoreContext.restoreText_unclosed first neverClosed]
          simp only [skippedTokens_append, List.length_append]
          have none : (plain before).skippedTokens.length = 0 := rfl
          omega

/-- What is skipped parses and ends at its first closing brackets. -/
theorem isWholeToken_of_mem_skippedTokens {text token : Text}
    (member :
      token ∈ (context.restoreText runtime text).skippedTokens) :
    IsWholeToken runtime token := by
  have ofCandidate {candidate : Text}
      (skipped :
        token ∈ (context.restoreCandidate runtime candidate).skippedTokens) :
      token = candidate ∧ IsValidToken runtime candidate := by
    unfold RestoreContext.restoreCandidate at skipped
    split at skipped
    · rename_i parsed read
      split at skipped
      · exact ⟨List.mem_singleton.mp skipped, parsed, read⟩
      · split at skipped <;> cases skipped
    · cases skipped
  induction size : text.length using Nat.strongRecOn generalizing text with
  | ind size inductionHypothesis =>
      subst size
      cases scanShape text with
      | absent absent =>
          rw [RestoreContext.restoreText_absent absent] at member
          cases member
      | closed before body remaining first firstClosing =>
          rw [RestoreContext.restoreText_closed first firstClosing] at member
          simp only [skippedTokens_append, List.mem_append] at member
          rcases member with (inFront | here) | later
          · cases inFront
          · obtain ⟨rfl, parsed, read⟩ := ofCandidate here
            refine ⟨parsed, read, ?_⟩
            intro closed
            obtain ⟨fields, shape, _⟩ := fields_of_parseToken read
            have isBody : body = parsed.scopeId ++ ':' :: fields :=
              List.append_cancel_right (List.append_cancel_left shape)
            obtain ⟨front, back, isScope⟩ := closed
            apply firstClosing front.length
            · rw [isBody, ← isScope]
              simp [tokenSuffix, lit]
            · rw [isBody, ← isScope]
              simp only [List.append_assoc, List.drop_left]
              exact List.prefix_append _ _
          · exact
              inductionHypothesis _ (by simp [tokenPrefix, lit]; omega)
                later rfl
      | unclosed before after first neverClosed =>
          have whole := splitWithin_append maxTokenCandidateBytes after
          have shorter := congrArg List.length whole
          rw [RestoreContext.restoreText_unclosed first neverClosed] at member
          simp only [skippedTokens_append, List.mem_append] at member
          rcases member with (inFront | here) | later
          · cases inFront
          · exfalso
            obtain ⟨_, parsed, read⟩ := ofCandidate here
            obtain ⟨fields, shape, _⟩ := fields_of_parseToken read
            apply neverClosed
            have isPart := List.append_cancel_left shape
            rw [← whole, isPart]
            exact
              ⟨parsed.scopeId ++ ':' :: fields,
                (splitWithin maxTokenCandidateBytes after).2, rfl⟩
          · apply inductionHypothesis _ _ later rfl
            rw [List.length_append] at shorter
            simp [tokenPrefix, lit]
            omega

/-- The scanner visits the candidates of a closed stretch, and goes on behind
it. -/
theorem scanFrom_settled {gap rest : Text} (settled : Settled gap)
    (apart :
      occurrences tokenPrefix (gap ++ rest) =
        occurrences tokenPrefix gap + occurrences tokenPrefix rest)
    (index : Nat) :
    ∃ inside,
      scanFrom index (gap ++ rest) =
          inside ++ scanFrom (index + byteLen gap) rest ∧
        ∀ range ∈ inside, range.2 ≤ index + byteLen gap := by
  induction settled generalizing index with
  | @absent gap markerFree =>
      rw [occurrences_of_absent markerFree, Nat.zero_add] at apart
      refine ⟨[], ?_, by simp⟩
      exact scanFrom_skip (occurrences_append_eq_iff.mp apart)
  | @closed before body remaining first firstClosing _ inductionHypothesis =>
      have firstLonger := notBefore_append_right first rest
      have closingLonger := notBefore_append_right firstClosing rest
      have later :
          occurrences tokenPrefix (remaining ++ rest) =
            occurrences tokenPrefix remaining +
              occurrences tokenPrefix rest := by
        have front :
            before ++
                (tokenPrefix ++ (body ++ (tokenSuffix ++ remaining))) =
              (before ++ (tokenPrefix ++ (body ++ tokenSuffix))) ++
                remaining := by
          simp only [List.append_assoc]
        rw [front, List.append_assoc] at apart
        exact occurrences_append_of_tail apart
      obtain ⟨inside, scanned, bounded⟩ :=
        inductionHypothesis later
          (index + byteLen before +
            byteLen (tokenPrefix ++ (body ++ tokenSuffix)))
      have size :
          index + byteLen before +
                byteLen (tokenPrefix ++ (body ++ tokenSuffix)) +
              byteLen remaining =
            index +
              byteLen
                (before ++
                  (tokenPrefix ++ (body ++ (tokenSuffix ++ remaining)))) := by
        simp only [byteLen_append]
        omega
      rw [size] at scanned bounded
      simp only [List.append_assoc] at firstLonger closingLonger ⊢
      refine ⟨(index + byteLen before,
          index + byteLen before +
            byteLen (tokenPrefix ++ (body ++ tokenSuffix))) :: inside,
        ?_, ?_⟩
      · rw [scanFrom_closed firstLonger closingLonger, scanned,
          List.cons_append]
      · intro range member
        rcases List.mem_cons.mp member with here | further
        · rw [here]
          simp only [byteLen_append]
          omega
        · have bound := bounded range further
          simpa only [List.append_assoc] using bound

/-- What the scanner visits begins at the index or behind it. -/
theorem le_of_mem_scanFrom {index : Nat} {rest : Text} {range : Nat × Nat}
    (member : range ∈ scanFrom index rest) : index ≤ range.1 := by
  have shifted := scanFrom_shift index 0 rest
  rw [Nat.add_zero] at shifted
  rw [shifted] at member
  obtain ⟨original, _, rfl⟩ := List.mem_map.mp member
  exact Nat.le_add_right _ _

end Stretches

/-! ## Copied tokens -/

/-- A text of plain segments and of copies of tokens, with the copied tokens in
order. -/
inductive Copied (isToken : Text → Prop) : Text → List Text → Prop
  | plain {segment : Text} : MarkerFree segment → Copied isToken segment []
  | copy {segment token rest : Text} {tokens : List Text} :
      MarkerFree segment → isToken token →
      Copied isToken rest tokens →
      Copied isToken (segment ++ (token ++ rest)) (token :: tokens)

theorem Copied.of_forall {isToken isOther : Text → Prop} {text : Text}
    {tokens : List Text} (copied : Copied isToken text tokens)
    (others : ∀ token ∈ tokens, isOther token) :
    Copied isOther text tokens := by
  induction copied with
  | plain markerFree =>
      exact .plain markerFree
  | copy markerFree _ _ inductionHypothesis =>
      exact .copy markerFree (others _ List.mem_cons_self)
        (inductionHypothesis fun token member =>
          others token (List.mem_cons_of_mem _ member))

/-- The result of restoring a text into which tokens were copied: the copies
that are not authorized are skipped, and nothing else happens when none is. -/
structure LeavesCopies (context : RestoreContext) (text : Text)
    (tokens : List Text) (result : RestoreResult) : Prop where
  valid : result.isValid = true
  skipped :
    result.skippedTokens =
      tokens.filter fun token => decide (token ∉ context.authorizedTokens)
  restored :
    (∀ token ∈ tokens, token ∉ context.authorizedTokens) →
      result.restoredText = text

section Copies

variable {runtime : Runtime} {context : RestoreContext}

theorem LeavesCopies.plain {text : Text} :
    LeavesCopies context text [] (RestoreResult.plain text) where
  valid := rfl
  skipped := rfl
  restored _ := rfl

/-- A replaced original comes back. -/
theorem LeavesCopies.complete {original : Text} {count : Nat} :
    LeavesCopies context original [] (.complete original count) where
  valid := rfl
  skipped := rfl
  restored _ := rfl

theorem LeavesCopies.append {left right : Text}
    {leftTokens rightTokens : List Text} {first second : RestoreResult}
    (before : LeavesCopies context left leftTokens first)
    (after : LeavesCopies context right rightTokens second) :
    LeavesCopies context (left ++ right) (leftTokens ++ rightTokens)
      (first ++ second) where
  valid := by
    rw [isValid_append, before.valid, after.valid]
    rfl
  skipped := by
    rw [skippedTokens_append, before.skipped, after.skipped,
      List.filter_append]
  restored := by
    intro unauthorized
    have onLeft := before.restored fun token member =>
      unauthorized token (List.mem_append_left _ member)
    have onRight := after.restored fun token member =>
      unauthorized token (List.mem_append_right _ member)
    rw [restoredText_append, onLeft, onRight]

/-- One copied token. -/
theorem leavesCopies_token {token : Text}
    (whole : IsWholeToken runtime token)
    (resolved :
      token ∈ context.authorizedTokens →
        ∃ original, context.original? token = some original) :
    LeavesCopies context token [token]
      (context.restoreCandidate runtime token) := by
  obtain ⟨parsed, read, _⟩ := whole
  by_cases authorized : token ∈ context.authorizedTokens
  · obtain ⟨original, found⟩ := resolved authorized
    rw [restoreCandidate_of_authorized read authorized found]
    refine ⟨rfl, ?_, ?_⟩
    · simp [authorized, RestoreResult.complete, RestoreResult.plain,
        RestoreResult.empty]
    · intro unauthorized
      exact absurd authorized (unauthorized token List.mem_cons_self)
  · rw [restoreCandidate_of_unauthorized read authorized]
    refine ⟨rfl, ?_, fun _ => rfl⟩
    simp [authorized]

section Text

variable {text : Text} {tokens : List Text}

theorem Copied.settled (copied : Copied (IsWholeToken runtime) text tokens) :
    Settled text := by
  induction copied with
  | plain markerFree =>
      exact .absent markerFree
  | copy markerFree isWhole _ inductionHypothesis =>
      obtain ⟨inner, rfl, isInner⟩ := isWhole.exists_inner
      simp only [List.append_assoc]
      exact .closed (borderless_tokenPrefix.notBefore markerFree)
        (isInner.notBefore _) inductionHypothesis

/-- Every copy has one marker, and nothing else has any. -/
theorem Copied.occurrences
    (copied : Copied (IsWholeToken runtime) text tokens) :
    occurrences tokenPrefix text = tokens.length := by
  induction copied with
  | plain markerFree =>
      exact occurrences_of_absent markerFree
  | @copy segment token rest tokens markerFree isWhole _
      inductionHypothesis =>
      obtain ⟨inner, rfl, isInner⟩ := isWhole.exists_inner
      have skipped :
          Utf8.occurrences tokenPrefix
              (segment ++ (tokenPrefix ++ (inner ++ (tokenSuffix ++ rest)))) =
            Utf8.occurrences tokenPrefix
              (tokenPrefix ++ (inner ++ (tokenSuffix ++ rest))) :=
        occurrences_append_eq_iff.mpr
          (borderless_tokenPrefix.notBefore markerFree)
      simp only [List.append_assoc]
      rw [skipped, occurrences_token isInner.markerFree, inductionHypothesis,
        List.length_cons, Nat.add_comm]

theorem Copied.restoreText (copied : Copied (IsWholeToken runtime) text tokens)
    (resolved :
      ∀ token ∈ context.authorizedTokens,
        ∃ original, context.original? token = some original) :
    LeavesCopies context text tokens
      (context.restoreText runtime text) := by
  induction copied with
  | plain markerFree =>
      rw [RestoreContext.restoreText_absent
        (dropInfix?_eq_none_iff.mpr markerFree)]
      exact .plain
  | @copy segment token rest tokens markerFree isWhole _ inductionHypothesis =>
      have front :
          LeavesCopies context segment [] (RestoreResult.plain segment) :=
        .plain
      have one :
          LeavesCopies context token [token]
            (context.restoreCandidate runtime token) :=
        leavesCopies_token isWhole (resolved token)
      obtain ⟨inner, shape, isInner⟩ := isWhole.exists_inner
      have scanned :=
        @restoreText_settled runtime context segment inner
          (.absent markerFree) isInner rest
      rw [RestoreContext.restoreText_absent
        (dropInfix?_eq_none_iff.mpr markerFree)] at scanned
      have whole :
          segment ++ (token ++ rest) =
            segment ++ (tokenPrefix ++ (inner ++ (tokenSuffix ++ rest))) := by
        rw [shape]
        simp only [List.append_assoc]
      have joined := (front.append one).append inductionHypothesis
      rw [whole, scanned, ← shape, ← whole, ← List.append_assoc]
      exact joined

/-- A cut that overlaps no copy leaves the copies in front of it and behind it
whole. -/
theorem Copied.split (copied : Copied (IsWholeToken runtime) text tokens)
    {gap middle rest : Text} (shape : text = gap ++ (middle ++ rest))
    {index : Nat}
    (apart :
      ∀ range ∈ scanFrom index text,
        index + byteLen gap + byteLen middle ≤ range.1 ∨
          range.2 ≤ index + byteLen gap) :
    ∃ before after, tokens = before ++ after ∧
      Copied (IsWholeToken runtime) gap before ∧
        Copied (IsWholeToken runtime) rest after := by
  induction copied generalizing gap middle rest index with
  | plain markerFree =>
      rw [shape] at markerFree
      refine ⟨[], [], rfl, .plain ?_, .plain ?_⟩
      · intro inGap
        exact markerFree (inGap.trans (List.prefix_append _ _).isInfix)
      · intro inRest
        refine markerFree (inRest.trans ?_)
        rw [← List.append_assoc]
        exact (List.suffix_append _ _).isInfix
  | @copy segment token others tokens markerFree isWhole copiedRest
      inductionHypothesis =>
      obtain ⟨inner, isToken, isInner⟩ := isWhole.exists_inner
      have whole :
          segment ++ (token ++ others) =
            segment ++
              (tokenPrefix ++ (inner ++ (tokenSuffix ++ others))) := by
        rw [isToken]
        simp only [List.append_assoc]
      have scanned :=
        @scanFrom_closed index segment inner others
          (borderless_tokenPrefix.notBefore markerFree)
          (isInner.notBefore others)
      rw [← isToken, ← whole] at scanned
      rw [scanned] at apart
      rcases apart _ List.mem_cons_self with before | behind
      · -- the cut lies in the segment
        have fits : byteLen (gap ++ middle) ≤ byteLen segment := by
          rw [byteLen_append]
          simp only at before
          omega
        rw [← List.append_assoc gap] at shape
        obtain ⟨between, isSegment, isRest⟩ :=
          append_of_byteLen_le shape.symm fits
        refine ⟨[], token :: tokens, rfl, .plain ?_, ?_⟩
        · intro inGap
          rw [isSegment, List.append_assoc] at markerFree
          exact markerFree (inGap.trans (List.prefix_append _ _).isInfix)
        · rw [isRest]
          refine .copy ?_ isWhole copiedRest
          intro inBetween
          rw [isSegment] at markerFree
          exact markerFree (inBetween.trans (List.suffix_append _ _).isInfix)
      · -- the copy lies in the gap
        have fits : byteLen (segment ++ token) ≤ byteLen gap := by
          rw [byteLen_append]
          simp only at behind
          omega
        rw [← List.append_assoc] at shape
        obtain ⟨between, isGap, isOthers⟩ := append_of_byteLen_le shape fits
        obtain ⟨before, after, parts, copiedBetween, copiedAfter⟩ :=
          inductionHypothesis isOthers (by
            intro range member
            have bounds := apart range (List.mem_cons_of_mem _ member)
            rw [isGap] at bounds
            simpa only [byteLen_append, Nat.add_assoc] using bounds)
        refine ⟨token :: before, after, by rw [parts]; rfl, ?_, copiedAfter⟩
        rw [isGap, List.append_assoc]
        exact .copy markerFree isWhole copiedBetween

end Text

end Copies

end Redactor
