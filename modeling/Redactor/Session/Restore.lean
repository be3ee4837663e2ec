import Redactor.Session.Permit

/-!
# Batch restoration

`restoreText` visits the token candidates of a text from left to right, copies
the stretches between them, and decides for each candidate whether it is
replaced, skipped or reported.

The results of consecutive stretches of a text are joined by `append`, which
makes restoration compositional: the three rules at the end say what the
result is for each shape the scanner distinguishes, and every later property
of `restoreText` is proved from them.
-/

namespace Redactor

open Utf8 Fallible

namespace RestoreResult

def empty : RestoreResult where
  restoredText := []
  restoredCount := 0
  skippedTokens := []
  unresolvedTokens := []
  validationErrors := []

/-- The results of the second stretch are added behind those of the first. -/
def mergeResult (target source : RestoreResult) : RestoreResult where
  restoredText := target.restoredText ++ source.restoredText
  restoredCount := target.restoredCount + source.restoredCount
  skippedTokens := target.skippedTokens ++ source.skippedTokens
  unresolvedTokens := target.unresolvedTokens ++ source.unresolvedTokens
  validationErrors := target.validationErrors ++ source.validationErrors

instance : Append RestoreResult := ⟨mergeResult⟩

/-- A stretch of text that is copied. -/
def plain (text : Text) : RestoreResult :=
  { empty with restoredText := text }

section Fields

variable (left right : RestoreResult) (text : Text)

@[simp]
theorem restoredText_append :
    (left ++ right).restoredText = left.restoredText ++ right.restoredText :=
  rfl

@[simp]
theorem restoredCount_append :
    (left ++ right).restoredCount =
      left.restoredCount + right.restoredCount := rfl

@[simp]
theorem skippedTokens_append :
    (left ++ right).skippedTokens =
      left.skippedTokens ++ right.skippedTokens := rfl

@[simp]
theorem unresolvedTokens_append :
    (left ++ right).unresolvedTokens =
      left.unresolvedTokens ++ right.unresolvedTokens := rfl

@[simp]
theorem validationErrors_append :
    (left ++ right).validationErrors =
      left.validationErrors ++ right.validationErrors := rfl

@[simp]
theorem isValid_append :
    (left ++ right).isValid = (left.isValid && right.isValid) := by
  simp only [isValid, validationErrors_append, unresolvedTokens_append]
  cases left.validationErrors <;> cases right.validationErrors <;>
    cases left.unresolvedTokens <;> simp

end Fields

@[simp]
theorem append_empty (result : RestoreResult) : result ++ empty = result := by
  apply RestoreResult.ext <;> simp [empty]

@[simp]
theorem empty_append (result : RestoreResult) : empty ++ result = result := by
  apply RestoreResult.ext <;> simp [empty]

theorem append_assoc (first second third : RestoreResult) :
    first ++ second ++ third = first ++ (second ++ third) := by
  apply RestoreResult.ext <;> simp [Nat.add_assoc]

theorem plain_append (left right : Text) :
    plain (left ++ right) = plain left ++ plain right := by
  apply RestoreResult.ext <;> simp [plain, empty]

@[simp]
theorem plain_nil : plain [] = empty := rfl

end RestoreResult

open RestoreResult

/-- The authorized tokens and the pairs collected into the token map. -/
structure RestoreContext where
  authorizedTokens : List Text
  tokenMap : List (Text × Text)

namespace RestoreContext

/-- Look a token up in the map; of two pairs with one key the map has kept the
one inserted last. -/
def original? (context : RestoreContext) (token : Text) : Option Text :=
  context.tokenMap.reverse.lookup token

def fromAuthorizedTokens (session : RedactionSession)
    (authorizedTokens : List Text) : RestoreContext where
  authorizedTokens := authorizedTokens
  tokenMap :=
    session.entries.map fun entry => (entry.token, entry.original)

@[simp]
theorem authorizedTokens_fromAuthorizedTokens (session : RedactionSession)
    (tokens : List Text) :
    (fromAuthorizedTokens session tokens).authorizedTokens = tokens := rfl

def withPermits (session : RedactionSession)
    (permits : List RestorePermit) : Except Text RestoreContext := do
  let authorized ← Redactor.authorizedTokens session permits
  .ok (fromAuthorizedTokens session authorized)

/-- `RestoreContext::new`: the session itself says what it issued. -/
def new (session : RedactionSession) : RestoreContext :=
  fromAuthorizedTokens session session.issuedTokens

variable (runtime : Runtime) (context : RestoreContext)

/-- The decision about one candidate. -/
def restoreCandidate (candidate : Text) : RestoreResult :=
  match parseToken runtime candidate with
  | .ok _ =>
      if candidate ∉ context.authorizedTokens then
        { plain candidate with skippedTokens := [candidate] }
      else
        match context.original? candidate with
        | some original => { plain original with restoredCount := 1 }
        | none =>
            { plain candidate with
              unresolvedTokens := [candidate]
              validationErrors :=
                [lit "authorized token " ++ quoted candidate ++
                  lit " is missing from session"] }
  | .error error =>
      { plain candidate with
        unresolvedTokens := [candidate]
        validationErrors :=
          [lit "malformed token " ++ quoted candidate ++ lit ": " ++ error] }

/-- The closure that the scanner calls: the text since the last candidate is
copied, then the candidate is decided.  The state is the result so far and the
end of the last candidate. -/
def visit (input : Text) (progress : RestoreResult × Nat)
    (range : Nat × Nat) : RestoreResult × Nat :=
  (progress.1 ++ plain (slice input progress.2 range.1) ++
      restoreCandidate runtime context (slice input range.1 range.2),
    range.2)

def restoreText (input : Text) : RestoreResult :=
  let progress :=
    (scanTokenLikeRanges input).foldl (visit runtime context input)
      (empty, 0)
  progress.1 ++ plain (slice input progress.2 (byteLen input))

end RestoreContext

def restoreTextWithSession (runtime : Runtime) (input : Text)
    (session : RedactionSession) : RestoreResult :=
  (RestoreContext.new session).restoreText runtime input

/-- The messages of an invalid result, joined. -/
def ensureRestoreValid (result : RestoreResult) : Except Text Unit :=
  if result.isValid then
    .ok ()
  else
    let unresolved :=
      if result.unresolvedTokens = [] then
        []
      else
        [lit "unresolved tokens: " ++
          (lit ", ").intercalate result.unresolvedTokens]
    .error ((lit "; ").intercalate (result.validationErrors ++ unresolved))

/-! ## Rules for the three shapes of a text -/

namespace RestoreContext

section Rules

variable {runtime : Runtime} {context : RestoreContext}

/-- The visits of the scan of `rest`, inside the input `before ++ rest`. -/
private def restoreFrom (runtime : Runtime) (context : RestoreContext)
    (before rest : Text) : RestoreResult :=
  let progress :=
    (scanFrom (byteLen before) rest).foldl
      (visit runtime context (before ++ rest)) (empty, byteLen before)
  progress.1 ++
    plain (slice (before ++ rest) progress.2 (byteLen (before ++ rest)))

private theorem slice_tail (before rest : Text) :
    slice (before ++ rest) (byteLen before) (byteLen (before ++ rest)) =
      rest := by
  have whole := slice_middle before rest []
  rwa [List.append_nil, ← byteLen_append] at whole

private theorem foldl_visit_append (input : Text)
    (ranges : List (Nat × Nat)) (result : RestoreResult) (cursor : Nat) :
    ranges.foldl (visit runtime context input) (result, cursor) =
      (result ++
          (ranges.foldl (visit runtime context input) (empty, cursor)).1,
        (ranges.foldl (visit runtime context input) (empty, cursor)).2) := by
  induction ranges generalizing result cursor with
  | nil =>
      simp
  | cons range rest inductionHypothesis =>
      rw [List.foldl_cons, List.foldl_cons, visit, inductionHypothesis]
      conv_rhs => rw [visit, inductionHypothesis]
      simp [RestoreResult.append_assoc]

private theorem restoreFrom_absent {before rest : Text}
    (absent : rest.dropInfix? tokenPrefix = none) :
    restoreFrom runtime context before rest = plain rest := by
  rw [restoreFrom, scanFrom_absent absent]
  simp only [List.foldl_nil, slice_tail, empty_append]

/-- One visited candidate: the gap is copied, the candidate decided, and the
rest restored as before. -/
private theorem restoreFrom_visit {before gap candidate remaining : Text}
    (scan :
      scanFrom (byteLen before) (gap ++ (candidate ++ remaining)) =
        (byteLen before + byteLen gap,
            byteLen before + byteLen gap + byteLen candidate) ::
          scanFrom (byteLen before + byteLen gap + byteLen candidate)
            remaining) :
    restoreFrom runtime context before (gap ++ (candidate ++ remaining)) =
      plain gap ++ restoreCandidate runtime context candidate ++
        restoreFrom runtime context (before ++ gap ++ candidate)
          remaining := by
  have input :
      before ++ (gap ++ (candidate ++ remaining)) =
        before ++ gap ++ candidate ++ remaining := by
    simp
  have gapSlice :
      slice (before ++ gap ++ candidate ++ remaining) (byteLen before)
          (byteLen before + byteLen gap) = gap := by
    rw [List.append_assoc, List.append_assoc]
    exact slice_middle before gap (candidate ++ remaining)
  have candidateSlice :
      slice (before ++ gap ++ candidate ++ remaining)
          (byteLen before + byteLen gap)
          (byteLen before + byteLen gap + byteLen candidate) =
        candidate := by
    simpa using slice_middle (before ++ gap) candidate remaining
  have cursor :
      byteLen before + byteLen gap + byteLen candidate =
        byteLen (before ++ gap ++ candidate) := by
    simp only [byteLen_append]
  rw [restoreFrom, scan, List.foldl_cons, visit, input]
  simp only [gapSlice, candidateSlice, empty_append]
  rw [foldl_visit_append, cursor, restoreFrom]
  simp only [RestoreResult.append_assoc]

private theorem restoreFrom_closed {before gap body remaining : Text}
    (first :
      NotBefore tokenPrefix
        (gap ++ (tokenPrefix ++ (body ++ (tokenSuffix ++ remaining))))
        gap.length)
    (firstClosing :
      NotBefore tokenSuffix (body ++ (tokenSuffix ++ remaining))
        body.length) :
    restoreFrom runtime context before
        (gap ++ (tokenPrefix ++ (body ++ (tokenSuffix ++ remaining)))) =
      plain gap ++
          restoreCandidate runtime context
            (tokenPrefix ++ (body ++ tokenSuffix)) ++
        restoreFrom runtime context
          (before ++ gap ++ (tokenPrefix ++ (body ++ tokenSuffix)))
          remaining := by
  have regroup :
      gap ++ (tokenPrefix ++ (body ++ (tokenSuffix ++ remaining))) =
        gap ++ ((tokenPrefix ++ (body ++ tokenSuffix)) ++ remaining) := by
    simp
  rw [regroup]
  apply restoreFrom_visit
  rw [← regroup]
  exact scanFrom_closed first firstClosing

private theorem restoreFrom_unclosed {before gap after : Text}
    (first :
      NotBefore tokenPrefix (gap ++ (tokenPrefix ++ after)) gap.length)
    (neverClosed : ¬ tokenSuffix <:+: after) :
    restoreFrom runtime context before (gap ++ (tokenPrefix ++ after)) =
      plain gap ++
          restoreCandidate runtime context
            (tokenPrefix ++ (splitWithin maxTokenCandidateBytes after).1) ++
        restoreFrom runtime context
          (before ++ gap ++
            (tokenPrefix ++ (splitWithin maxTokenCandidateBytes after).1))
          (splitWithin maxTokenCandidateBytes after).2 := by
  have regroup :
      gap ++ (tokenPrefix ++ after) =
        gap ++
          ((tokenPrefix ++ (splitWithin maxTokenCandidateBytes after).1) ++
            (splitWithin maxTokenCandidateBytes after).2) := by
    rw [List.append_assoc, splitWithin_append]
  rw [regroup]
  apply restoreFrom_visit
  rw [← regroup]
  exact scanFrom_unclosed first neverClosed

/-- What has been read before the rest has no influence on it. -/
private theorem restoreFrom_eq (before rest : Text) :
    restoreFrom runtime context before rest =
      restoreFrom runtime context [] rest := by
  induction size : rest.length using Nat.strongRecOn generalizing before rest
  with
  | ind size inductionHypothesis =>
      subst size
      have remainingSame :
          ∀ (left right later : Text), later.length < rest.length →
            restoreFrom runtime context left later =
              restoreFrom runtime context right later := by
        intro left right later shorter
        rw [inductionHypothesis _ shorter left later rfl,
          inductionHypothesis _ shorter right later rfl]
      cases scanShape rest with
      | absent absent =>
          rw [restoreFrom_absent absent, restoreFrom_absent absent]
      | closed gap body remaining first firstClosing =>
          rw [restoreFrom_closed first firstClosing,
            restoreFrom_closed first firstClosing, remainingSame]
          simp [tokenPrefix, lit]
          omega
      | unclosed gap after first neverClosed =>
          rw [restoreFrom_unclosed first neverClosed,
            restoreFrom_unclosed first neverClosed, remainingSame]
          have total :=
            congrArg List.length
              (splitWithin_append maxTokenCandidateBytes after)
          simp only [List.length_append] at total
          simp [tokenPrefix, lit]
          omega

private theorem restoreText_eq_restoreFrom (input : Text) :
    restoreText runtime context input =
      restoreFrom runtime context [] input := rfl

/-- A text without a marker is copied. -/
theorem restoreText_absent {input : Text}
    (absent : input.dropInfix? tokenPrefix = none) :
    restoreText runtime context input = plain input := by
  rw [restoreText_eq_restoreFrom, restoreFrom_absent absent]

/-- The leftmost candidate is decided when it is closed, and restoration goes
on behind it. -/
theorem restoreText_closed {gap body remaining : Text}
    (first :
      NotBefore tokenPrefix
        (gap ++ (tokenPrefix ++ (body ++ (tokenSuffix ++ remaining))))
        gap.length)
    (firstClosing :
      NotBefore tokenSuffix (body ++ (tokenSuffix ++ remaining))
        body.length) :
    restoreText runtime context
        (gap ++ (tokenPrefix ++ (body ++ (tokenSuffix ++ remaining)))) =
      plain gap ++
          restoreCandidate runtime context
            (tokenPrefix ++ (body ++ tokenSuffix)) ++
        restoreText runtime context remaining := by
  rw [restoreText_eq_restoreFrom, restoreFrom_closed first firstClosing,
    restoreFrom_eq, restoreText_eq_restoreFrom]

/-- The same for a text that begins with the candidate. -/
theorem restoreText_closed_first {body remaining : Text}
    (firstClosing :
      NotBefore tokenSuffix (body ++ (tokenSuffix ++ remaining))
        body.length) :
    restoreText runtime context
        (tokenPrefix ++ (body ++ (tokenSuffix ++ remaining))) =
      restoreCandidate runtime context
          (tokenPrefix ++ (body ++ tokenSuffix)) ++
        restoreText runtime context remaining := by
  have whole :=
    @restoreText_closed runtime context [] body remaining
      (notBefore_zero _ _) firstClosing
  rwa [List.nil_append, plain_nil, empty_append] at whole

/-- A candidate that is never closed is decided up to the byte limit. -/
theorem restoreText_unclosed {gap after : Text}
    (first :
      NotBefore tokenPrefix (gap ++ (tokenPrefix ++ after)) gap.length)
    (neverClosed : ¬ tokenSuffix <:+: after) :
    restoreText runtime context (gap ++ (tokenPrefix ++ after)) =
      plain gap ++
          restoreCandidate runtime context
            (tokenPrefix ++ (splitWithin maxTokenCandidateBytes after).1) ++
        restoreText runtime context
          (splitWithin maxTokenCandidateBytes after).2 := by
  rw [restoreText_eq_restoreFrom, restoreFrom_unclosed first neverClosed,
    restoreFrom_eq, restoreText_eq_restoreFrom]

/-- The same for a text that begins with the candidate. -/
theorem restoreText_unclosed_first {after : Text}
    (neverClosed : ¬ tokenSuffix <:+: after) :
    restoreText runtime context (tokenPrefix ++ after) =
      restoreCandidate runtime context
          (tokenPrefix ++ (splitWithin maxTokenCandidateBytes after).1) ++
        restoreText runtime context
          (splitWithin maxTokenCandidateBytes after).2 := by
  have whole :=
    @restoreText_unclosed runtime context [] after (notBefore_zero _ _)
      neverClosed
  rwa [List.nil_append, plain_nil, empty_append] at whole

/-- A stretch where no marker starts is copied. -/
theorem restoreText_skip {before rest : Text}
    (noMarker : NotBefore tokenPrefix (before ++ rest) before.length) :
    restoreText runtime context (before ++ rest) =
      plain before ++ restoreText runtime context rest := by
  cases scanShape rest with
  | absent absent =>
      rw [restoreText_absent absent,
        restoreText_absent (dropInfix?_append_eq_none noMarker absent),
        plain_append]
  | closed gap body remaining first firstClosing =>
      have firstHere := noMarker.append first
      rw [← List.length_append, ← List.append_assoc] at firstHere
      rw [← List.append_assoc, restoreText_closed firstHere firstClosing,
        restoreText_closed first firstClosing, plain_append]
      simp only [RestoreResult.append_assoc]
  | unclosed gap after first neverClosed =>
      have firstHere := noMarker.append first
      rw [← List.length_append, ← List.append_assoc] at firstHere
      rw [← List.append_assoc, restoreText_unclosed firstHere neverClosed,
        restoreText_unclosed first neverClosed, plain_append]
      simp only [RestoreResult.append_assoc]

@[simp]
theorem restoreText_nil : restoreText runtime context [] = empty :=
  restoreText_absent rfl

end Rules

end RestoreContext

end Redactor
