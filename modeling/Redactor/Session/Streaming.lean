import Redactor.Session.Restore

/-!
# Streaming restoration

A streaming context receives a text in fragments, one character at a time, and
keeps back what may still become a token: a part of the marker, or a marker
whose candidate has not been closed.
-/

namespace Redactor

open Utf8 Fallible RestoreResult

structure StreamingRestoreContext where
  restore : RestoreContext
  pending : Text

namespace StreamingRestoreContext

def withPermits (session : RedactionSession)
    (permits : List RestorePermit) : Except Text StreamingRestoreContext := do
  let restore ← RestoreContext.withPermits session permits
  .ok { restore, pending := [] }

/-- Cut in front of the first suffix that is still a part of the marker. -/
def cutNonMarkerPrefix : Text → Text × Text
  | [] => ([], [])
  | head :: tail =>
      if head :: tail <+: tokenPrefix then
        ([], head :: tail)
      else
        let parts := cutNonMarkerPrefix tail
        (head :: parts.1, parts.2)

variable (runtime : Runtime)

/-- Give up a candidate that has grown past the limit. -/
def flushOverflow (pending : Text) (head : Char) : Text × RestoreResult :=
  if tokenPrefix <+: pending ∧
      maxTokenCandidateBytes < byteLen pending + head.utf8Size then
    ([],
      { plain pending with
        unresolvedTokens := [pending]
        validationErrors :=
          [lit "token candidate exceeds " ++
            numeral maxTokenCandidateBytes ++ lit " byte pending limit"] })
  else
    (pending, empty)

/-- Keep the character, and settle what the pending text has become. -/
def extendPending (restore : RestoreContext) (pending : Text)
    (head : Char) : Text × RestoreResult :=
  let pending := pending ++ [head]
  if tokenPrefix <+: pending then
    if tokenSuffix <:+ pending then
      ([], restore.restoreText runtime pending)
    else
      (pending, empty)
  else if pending <+: tokenPrefix then
    (pending, empty)
  else
    let parts := cutNonMarkerPrefix pending
    (parts.2, plain parts.1)

/-- One character: the pending text it leaves, and what is put out. -/
def pushChar (restore : RestoreContext) (pending : Text) (head : Char) :
    Text × RestoreResult :=
  let overflow := flushOverflow pending head
  let extended := extendPending runtime restore overflow.1 head
  (extended.1, overflow.2 ++ extended.2)

def pushChars (restore : RestoreContext) :
    Text → Text → Text × RestoreResult
  | pending, [] => (pending, empty)
  | pending, head :: tail =>
      let pushed := pushChar runtime restore pending head
      let rest := pushChars restore pushed.1 tail
      (rest.1, pushed.2 ++ rest.2)

/-- The state after a fragment and the result of the call. -/
def pushStr (stream : StreamingRestoreContext) (fragment : Text) :
    StreamingRestoreContext × RestoreResult :=
  let pushed := pushChars runtime stream.restore stream.pending fragment
  ({ stream with pending := pushed.1 }, pushed.2)

def finish (stream : StreamingRestoreContext) : RestoreResult :=
  if tokenPrefix <+: stream.pending then
    { plain stream.pending with
      unresolvedTokens := [stream.pending]
      validationErrors :=
        [lit "truncated token " ++ quoted stream.pending ++
          lit ": missing closing " ++ quoted tokenSuffix] }
  else
    plain stream.pending

/-- The results of one stream: of every call of `push_str`, in order, and of
the final call of `finish`. -/
def results (stream : StreamingRestoreContext) :
    List Text → List RestoreResult
  | [] => [stream.finish]
  | fragment :: fragments =>
      let pushed := stream.pushStr runtime fragment
      pushed.2 :: pushed.1.results fragments

/-- The results of a stream, concatenated. -/
def concatenated (stream : StreamingRestoreContext)
    (fragments : List Text) : RestoreResult :=
  (stream.results runtime fragments).foldr (· ++ ·) empty

end StreamingRestoreContext

section Decisions

variable {runtime : Runtime} {left right : RestoreContext}

/-- Contexts that decide what the scanner visits in a text alike restore it
alike. -/
theorem restoreText_eq_of_visited {input : Text}
    (same :
      ∀ range ∈ scanTokenLikeRanges input,
        left.restoreCandidate runtime (slice input range.1 range.2) =
          right.restoreCandidate runtime (slice input range.1 range.2)) :
    left.restoreText runtime input = right.restoreText runtime input := by
  have sameVisits :
      (scanTokenLikeRanges input).foldl (left.visit runtime input)
          (empty, 0) =
        (scanTokenLikeRanges input).foldl (right.visit runtime input)
          (empty, 0) := by
    apply List.foldl_ext
    intro progress range visited
    rw [RestoreContext.visit, RestoreContext.visit, same range visited]
  rw [RestoreContext.restoreText, RestoreContext.restoreText, sameVisits]

/-- Contexts that decide every candidate alike restore alike. -/
theorem restoreText_congr
    (same :
      left.restoreCandidate runtime = right.restoreCandidate runtime) :
    left.restoreText runtime = right.restoreText runtime := by
  funext input
  apply restoreText_eq_of_visited
  intro range _
  rw [same]

theorem pushChars_congr
    (same : left.restoreText runtime = right.restoreText runtime)
    (pending text : Text) :
    StreamingRestoreContext.pushChars runtime left pending text =
      StreamingRestoreContext.pushChars runtime right pending text := by
  induction text generalizing pending with
  | nil =>
      rfl
  | cons head tail inductionHypothesis =>
      have sameChar :
          StreamingRestoreContext.pushChar runtime left pending head =
            StreamingRestoreContext.pushChar runtime right pending head := by
        simp only [StreamingRestoreContext.pushChar,
          StreamingRestoreContext.extendPending, same]
      rw [StreamingRestoreContext.pushChars,
        StreamingRestoreContext.pushChars, sameChar]
      simp only [inductionHypothesis]

/-- The results of a stream depend on batch restoration only. -/
theorem streaming_results_congr
    (same : left.restoreText runtime = right.restoreText runtime)
    (pending : Text) (fragments : List Text) :
    StreamingRestoreContext.results runtime ⟨left, pending⟩ fragments =
      StreamingRestoreContext.results runtime ⟨right, pending⟩
        fragments := by
  induction fragments generalizing pending with
  | nil =>
      rfl
  | cons fragment fragments inductionHypothesis =>
      simp only [StreamingRestoreContext.results,
        StreamingRestoreContext.pushStr, pushChars_congr same,
        inductionHypothesis]

end Decisions

end Redactor
