import Redactor.Session.Streaming
import Mathlib.Data.List.Forall2

/-!
# Unauthorized originals do not flow into restored texts

Two sessions that differ only in originals which no permit authorizes are
compared in two runs.  The decision about a candidate reads the map of
originals at authorized tokens only, so both runs decide every candidate alike;
batch and streaming restoration are functions of these decisions.
-/

namespace Redactor

open Utf8 Fallible RestoreResult

/-- The entries are equal, except perhaps for an original that no permit
authorizes. -/
structure EntryAgrees (permits : List RestorePermit)
    (left right : RestorationEntry) : Prop where
  token : left.token = right.token
  kind : left.kind = right.kind
  replacementHint : left.replacementHint = right.replacementHint
  occurrences : left.occurrences = right.occurrences
  original : Authorizes permits left.token → left.original = right.original

/-- The sessions are equal, except perhaps for originals that no permit
authorizes. -/
structure EqualExceptUnauthorized (permits : List RestorePermit)
    (left right : RedactionSession) : Prop where
  version : left.version = right.version
  sessionId : left.sessionId = right.sessionId
  scopeId : left.scopeId = right.scopeId
  externalId : left.externalId = right.externalId
  fingerprint : left.fingerprint = right.fingerprint
  redactedFingerprint : left.redactedFingerprint = right.redactedFingerprint
  redactedText : left.redactedText = right.redactedText
  policy : left.policy = right.policy
  entries : List.Forall₂ (EntryAgrees permits) left.entries right.entries
  issuedTokens : left.issuedTokens = right.issuedTokens

section Runs

variable {permits : List RestorePermit}

private theorem tokens_eq {left right : List RestorationEntry}
    (agree : List.Forall₂ (EntryAgrees permits) left right) :
    left.map RestorationEntry.token = right.map RestorationEntry.token := by
  induction agree with
  | nil =>
      rfl
  | cons head _ inductionHypothesis =>
      rw [List.map_cons, List.map_cons, head.token, inductionHypothesis]

private theorem lookup_eq {left right : List RestorationEntry}
    {token : Text} (authorized : Authorizes permits token)
    (agree : List.Forall₂ (EntryAgrees permits) left right) :
    (left.map fun entry => (entry.token, entry.original)).lookup token =
      (right.map fun entry => (entry.token, entry.original)).lookup
        token := by
  induction agree with
  | nil =>
      rfl
  | @cons first second _ _ head _ inductionHypothesis =>
      rw [List.map_cons, List.map_cons, List.lookup_cons, List.lookup_cons,
        ← head.token, inductionHypothesis]
      by_cases here : token = first.token
      · subst here
        rw [head.original authorized]
      · rw [beq_false_of_ne here]

/-- The map holds the same original at an authorized token. -/
theorem original?_eq_of_authorized {left right : RedactionSession}
    (agree : EqualExceptUnauthorized permits left right)
    (leftAuthorized rightAuthorized : List Text) {token : Text}
    (authorized : Authorizes permits token) :
    (RestoreContext.fromAuthorizedTokens left leftAuthorized).original?
        token =
      (RestoreContext.fromAuthorizedTokens right rightAuthorized).original?
        token := by
  simp only [RestoreContext.original?, RestoreContext.fromAuthorizedTokens,
    ← List.map_reverse]
  exact lookup_eq authorized (List.forall₂_reverse_iff.mpr agree.entries)

/-- Every candidate is decided alike in both runs. -/
theorem restoreCandidate_eq {left right : RedactionSession}
    (runtime : Runtime) (agree : EqualExceptUnauthorized permits left right)
    {authorized : List Text}
    (accepted : authorizedTokens left permits = .ok authorized) :
    RestoreContext.restoreCandidate runtime
        (.fromAuthorizedTokens left authorized) =
      RestoreContext.restoreCandidate runtime
        (.fromAuthorizedTokens right authorized) := by
  funext candidate
  unfold RestoreContext.restoreCandidate
  cases parseToken runtime candidate with
  | error error =>
      rfl
  | ok parsed =>
      by_cases member : candidate ∈ authorized
      · have same :=
          original?_eq_of_authorized agree authorized authorized
            ((mem_authorizedTokens_iff accepted).mp member)
        simp [same, member]
      · simp [member]

end Runs

/-- Permits are refused for both sessions with one message, or both contexts
give the same results on every text, at once and as a stream. -/
theorem restore_ignores_unauthorized_originals
    (runtime : Runtime) (permits : List RestorePermit)
    (left right : RedactionSession)
    (agree : EqualExceptUnauthorized permits left right) :
    (∃ error,
      RestoreContext.withPermits left permits = .error error ∧
        RestoreContext.withPermits right permits = .error error ∧
        StreamingRestoreContext.withPermits left permits = .error error ∧
        StreamingRestoreContext.withPermits right permits = .error error) ∨
    (∃ leftContext rightContext leftStream rightStream,
      RestoreContext.withPermits left permits = .ok leftContext ∧
        RestoreContext.withPermits right permits = .ok rightContext ∧
        StreamingRestoreContext.withPermits left permits = .ok leftStream ∧
        StreamingRestoreContext.withPermits right permits =
          .ok rightStream ∧
        (∀ text,
          leftContext.restoreText runtime text =
            rightContext.restoreText runtime text) ∧
        ∀ fragments,
          leftStream.results runtime fragments =
            rightStream.results runtime fragments) := by
  have sameAuthorized :=
    authorizedTokens_congr permits agree.scopeId agree.externalId
      (tokens_eq agree.entries)
  cases accepted : authorizedTokens left permits with
  | error error =>
      left
      have refused := sameAuthorized ▸ accepted
      refine ⟨error, ?_, ?_, ?_, ?_⟩ <;>
        simp [StreamingRestoreContext.withPermits,
          RestoreContext.withPermits, accepted, refused]
  | ok authorized =>
      right
      have acceptedRight := sameAuthorized ▸ accepted
      have sameRestore :=
        restoreText_congr (restoreCandidate_eq runtime agree accepted)
      refine ⟨.fromAuthorizedTokens left authorized,
        .fromAuthorizedTokens right authorized,
        ⟨.fromAuthorizedTokens left authorized, []⟩,
        ⟨.fromAuthorizedTokens right authorized, []⟩,
        ?_, ?_, ?_, ?_, ?_, ?_⟩
      · simp [RestoreContext.withPermits, accepted]
      · simp [RestoreContext.withPermits, acceptedRight]
      · simp [StreamingRestoreContext.withPermits,
          RestoreContext.withPermits, accepted]
      · simp [StreamingRestoreContext.withPermits,
          RestoreContext.withPermits, acceptedRight]
      · intro text
        rw [sameRestore]
      · exact streaming_results_congr sameRestore []

/-- The permit covers the first address, so the second may be any text. -/
theorem restore_ignores_unauthorized_originals_second_address :
    (∃ error,
      RestoreContext.withPermits (sampleSession (lit "b@b.fr"))
            [samplePermit] = .error error ∧
        RestoreContext.withPermits (sampleSession (lit "çç@c.fr"))
            [samplePermit] = .error error ∧
        StreamingRestoreContext.withPermits (sampleSession (lit "b@b.fr"))
            [samplePermit] = .error error ∧
        StreamingRestoreContext.withPermits (sampleSession (lit "çç@c.fr"))
            [samplePermit] = .error error) ∨
    (∃ leftContext rightContext leftStream rightStream,
      RestoreContext.withPermits (sampleSession (lit "b@b.fr"))
            [samplePermit] = .ok leftContext ∧
        RestoreContext.withPermits (sampleSession (lit "çç@c.fr"))
            [samplePermit] = .ok rightContext ∧
        StreamingRestoreContext.withPermits (sampleSession (lit "b@b.fr"))
            [samplePermit] = .ok leftStream ∧
        StreamingRestoreContext.withPermits (sampleSession (lit "çç@c.fr"))
            [samplePermit] = .ok rightStream ∧
        (∀ text,
          leftContext.restoreText sampleRuntime text =
            rightContext.restoreText sampleRuntime text) ∧
        ∀ fragments,
          leftStream.results sampleRuntime fragments =
            rightStream.results sampleRuntime fragments) := by
  refine restore_ignores_unauthorized_originals sampleRuntime _ _ _
    { version := rfl, sessionId := rfl, scopeId := rfl, externalId := rfl
      fingerprint := rfl, redactedFingerprint := rfl, redactedText := rfl
      policy := rfl, issuedTokens := rfl, entries := ?_ }
  refine .cons ⟨rfl, rfl, rfl, rfl, fun _ => rfl⟩
    (.cons ⟨rfl, rfl, rfl, rfl, ?_⟩ .nil)
  rintro ⟨permit, member, issued⟩
  rw [List.mem_singleton.mp member] at issued
  exact absurd issued (by decide +kernel)

end Redactor
