import Redactor.Library.Phrases
import Redactor.Service.Store

/-!
# The status of an invalid restore

The status of an error is read off its message, in which an invalid restore
repeats the malformed tokens of the text.  No phrase that is asked for stands
in the words of the message itself, so the malformed tokens alone decide the
status.
-/

namespace Redactor

open Utf8 Fallible

inductive StatusCode where
  | badRequest
  | notFound
  | conflict
  | unprocessableEntity
  | internalServerError
  | serviceUnavailable
  deriving DecidableEq, Repr

/-- An error with its message, and the errors of the store in its chain. -/
structure ServiceError where
  message : Text
  storeErrors : List SessionStoreError := []

/-- The status for an error whose chain has no error of the store. -/
def statusForMessage (message : Text) : StatusCode :=
  if contains message (lit "no latest session") then
    .notFound
  else if contains message (lit "external_id") ||
      contains message (lit "must provide") ||
      contains message (lit "invalid redaction policy") then
    .badRequest
  else if contains message (lit "permit") ||
      contains message (lit "decrypt") ||
      contains message (lit "restore") then
    .unprocessableEntity
  else
    .internalServerError

def statusForError (error : ServiceError) : StatusCode :=
  match error.storeErrors.head? with
  | some .conflict => .conflict
  | some .unavailable => .serviceUnavailable
  | some .corruptData => .internalServerError
  | some .crypto => .internalServerError
  | none => statusForMessage error.message

/-- The phrases that lead to another status. -/
def otherPhrases : List Text :=
  [lit "no latest session", lit "external_id", lit "must provide",
    lit "invalid redaction policy"]

/-- The phrases of a request that cannot be processed. -/
def unprocessablePhrases : List Text :=
  [lit "permit", lit "decrypt", lit "restore"]

theorem statusForMessage_eq_unprocessable {message : Text} :
    statusForMessage message = .unprocessableEntity ↔
      (∀ phrase ∈ otherPhrases, ¬ phrase <:+: message) ∧
        ∃ phrase ∈ unprocessablePhrases, phrase <:+: message := by
  simp only [otherPhrases, unprocessablePhrases, List.mem_cons,
    List.not_mem_nil, or_false, forall_eq_or_imp, forall_eq,
    exists_eq_or_imp, exists_eq_left, ← contains_iff]
  unfold statusForMessage
  -- a table of the seven tests
  generalize contains message (lit "no latest session") = missing
  generalize contains message (lit "external_id") = externalId
  generalize contains message (lit "must provide") = mustProvide
  generalize contains message (lit "invalid redaction policy") = policy
  generalize contains message (lit "permit") = permit
  generalize contains message (lit "decrypt") = decrypt
  generalize contains message (lit "restore") = restore
  revert missing externalId mustProvide policy permit decrypt restore
  decide

/-- The mark around a quotation. -/
def quoteMark : Char := Char.ofNat 0x60

theorem quoted_eq (text : Text) :
    quoted text = quoteMark :: (text ++ [quoteMark]) := rfl

/-- The marks around the parts of a message. -/
def messageMarks : List Char := [quoteMark, ':', ';', ',']

/-- What a message says in words of its own. -/
def messageWords : List Text :=
  [lit "malformed token ", lit "unresolved tokens",
    lit "unknown token kind ", lit "invalid token counter ",
    lit "invalid token checksum ", lit " expected ",
    lit "token does not match v2 marker format",
    lit "token scope is missing", lit "token kind is missing",
    lit "token counter is missing", lit "token checksum is missing",
    lit "token contains unexpected trailing fields"]

/-- A phrase that a message has only where it repeats the text. -/
structure Foreign (phrase : Text) : Prop where
  nonempty : phrase ≠ []
  notBlank : phrase.head? ≠ some ' '
  marks : ∀ mark ∈ messageMarks, mark ∉ phrase
  notHex : ∃ head ∈ phrase, head ∉ lit "0123456789abcdef"
  words : ∀ words ∈ messageWords, ¬ phrase <:+: words

theorem foreign_phrases :
    ∀ phrase ∈ otherPhrases ++ unprocessablePhrases, Foreign phrase := by
  have marks :
      (otherPhrases ++ unprocessablePhrases).all (fun phrase =>
        messageMarks.all fun mark => decide (mark ∉ phrase)) = true := by
    decide
  have notHex :
      (otherPhrases ++ unprocessablePhrases).all (fun phrase =>
        phrase.any fun head =>
          decide (head ∉ lit "0123456789abcdef")) = true := by
    decide
  have nonempty :
      ∀ phrase ∈ otherPhrases ++ unprocessablePhrases, phrase ≠ [] := by
    decide
  have notBlank :
      ∀ phrase ∈ otherPhrases ++ unprocessablePhrases,
        phrase.head? ≠ some ' ' := by
    decide
  have words :
      ∀ phrase ∈ otherPhrases ++ unprocessablePhrases,
        ∀ words ∈ messageWords, ¬ phrase <:+: words := by
    decide +kernel
  simp only [List.all_eq_true, List.any_eq_true, decide_eq_true_eq]
    at marks notHex
  intro phrase listed
  exact
    { nonempty := nonempty phrase listed
      notBlank := notBlank phrase listed
      marks := marks phrase listed
      notHex := notHex phrase listed
      words := words phrase listed }

section Message

variable {phrase : Text}

/-- A quotation between words of the message and what follows it. -/
theorem Foreign.infix_quotation (foreign : Foreign phrase) {words : Text}
    (own : words ∈ messageWords) {text rest : Text} :
    phrase <:+: words ++ quoted text ++ rest ↔
      phrase <:+: text ∨ phrase <:+: rest := by
  have mark : quoteMark ∉ phrase := foreign.marks _ List.mem_cons_self
  have shape :
      words ++ quoted text ++ rest =
        words ++ quoteMark :: (text ++ quoteMark :: rest) := by
    simp [quoted_eq]
  rw [shape, infix_append_foreign mark, infix_append_foreign mark,
    or_iff_right (foreign.words words own)]

/-- A quotation at the end of a message. -/
theorem Foreign.infix_last_quotation (foreign : Foreign phrase) {words : Text}
    (own : words ∈ messageWords) {text : Text} :
    phrase <:+: words ++ quoted text ↔ phrase <:+: text := by
  have quotation := @Foreign.infix_quotation phrase foreign words own text []
  rw [List.append_nil, List.infix_nil, or_iff_left foreign.nonempty]
    at quotation
  exact quotation

theorem Foreign.infix_after (foreign : Foreign phrase) {mark : Char}
    (listed : mark ∈ messageMarks) {words : Text}
    (own : words = [] ∨ words ∈ messageWords) {rest : Text} :
    phrase <:+: words ++ mark :: ' ' :: rest ↔ phrase <:+: rest := by
  rw [infix_append_foreign (foreign.marks mark listed),
    infix_cons_other foreign.nonempty foreign.notBlank]
  apply or_iff_right
  rcases own with rfl | own
  · rw [List.infix_nil]
    exact foreign.nonempty
  · exact foreign.words words own

theorem Foreign.infix_unresolved (foreign : Foreign phrase)
    {tokens : List Text} :
    phrase <:+:
        lit "unresolved tokens: " ++ (lit ", ").intercalate tokens ↔
      ∃ token ∈ tokens, phrase <:+: token := by
  have words :
      lit "unresolved tokens: " = lit "unresolved tokens" ++ [':', ' '] := by
    decide
  have shape :
      lit "unresolved tokens: " ++ (lit ", ").intercalate tokens =
        lit "unresolved tokens" ++
          ':' :: ' ' :: [',', ' '].intercalate tokens := by
    rw [words, List.append_assoc]
    rfl
  rw [shape, foreign.infix_after (by decide) (Or.inr (by decide)),
    infix_intercalate foreign.nonempty (foreign.marks ',' (by decide))
      foreign.notBlank]

theorem nextField_eq_error {missing error : Text} {parts : List Text}
    (refused : nextField missing parts = .error error) : error = missing := by
  cases parts with
  | nil =>
      exact (Except.error.inj refused).symm
  | cons head tail =>
      rw [nextField] at refused
      split at refused
      · exact (Except.error.inj refused).symm
      · cases refused

theorem splitToken_eq_error {candidate error : Text}
    (refused : splitToken candidate = .error error) :
    error ∈ messageWords := by
  unfold splitToken at refused
  split at refused
  · rcases bind_eq_error.mp refused with scope | ⟨_, _, refused⟩
    · rw [nextField_eq_error scope]
      decide
    · rcases bind_eq_error.mp refused with kind | ⟨_, _, refused⟩
      · rw [nextField_eq_error kind]
        decide
      · rcases bind_eq_error.mp refused with counter | ⟨_, _, refused⟩
        · rw [nextField_eq_error counter]
          decide
        · rcases bind_eq_error.mp refused with check | ⟨_, _, refused⟩
          · rw [nextField_eq_error check]
            decide
          · simp only at refused
            split at refused
            · cases refused
            · cases refused
              decide
  · cases refused
    decide

/-- No phrase stands in a checksum. -/
theorem Foreign.not_infix_expected {runtime : Runtime}
    (foreign : Foreign phrase) (scopeId : Text) (kind : FindingKind)
    (counter : Nat) :
    ¬ phrase <:+:
      lit ", expected " ++
        quoted (tokenCheck runtime scopeId kind counter) := by
  intro occurs
  have comma : ',' ∉ phrase := foreign.marks ',' (by decide)
  have rest :
      phrase <:+:
        lit " expected " ++
          quoted (tokenCheck runtime scopeId kind counter) :=
    ((@infix_append_foreign phrase [] _ ',' comma).mp occurs).resolve_left
      (fun empty => foreign.nonempty (List.infix_nil.mp empty))
  rw [foreign.infix_last_quotation (by decide)] at rest
  obtain ⟨head, member, notHex⟩ := foreign.notHex
  exact notHex (tokenCheck_isHex (rest.subset member))

/-- A complaint has a phrase only where it repeats the candidate. -/
theorem Foreign.infix_of_complaint {runtime : Runtime}
    (foreign : Foreign phrase) {candidate error : Text}
    (refused : parseToken runtime candidate = .error error)
    (occurs : phrase <:+: error) : phrase <:+: candidate := by
  rcases bind_eq_error.mp refused with
    split | ⟨⟨scopeId, kindLabel, counterRaw, check⟩, split, refused⟩
  · exact absurd occurs
      (foreign.words error (splitToken_eq_error split))
  · obtain ⟨inner, shape, fields, _⟩ := splitToken_eq_ok.mp split
    have field :
        ∀ part ∈ [scopeId, kindLabel, counterRaw, check],
          part <:+: candidate := by
      intro part listed
      rw [← fields] at listed
      rw [shape]
      exact (infix_of_mem_splitOn listed).trans
        (List.infix_append' tokenPrefix inner tokenSuffix)
    simp only at refused
    split at refused
    · rename_i kind _
      split at refused
      · rename_i counter _
        split at refused
        · cases refused
        · cases refused
          rw [List.append_assoc, foreign.infix_quotation (by decide)] at occurs
          rcases occurs with given | expected
          · exact given.trans (field check (by simp))
          · exact absurd expected
              (foreign.not_infix_expected scopeId kind counter)
      · cases refused
        rw [foreign.infix_last_quotation (by decide)] at occurs
        exact occurs.trans (field counterRaw (by simp))
    · cases refused
      rw [foreign.infix_last_quotation (by decide)] at occurs
      exact occurs.trans (field kindLabel (by simp))

end Message

/-! ## The malformed tokens of a text -/

def tokenCandidates (text : Text) : List Text :=
  (scanTokenLikeRanges text).map fun range => slice text range.1 range.2

/-- The candidates that are no tokens. -/
def malformedTokens (runtime : Runtime) (text : Text) : List Text :=
  (tokenCandidates text).filter fun candidate =>
    (parseToken runtime candidate).toOption.isNone

section Restore

variable {runtime : Runtime} {context : RestoreContext}

/-- What is reported is what the candidates report. -/
theorem foldl_visit_report {report : RestoreResult → List Text}
    (joined :
      ∀ left right, report (left ++ right) = report left ++ report right)
    (silent : ∀ text, report (RestoreResult.plain text) = [])
    (input : Text) (ranges : List (Nat × Nat))
    (progress : RestoreResult × Nat) :
    report (ranges.foldl (context.visit runtime input) progress).1 =
      report progress.1 ++
        (ranges.map fun range => slice input range.1 range.2).flatMap
          fun candidate =>
            report (context.restoreCandidate runtime candidate) := by
  induction ranges generalizing progress with
  | nil =>
      exact (List.append_nil _).symm
  | cons range ranges inductionHypothesis =>
      rw [List.foldl_cons, inductionHypothesis, RestoreContext.visit, joined,
        joined, silent, List.append_nil, List.map_cons, List.flatMap_cons,
        List.append_assoc]

theorem restoreText_report {report : RestoreResult → List Text}
    (joined :
      ∀ left right, report (left ++ right) = report left ++ report right)
    (silent : ∀ text, report (RestoreResult.plain text) = [])
    (input : Text) :
    report (context.restoreText runtime input) =
      (tokenCandidates input).flatMap fun candidate =>
        report (context.restoreCandidate runtime candidate) := by
  have empty : report RestoreResult.empty = [] := silent []
  rw [RestoreContext.restoreText]
  simp only [joined, silent, foldl_visit_report joined silent, empty,
    List.nil_append, List.append_nil]
  rfl

/-- A token that accepted permits authorize is one of the session. -/
theorem isSome_original? {session : RedactionSession}
    {permits : List RestorePermit}
    (accepted : RestoreContext.withPermits session permits = .ok context)
    {token : Text} (authorized : token ∈ context.authorizedTokens) :
    (context.original? token).isSome = true := by
  obtain ⟨tokens, joined, last⟩ := bind_eq_ok.mp accepted
  cases last
  obtain ⟨permit, member, issued⟩ :=
    (mem_authorizedTokens_iff joined).mp authorized
  have known := (fits_of_authorizedTokens joined permit member).known token
    issued
  obtain ⟨entry, listed, rfl⟩ := List.mem_map.mp known
  rw [RestoreContext.original?, List.lookup_isSome_iff]
  refine ⟨(entry.token, entry.original), List.mem_reverse.mpr ?_,
    beq_self_eq_true _⟩
  exact List.mem_map_of_mem listed

/-- What is said about a malformed token. -/
def malformedMessage (candidate error : Text) : Text :=
  lit "malformed token " ++ quoted candidate ++ lit ": " ++ error

/-- Only malformed tokens are reported. -/
theorem restoreCandidate_reports {session : RedactionSession}
    {permits : List RestorePermit}
    (accepted : RestoreContext.withPermits session permits = .ok context)
    (candidate : Text) :
    (∃ parsed, parseToken runtime candidate = .ok parsed ∧
      (context.restoreCandidate runtime candidate).unresolvedTokens = [] ∧
      (context.restoreCandidate runtime candidate).validationErrors = []) ∨
    ∃ error, parseToken runtime candidate = .error error ∧
      (context.restoreCandidate runtime candidate).unresolvedTokens =
        [candidate] ∧
      (context.restoreCandidate runtime candidate).validationErrors =
        [malformedMessage candidate error] := by
  cases parsed : parseToken runtime candidate with
  | error error =>
      right
      refine ⟨error, rfl, ?_, ?_⟩ <;>
        simp only [RestoreContext.restoreCandidate, parsed]
      rfl
  | ok token =>
      left
      refine ⟨token, rfl, ?_⟩
      by_cases authorized : candidate ∈ context.authorizedTokens
      · obtain ⟨original, known⟩ :=
          Option.isSome_iff_exists.mp (isSome_original? accepted authorized)
        simp only [RestoreContext.restoreCandidate, parsed, authorized,
          not_true_eq_false, if_false, known]
        exact ⟨rfl, rfl⟩
      · simp only [RestoreContext.restoreCandidate, parsed, authorized,
          not_false_eq_true, if_true]
        exact ⟨rfl, rfl⟩

theorem mem_malformedTokens {text candidate : Text} :
    candidate ∈ malformedTokens runtime text ↔
      candidate ∈ tokenCandidates text ∧
        ∃ error, parseToken runtime candidate = .error error := by
  rw [malformedTokens, List.mem_filter]
  apply and_congr_right
  intro _
  cases parseToken runtime candidate <;> simp [Except.toOption]

section Accepted

variable {session : RedactionSession} {permits : List RestorePermit}
  (accepted : RestoreContext.withPermits session permits = .ok context)

include accepted

theorem mem_unresolvedTokens {text token : Text} :
    token ∈ (context.restoreText runtime text).unresolvedTokens ↔
      token ∈ malformedTokens runtime text := by
  rw [restoreText_report RestoreResult.unresolvedTokens_append
    (fun _ => rfl), List.mem_flatMap, mem_malformedTokens]
  constructor
  · rintro ⟨candidate, listed, reported⟩
    rcases @restoreCandidate_reports runtime _ _ _ accepted candidate with
      ⟨_, _, unresolved, _⟩ | ⟨error, refused, unresolved, _⟩
    · rw [unresolved] at reported
      cases reported
    · rw [unresolved] at reported
      rw [List.mem_singleton.mp reported]
      exact ⟨listed, error, refused⟩
  · rintro ⟨listed, error, refused⟩
    refine ⟨token, listed, ?_⟩
    rcases @restoreCandidate_reports runtime _ _ _ accepted token with
      ⟨_, parsed, _, _⟩ | ⟨_, _, unresolved, _⟩
    · rw [refused] at parsed
      cases parsed
    · rw [unresolved]
      exact List.mem_singleton_self token

/-- Every validation error is that of a malformed token. -/
theorem of_mem_validationErrors {text complaint : Text}
    (reported :
      complaint ∈ (context.restoreText runtime text).validationErrors) :
    ∃ candidate ∈ malformedTokens runtime text,
      ∃ error, parseToken runtime candidate = .error error ∧
        complaint = malformedMessage candidate error := by
  rw [restoreText_report RestoreResult.validationErrors_append
    (fun _ => rfl), List.mem_flatMap] at reported
  obtain ⟨candidate, listed, reported⟩ := reported
  rcases @restoreCandidate_reports runtime _ _ _ accepted candidate with
    ⟨_, _, _, errors⟩ | ⟨error, refused, _, errors⟩
  · rw [errors] at reported
    cases reported
  · rw [errors] at reported
    exact ⟨candidate, mem_malformedTokens.mpr ⟨listed, error, refused⟩, error,
      refused, List.mem_singleton.mp reported⟩

/-- The message of an invalid restore has a phrase exactly when a malformed
token has it. -/
theorem infix_restore_message {text message phrase : Text}
    (foreign : Foreign phrase)
    (invalid :
      ensureRestoreValid (context.restoreText runtime text) =
        .error message) :
    phrase <:+: message ↔
      ∃ candidate ∈ malformedTokens runtime text, phrase <:+: candidate := by
  unfold ensureRestoreValid at invalid
  split at invalid
  · cases invalid
  · have shape := (Except.error.inj invalid).symm
    have semicolon : ';' ∉ phrase := foreign.marks ';' (by decide)
    rw [shape]
    change phrase <:+: [';', ' '].intercalate _ ↔ _
    rw [infix_intercalate foreign.nonempty semicolon foreign.notBlank]
    constructor
    · rintro ⟨part, listed, occurs⟩
      rcases List.mem_append.mp listed with complaint | unresolved
      · obtain ⟨candidate, malformed, error, refused, rfl⟩ :=
          of_mem_validationErrors accepted complaint
        refine ⟨candidate, malformed, ?_⟩
        rw [malformedMessage, List.append_assoc,
          foreign.infix_quotation (by decide)] at occurs
        rcases occurs with given | inError
        · exact given
        · apply foreign.infix_of_complaint refused
          exact (@Foreign.infix_after phrase foreign ':' (by decide) []
            (Or.inl rfl) error).mp inError
      · split at unresolved
        · cases unresolved
        · rw [List.mem_singleton.mp unresolved,
            foreign.infix_unresolved] at occurs
          obtain ⟨candidate, reported, inside⟩ := occurs
          exact ⟨candidate, (mem_unresolvedTokens accepted).mp reported,
            inside⟩
    · rintro ⟨candidate, malformed, occurs⟩
      have listed := (mem_unresolvedTokens accepted).mpr malformed
      have present :
          (context.restoreText runtime text).unresolvedTokens ≠ [] :=
        List.ne_nil_of_mem listed
      refine ⟨_, List.mem_append_right _ ?_,
        foreign.infix_unresolved.mpr ⟨candidate, listed, occurs⟩⟩
      rw [if_neg present]
      exact List.mem_singleton_self _

end Accepted

end Restore

/-- Every malformed token is free of the phrases of other statuses, and one of
them has a phrase of a request that cannot be processed. -/
def StatusPhrases (runtime : Runtime) (text : Text) : Prop :=
  (∀ candidate ∈ malformedTokens runtime text,
      ∀ phrase ∈ otherPhrases, ¬ phrase <:+: candidate) ∧
    ∃ candidate ∈ malformedTokens runtime text,
      ∃ phrase ∈ unprocessablePhrases, phrase <:+: candidate

/-- An invalid restore is answered as a request that cannot be processed
exactly when the malformed tokens of the text happen to say so. -/
theorem statusForError_invalid_restore_iff (runtime : Runtime)
    (session : RedactionSession) (permits : List RestorePermit)
    (context : RestoreContext)
    (accepted : RestoreContext.withPermits session permits = .ok context)
    (text : Text)
    (invalid : (context.restoreText runtime text).isValid = false) :
    ∃ message,
      ensureRestoreValid (context.restoreText runtime text) =
        .error message ∧
      (statusForError { message } = .unprocessableEntity ↔
        StatusPhrases runtime text) := by
  have failed :
      ∃ message,
        ensureRestoreValid (context.restoreText runtime text) =
          .error message := by
    rw [ensureRestoreValid, invalid]
    exact ⟨_, rfl⟩
  obtain ⟨message, failed⟩ := failed
  refine ⟨message, failed, ?_⟩
  have other :
      ∀ phrase ∈ otherPhrases,
        (phrase <:+: message ↔
          ∃ candidate ∈ malformedTokens runtime text,
            phrase <:+: candidate) := by
    intro phrase listed
    exact infix_restore_message accepted
      (foreign_phrases phrase (List.mem_append_left _ listed)) failed
  have unprocessable :
      ∀ phrase ∈ unprocessablePhrases,
        (phrase <:+: message ↔
          ∃ candidate ∈ malformedTokens runtime text,
            phrase <:+: candidate) := by
    intro phrase listed
    exact infix_restore_message accepted
      (foreign_phrases phrase (List.mem_append_right _ listed)) failed
  change statusForMessage message = .unprocessableEntity ↔ _
  rw [statusForMessage_eq_unprocessable]
  constructor
  · rintro ⟨none, phrase, listed, occurs⟩
    constructor
    · intro candidate malformed phrase listed inside
      exact none phrase listed
        ((other phrase listed).mpr ⟨candidate, malformed, inside⟩)
    · obtain ⟨candidate, malformed, inside⟩ :=
        (unprocessable phrase listed).mp occurs
      exact ⟨candidate, malformed, phrase, listed, inside⟩
  · rintro ⟨none, candidate, malformed, phrase, listed, inside⟩
    constructor
    · intro phrase listed occurs
      obtain ⟨candidate, malformed, inside⟩ := (other phrase listed).mp occurs
      exact none candidate malformed phrase listed inside
    · exact ⟨phrase, listed,
        (unprocessable phrase listed).mpr ⟨candidate, malformed, inside⟩⟩

/-- A malformed token with the word itself. -/
theorem statusForError_invalid_restore_iff_restore :
    ∃ message,
      ensureRestoreValid
          ((RestoreContext.fromAuthorizedTokens (sampleSession [])
            []).restoreText sampleRuntime (lit "[[RDX:v2:restore]]")) =
        .error message ∧
      statusForError { message } = .unprocessableEntity := by
  obtain ⟨message, failed, status⟩ :=
    statusForError_invalid_restore_iff sampleRuntime (sampleSession []) [] _
      rfl (lit "[[RDX:v2:restore]]") (by decide +kernel)
  refine ⟨message, failed, status.mpr ?_⟩
  have malformed :
      malformedTokens sampleRuntime (lit "[[RDX:v2:restore]]") =
        [lit "[[RDX:v2:restore]]"] := by
    decide +kernel
  unfold StatusPhrases
  rw [malformed]
  decide +kernel

/-- Any other malformed token is answered as an error of the service. -/
theorem malformed_token_is_internal_error :
    ¬ ∀ (runtime : Runtime) (session : RedactionSession)
        (permits : List RestorePermit) (context : RestoreContext),
      RestoreContext.withPermits session permits = .ok context →
      ∀ text : Text, (context.restoreText runtime text).isValid = false →
        ∀ message,
          ensureRestoreValid (context.restoreText runtime text) =
              .error message →
            statusForError { message } = .unprocessableEntity := by
  intro all
  have status :=
    all sampleRuntime (sampleSession []) [] _ rfl (lit "[[RDX:v2:broken]]")
      (by decide +kernel) _ rfl
  revert status
  decide +kernel

end Redactor
