import Redactor.Session.SinglePass
import Redactor.Session.Spelling

/-!
# Which entries of a valid session can be restored

A session is validated with the parser, which takes the last suffix of a token
away and splits the rest at the separators.  Restoration finds a token with
the scanner, which ends it at the first suffix.  The two agree on every token
of a session exactly when the scope of the session has no suffix in it.
-/

namespace Redactor

open Utf8 RestoreResult

section Restorable

variable {runtime : Runtime} {context : RestoreContext} {token : Text}
  {parsed : ParsedToken}

/-- A token between plain segments is the one candidate. -/
theorem visited_token {before after : Text}
    (read : parseToken runtime token = .ok parsed)
    (noSuffix : ¬ tokenSuffix <:+: parsed.scopeId)
    (markerFree : MarkerFree before) :
    Visited before token after ∧
      context.restoreText runtime (before ++ (token ++ after)) =
        plain before ++ context.restoreCandidate runtime token ++
          context.restoreText runtime after := by
  obtain ⟨fields, rfl, _, clean, _⟩ := fields_of_parseToken read
  have firstClosing :=
    notBefore_tokenSuffix_of_scope noSuffix (clean ']' (by decide)) after
  have first :
      NotBefore tokenPrefix
        (before ++
          (tokenPrefix ++
            ((parsed.scopeId ++ ':' :: fields) ++ (tokenSuffix ++ after))))
        before.length :=
    borderless_tokenPrefix.notBefore markerFree
  constructor
  · exact visited_closed first firstClosing
  · have restored :=
      @RestoreContext.restoreText_closed runtime context before _ after
        first firstClosing
    simpa only [List.append_assoc] using restored

/-- With a suffix in its scope, a token is cut where the scanner finds it, and
what is left does not parse. -/
theorem isValid_restoreText_of_cut
    (read : parseToken runtime token = .ok parsed)
    (cut : tokenSuffix <:+: parsed.scopeId) :
    (context.restoreText runtime token).isValid = false := by
  obtain ⟨scope, _, _⟩ := of_parseToken_eq_ok read
  obtain ⟨fields, rfl, _⟩ := fields_of_parseToken read
  obtain ⟨body, remaining, search⟩ := exists_dropInfix?_of_infix cut
  obtain ⟨shape, first⟩ := dropInfix?_eq_some_iff_notBefore.mp search
  rw [shape] at first
  have firstClosing :=
    notBefore_append_right first ((':' :: fields) ++ tokenSuffix)
  have regroup :
      tokenPrefix ++ ((parsed.scopeId ++ ':' :: fields) ++ tokenSuffix) =
        tokenPrefix ++
          (body ++
            (tokenSuffix ++
              (remaining ++ (':' :: fields ++ tokenSuffix)))) := by
    rw [shape]
    simp only [List.append_assoc]
  have malformed :
      ∃ message,
        parseToken runtime (tokenPrefix ++ (body ++ tokenSuffix)) =
          .error message := by
    cases readBody :
        parseToken runtime (tokenPrefix ++ (body ++ tokenSuffix)) with
    | error message =>
        exact ⟨message, rfl⟩
    | ok other =>
        obtain ⟨inner, same, split, _⟩ := inner_of_parseToken readBody
        have isBody : body = inner :=
          List.append_cancel_right (List.append_cancel_left same)
        have noColon : ':' ∉ body := by
          intro member
          apply scope.2
          rw [shape]
          exact List.mem_append_left _ member
        rw [← isBody, List.splitOn_eq_singleton noColon] at split
        cases split
  obtain ⟨message, malformed⟩ := malformed
  rw [regroup, RestoreContext.restoreText_closed_first firstClosing,
    isValid_append, isValid_restoreCandidate_error malformed,
    Bool.false_and]

end Restorable

/-- The entries of a valid session are found whole and restored, between
whatever plain segments they stand, if and only if the scope of the session
has no suffix in it. -/
theorem entry_restorable_iff (runtime : Runtime)
    (session : RedactionSession) (authorized : List Text)
    (entry : RestorationEntry)
    (valid : validateSession runtime session = .ok ())
    (member : entry ∈ session.entries)
    (isAuthorized : entry.token ∈ authorized) :
    (∀ before after, MarkerFree before → MarkerFree after →
        let context :=
          RestoreContext.fromAuthorizedTokens session authorized
        let text := before ++ (entry.token ++ after)
        let result := context.restoreText runtime text
        scanTokenLikeRanges text =
            [(byteLen before, byteLen before + byteLen entry.token)] ∧
          result.restoredText = before ++ (entry.original ++ after) ∧
          result.isValid = true) ↔
      ¬ tokenSuffix <:+: session.scopeId := by
  have accepted := validateSession_eq_ok.mp valid
  obtain ⟨counter, read⟩ := accepted.parsed entry member
  constructor
  · intro restored cut
    obtain ⟨_, _, isValid⟩ := restored [] [] (by decide) (by decide)
    rw [List.nil_append, List.append_nil,
      isValid_restoreText_of_cut read cut] at isValid
    cases isValid
  · intro noSuffix before after plainBefore plainAfter context text result
    obtain ⟨visited, restored⟩ :=
      @visited_token runtime context _ _ before after read noSuffix
        plainBefore
    have absent := dropInfix?_eq_none_iff.mpr plainAfter
    have known : context.original? entry.token = some entry.original := by
      rw [original?_fromAuthorizedTokens,
        entryOf?_of_mem accepted.tokens member, Option.map_some]
    have replaced :
        context.restoreCandidate runtime entry.token =
          RestoreResult.complete entry.original 1 :=
      restoreCandidate_of_authorized read isAuthorized known
    rw [replaced, RestoreContext.restoreText_absent absent] at restored
    refine ⟨?_, ?_, ?_⟩
    · have scanned := visited.scanned 0
      rw [scanFrom_absent absent, Nat.zero_add] at scanned
      exact scanned
    · have texts := congrArg restoredText restored
      simpa [complete, plain] using texts
    · have valid := congrArg isValid restored
      simpa [complete, plain, isValid, empty] using valid

/-- The first token of a session, in a text with another candidate behind. -/
theorem entry_restorable_first :
    ¬ tokenSuffix <:+: (sampleSession []).scopeId ∧
      (let context :=
          RestoreContext.fromAuthorizedTokens (sampleSession [])
            [sampleToken 1]
        let text := lit "to " ++ (sampleToken 1 ++ lit " [[RDX:v2]]")
        let result := context.restoreText sampleRuntime text
        scanTokenLikeRanges text =
            [(3, 3 + byteLen (sampleToken 1))] ∧
          result.restoredText =
            lit "to " ++ (lit "amélie@a.fr" ++ lit " [[RDX:v2]]") ∧
          result.isValid = true) := by
  have noSuffix : ¬ tokenSuffix <:+: (sampleSession []).scopeId := by
    decide
  have restorable :=
    entry_restorable_iff sampleRuntime (sampleSession [])
      [sampleToken 1] ⟨sampleToken 1, .email, lit "amélie@a.fr", none, 1⟩
      (by decide +kernel) (by decide) (by decide)
  exact ⟨noSuffix,
    restorable.mpr noSuffix (lit "to ") (lit " [[RDX:v2]]") (by decide)
      (by decide)⟩

/-- A runtime with the digest of the first address token of the scope
`a]]b`. -/
def sampleBracketRuntime : Runtime :=
  sampleRuntime.withDigest (lit "v2:a]]b:EMAIL:1")
    (lit "70f49ecd8664b0a7afa134b61a109925" ++
      lit "6fdd01ec849a6c8fba6dc2beb5e45f9c")
    (by decide +kernel) (by decide +kernel)

def sampleBracketToken : Text :=
  lit "[[RDX:v2:a]]b:EMAIL:001:70f49ecd]]"

/-- A session whose scope has a suffix in it. -/
def sampleBracketSession : RedactionSession where
  version := sessionVersion
  sessionId := lit "s1"
  scopeId := lit "a]]b"
  externalId := none
  fingerprint := []
  redactedFingerprint := []
  redactedText := sampleBracketToken
  policy := {}
  entries := [⟨sampleBracketToken, .email, lit "a@a.fr", none, 1⟩]
  issuedTokens := [sampleBracketToken]

/-- The session is accepted and has issued its token, which is not restored. -/
theorem bracket_scope_not_restored :
    let context := RestoreContext.new sampleBracketSession
    validateSession sampleBracketRuntime sampleBracketSession = .ok () ∧
      context.Restores sampleBracketRuntime sampleBracketToken
        (lit "a@a.fr") ∧
      scanTokenLikeRanges sampleBracketToken ≠
        [(0, byteLen sampleBracketToken)] ∧
      (context.restoreText sampleBracketRuntime
          sampleBracketToken).restoredText = sampleBracketToken ∧
      (context.restoreText sampleBracketRuntime
          sampleBracketToken).isValid = false := by
  refine ⟨by decide +kernel, ⟨⟨⟨lit "a]]b", .email, 1⟩, ?_⟩, ?_, ?_⟩,
    by decide +kernel, by decide +kernel, by decide +kernel⟩
  · decide +kernel
  · decide +kernel
  · decide +kernel

end Redactor
