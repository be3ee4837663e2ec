import Redactor.Replace.Token

/-!
# Restore permits

A permit names the tokens that one redaction issued.  `authorizedTokens` joins
the tokens of several permits, after checking that each permit belongs to the
session and names only tokens the session knows.
-/

namespace Redactor

open Utf8 Fallible

def permitVersion : Nat := 1

/-- The permit of the tokens that a session has issued.  `permitId` is the
fresh random identifier. -/
def createRestorePermit (session : RedactionSession) (permitId : Text) :
    RestorePermit where
  version := permitVersion
  permitId := permitId
  scopeId := session.scopeId
  externalId := session.externalId
  issuedTokens := session.issuedTokens

/-- The tokens of the entries of a session. -/
def RedactionSession.tokens (session : RedactionSession) : List Text :=
  session.entries.map RestorationEntry.token

/-- One permit's turn in the loop of `authorizedTokens`. -/
def authorizePermit (session : RedactionSession) (authorized : List Text)
    (permit : RestorePermit) : Except Text (List Text) :=
  if permit.version ≠ permitVersion then
    .error (lit "unsupported restore permit version " ++
      numeral permit.version)
  else if permit.scopeId ≠ session.scopeId ∨
      permit.externalId ≠ session.externalId then
    .error (lit "restore permit does not match session context")
  else
    permit.issuedTokens.foldlM
      (fun authorized token =>
        if token ∉ session.tokens then
          .error (lit "restore permit authorizes unknown token " ++
            quoted token)
        else
          .ok (authorized.insert token))
      authorized

/-- The set of tokens that the permits authorize together. -/
def authorizedTokens (session : RedactionSession)
    (permits : List RestorePermit) : Except Text (List Text) :=
  permits.foldlM (authorizePermit session) []

/-- What a permit must satisfy to be joined with the others. -/
structure PermitFits (session : RedactionSession) (permit : RestorePermit) :
    Prop where
  version : permit.version = permitVersion
  scopeId : permit.scopeId = session.scopeId
  externalId : permit.externalId = session.externalId
  known : ∀ token ∈ permit.issuedTokens, token ∈ session.tokens

/-- The permits name this token. -/
def Authorizes (permits : List RestorePermit) (token : Text) : Prop :=
  ∃ permit ∈ permits, token ∈ permit.issuedTokens

theorem authorizes_cons {permit : RestorePermit}
    {permits : List RestorePermit} {token : Text} :
    Authorizes (permit :: permits) token ↔
      token ∈ permit.issuedTokens ∨ Authorizes permits token := by
  simp [Authorizes]

theorem authorizes_append {left right : List RestorePermit} {token : Text} :
    Authorizes (left ++ right) token ↔
      Authorizes left token ∨ Authorizes right token := by
  simp [Authorizes, or_and_right, exists_or]

section AuthorizedTokens

variable {session : RedactionSession}

private theorem insertTokens_spec {tokens : List Text}
    (authorized : List Text)
    (known : ∀ token ∈ tokens, token ∈ session.tokens) :
    ∃ result,
      tokens.foldlM
          (fun authorized token =>
            if token ∉ session.tokens then
              .error (lit "restore permit authorizes unknown token " ++
                quoted token)
            else
              .ok (authorized.insert token))
          authorized = (.ok result : Except Text (List Text)) ∧
        ∀ token, token ∈ result ↔ token ∈ authorized ∨ token ∈ tokens := by
  induction tokens generalizing authorized with
  | nil =>
      exact ⟨authorized, rfl, by simp⟩
  | cons head tail inductionHypothesis =>
      obtain ⟨result, done, members⟩ :=
        inductionHypothesis (authorized.insert head)
          (fun token member => known token (List.mem_cons_of_mem _ member))
      refine ⟨result, ?_, ?_⟩
      · simpa [known head (by simp)] using done
      · intro token
        rw [members, List.mem_insert_iff, List.mem_cons]
        tauto

private theorem known_of_insertTokens {tokens authorized result : List Text}
    (done :
      tokens.foldlM
          (fun authorized token =>
            if token ∉ session.tokens then
              .error (lit "restore permit authorizes unknown token " ++
                quoted token)
            else
              .ok (authorized.insert token))
          authorized = (.ok result : Except Text (List Text))) :
    ∀ token ∈ tokens, token ∈ session.tokens := by
  induction tokens generalizing authorized with
  | nil =>
      simp
  | cons head tail inductionHypothesis =>
      obtain ⟨middle, first, rest⟩ := foldlM_cons_eq_ok.mp done
      have headKnown := not_not.mp (ite_error_eq_ok.mp first).1
      intro token member
      rcases List.mem_cons.mp member with rfl | later
      · exact headKnown
      · exact inductionHypothesis rest token later

/-- A fitting permit adds its tokens. -/
theorem authorizePermit_of_fits {permit : RestorePermit}
    (authorized : List Text) (fits : PermitFits session permit) :
    ∃ result, authorizePermit session authorized permit = .ok result ∧
      ∀ token, token ∈ result ↔
        token ∈ authorized ∨ token ∈ permit.issuedTokens := by
  obtain ⟨result, done, members⟩ :=
    insertTokens_spec authorized fits.known
  refine ⟨result, ?_, members⟩
  rw [authorizePermit, if_neg (by simp [fits.version]),
    if_neg (by simp [fits.scopeId, fits.externalId])]
  exact done

theorem fits_of_authorizePermit {permit : RestorePermit}
    {authorized result : List Text}
    (done : authorizePermit session authorized permit = .ok result) :
    PermitFits session permit := by
  obtain ⟨version, done⟩ := ite_error_eq_ok.mp done
  obtain ⟨context, done⟩ := ite_error_eq_ok.mp done
  rw [not_or, not_not, not_not] at context
  exact
    { version := not_not.mp version
      scopeId := context.1
      externalId := context.2
      known := known_of_insertTokens done }

private theorem authorizeLoop_spec {permits : List RestorePermit}
    (authorized : List Text)
    (fits : ∀ permit ∈ permits, PermitFits session permit) :
    ∃ result,
      permits.foldlM (authorizePermit session) authorized = .ok result ∧
        ∀ token, token ∈ result ↔
          token ∈ authorized ∨ Authorizes permits token := by
  induction permits generalizing authorized with
  | nil =>
      exact ⟨authorized, rfl, by simp [Authorizes]⟩
  | cons head tail inductionHypothesis =>
      obtain ⟨middle, first, middleMembers⟩ :=
        authorizePermit_of_fits authorized (fits head (by simp))
      obtain ⟨result, rest, members⟩ :=
        inductionHypothesis middle
          (fun permit member => fits permit (List.mem_cons_of_mem _ member))
      refine ⟨result, foldlM_cons_eq_ok.mpr ⟨middle, first, rest⟩, ?_⟩
      intro token
      rw [members, middleMembers, authorizes_cons, or_assoc]

/-- Permits that fit are accepted, and authorize exactly their tokens. -/
theorem authorizedTokens_of_fits {permits : List RestorePermit}
    (fits : ∀ permit ∈ permits, PermitFits session permit) :
    ∃ authorized, authorizedTokens session permits = .ok authorized ∧
      ∀ token, token ∈ authorized ↔ Authorizes permits token := by
  simpa [authorizedTokens] using authorizeLoop_spec [] fits

private theorem fits_of_authorizeLoop {permits : List RestorePermit}
    {authorized result : List Text}
    (done :
      permits.foldlM (authorizePermit session) authorized = .ok result) :
    ∀ permit ∈ permits, PermitFits session permit := by
  induction permits generalizing authorized with
  | nil =>
      simp
  | cons head tail inductionHypothesis =>
      obtain ⟨middle, first, rest⟩ := foldlM_cons_eq_ok.mp done
      intro permit member
      rcases List.mem_cons.mp member with rfl | later
      · exact fits_of_authorizePermit first
      · exact inductionHypothesis rest permit later

/-- Accepted permits fit the session. -/
theorem fits_of_authorizedTokens {permits : List RestorePermit}
    {authorized : List Text}
    (done : authorizedTokens session permits = .ok authorized) :
    ∀ permit ∈ permits, PermitFits session permit :=
  fits_of_authorizeLoop done

/-- The authorized set of accepted permits. -/
theorem mem_authorizedTokens_iff {permits : List RestorePermit}
    {authorized : List Text} {token : Text}
    (done : authorizedTokens session permits = .ok authorized) :
    token ∈ authorized ↔ Authorizes permits token := by
  obtain ⟨result, again, members⟩ :=
    authorizedTokens_of_fits (fits_of_authorizedTokens done)
  rw [done] at again
  cases again
  exact members token

end AuthorizedTokens

/-- Joining permits looks at the tokens of the entries and at the context of
the session, and at nothing else of it. -/
theorem authorizedTokens_congr {left right : RedactionSession}
    (permits : List RestorePermit)
    (scopeId : left.scopeId = right.scopeId)
    (externalId : left.externalId = right.externalId)
    (tokens : left.tokens = right.tokens) :
    authorizedTokens left permits = authorizedTokens right permits := by
  have samePermit : authorizePermit left = authorizePermit right := by
    funext authorized permit
    simp only [authorizePermit, scopeId, externalId, tokens]
  rw [authorizedTokens, authorizedTokens, samePermit]

/-- The token of the address with the given number. -/
def sampleToken (counter : Nat) : Text :=
  formatToken sampleRuntime (lit "ab") .email counter

/-- A session that knows two addresses and has issued the first; the second
address is open. -/
def sampleSession (second : Text) : RedactionSession where
  version := 2
  sessionId := lit "s1"
  scopeId := lit "ab"
  externalId := some (lit "u1")
  fingerprint := []
  redactedFingerprint := []
  redactedText := []
  policy := {}
  entries :=
    [⟨sampleToken 1, .email, lit "amélie@a.fr", none, 1⟩,
      ⟨sampleToken 2, .email, second, none, 3⟩]
  issuedTokens := [sampleToken 1]

def samplePermit : RestorePermit :=
  createRestorePermit (sampleSession []) (lit "p1")

end Redactor
