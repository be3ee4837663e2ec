import Redactor.Service.Restoring
import Redactor.Session.Cleartext

/-!
# Requests without an identifier

The answer to such a request carries everything that a restore needs: the
sealed session and the sealed permit.  No store is asked.
-/

namespace Redactor

open Utf8 Fallible

section Fresh

variable {environment : Environment} {redactor : RedactorInstance}
  {given : RedactionRequest} {text : Text}
  {artifact : RedactorInstance.RedactionArtifact}

/-- A completed redaction is a round. -/
theorem Redacted.round_redact
    (redacted : Redacted environment redactor given text artifact) :
    redacted.round.redact environment.runtime given.priorSession =
      some
        { session := artifact.session
          outputs := [artifact.result.redactedText] } := by
  simp only [Round.redact, Redacted.round, redacted.continued,
    Except.toOption, ReplacementProcessor.redactFragments, redacted.findings,
    redacted.replaced, redacted.session, Option.bind_eq_bind,
    Option.bind_some, Option.pure_def]

/-- What a redaction without a prior session leaves. -/
theorem Redacted.fresh_spec
    (redacted : Redacted environment redactor given text artifact)
    (fresh : given.priorSession = none) (scope : IsHexId given.scopeId)
    (named : given.sessionId ≠ [])
    (counted : artifact.result.findings.length ≤ unsignedMax) :
    FormattedSession environment.runtime artifact.session ∧
      artifact.session.redactedText = artifact.result.redactedText ∧
      (({ text, findings := artifact.result.findings } : Fragment).Placed →
        Woven
          (fun token original =>
            token ∈ artifact.session.issuedTokens ∧
              IsToken environment.runtime token ∧
              (RestoreContext.new artifact.session).original? token =
                some original)
          text artifact.result.redactedText
          artifact.result.findings.length) := by
  have ordered :
      ({ text, findings := artifact.result.findings } : Fragment).InOrder := by
    rw [redacted.findings]
    exact ReplacementProcessor.inOrder_of_redactFrom
      (fun finding member =>
        (confined_detected redacted.detected finding member).inText)
      redacted.replaced
  have allowed :
      RoundAllowed environment.runtime given.priorSession redacted.round :=
    { scopeId := scope
      sessionId := named
      externalId := by simp [fresh]
      ordered := by
        intro fragment member
        rw [List.mem_singleton.mp member]
        exact ordered
      limits := by
        intro processor started
        rw [fresh] at started
        obtain rfl := Except.ok.inj started
        simpa [Redacted.round] using
          staysBelowLimit_fresh counted given.scopeId given.externalId }
  obtain ⟨outcome, isOutcome, formatted, _, woven⟩ :=
    round_redacts allowed (by simp [fresh])
  rw [redacted.round_redact] at isOutcome
  cases isOutcome
  refine ⟨formatted, by rw [redacted.session]; rfl, ?_⟩
  intro placed
  have outputs :=
    woven fun fragment member => by
      rw [List.mem_singleton.mp member]
      exact placed
  cases outputs with
  | cons first _ =>
      exact first

end Fresh

section Sealed

variable {environment : Environment} {crypto : CryptoBackend}
  {artifact : RedactorInstance.RedactionArtifact} {passphrase : Text}
  {draws : Draws} {sealedSession permit : Text}

/-- The sealed session and the sealed permit restore whatever the session
itself restores. -/
theorem restoreTextFromEncryptedSession_sealed (reopens : crypto.Reopens)
    (session : sealSession crypto artifact passphrase draws =
      .ok sealedSession)
    (issued : sealPermit crypto artifact passphrase draws = .ok permit)
    (text : Text) :
    restoreTextFromEncryptedSession environment crypto text sealedSession
        [permit] passphrase =
      restoreWithPermits environment.runtime artifact.session
        [createRestorePermit artifact.session draws.permitId] text := by
  have opened := decryptSessionFromStr_sealSession reopens session
  have openedPermit := decryptRestorePermit_sealPermit reopens issued
  unfold restoreTextFromEncryptedSession decryptRedactionSession
    decryptPermits
  rw [opened, withContext, ok_bind, List.mapM_cons, openedPermit, ok_bind]
  rfl

end Sealed

section Answers

variable {state : HttpState} {request : RedactTextRequest} {draws : Draws}
  {response : RedactTextResponse}

theorem encryptArtifact_eq_ok {crypto : CryptoBackend} {passphrase : Text}
    {artifact : RedactorInstance.RedactionArtifact}
    {secured : EncryptedRedactionArtifact}
    (done :
      encryptArtifact crypto artifact passphrase draws = .ok secured) :
    sealSession crypto artifact passphrase draws =
        .ok secured.encryptedSession ∧
      sealPermit crypto artifact passphrase draws =
        .ok secured.restorePermit ∧
      secured.artifact = artifact ∧
      secured.sessionSummary = .ofSession artifact.session := by
  obtain ⟨data, sealedSession, rest⟩ := bind_eq_ok.mp done
  obtain ⟨permit, sealedPermit, last⟩ := bind_eq_ok.mp rest
  cases last
  exact ⟨withContext_eq_ok.mp sealedSession,
    withContext_eq_ok.mp sealedPermit, rfl, rfl⟩

/-- What a request without an identifier went through to its answer. -/
theorem redactStateless_eq_ok
    (answered : state.redactStateless request draws = .ok response) :
    ∃ redactor artifact,
      state.redactorFor request = .ok redactor ∧
        redactor.redactArtifact state.environment
            { inputKind := request.inputKind
              sourcePath := request.sourcePath
              scopeId := draws.scopeId
              sessionId := draws.sessionId }
            request.text = some (.ok artifact) ∧
        AnswerSeals state draws artifact response := by
  obtain ⟨redactor, built, rest⟩ := bind_eq_ok.mp answered
  obtain ⟨secured, isSecured, written⟩ := bind_eq_ok.mp rest
  have done := withContext_eq_ok.mp (plainError_eq_ok.mp isSecured)
  unfold redactTextWithEncryptedSession redactTextArtifactInternal at done
  cases outcome :
      redactor.redactArtifact state.environment
        { inputKind := request.inputKind
          sourcePath := request.sourcePath
          scopeId := draws.scopeId
          sessionId := draws.sessionId }
        request.text with
  | none =>
      rw [outcome] at done
      cases done
  | some result =>
      rw [outcome] at done
      obtain ⟨artifact, isArtifact, encrypted⟩ := bind_eq_ok.mp done
      have isResult :=
        withContext_eq_ok.mp (withContext_eq_ok.mp isArtifact)
      obtain ⟨sealedSession, sealedPermit, same, summary⟩ :=
        encryptArtifact_eq_ok encrypted
      obtain ⟨_, _, isResponse⟩ := bind_eq_ok.mp (plainError_eq_ok.mp written)
      cases isResponse
      refine ⟨redactor, artifact, plainError_eq_ok.mp built, ?_, ?_⟩
      · rw [outcome, isResult]
      · exact ⟨by rw [same], sealedSession, sealedPermit, summary⟩

/-- A text without a marker comes back from the answer alone: its redacted
text, its sealed session and its sealed permit restore it completely, with or
without a store, and an inspection of the sealed session shows the summary of
the answer. -/
theorem stateless_answer_restores_itself (reopens : state.crypto.Reopens)
    (answered : state.redactStateless request draws = .ok response)
    (markerFree : MarkerFree request.text)
    (counted :
      ∀ redactor outcome,
        state.redactorFor request = .ok redactor →
        detectInternal state.environment (.ok []) redactor request.text
            request.inputKind request.sourcePath = some outcome →
        outcome.findings.length ≤ unsignedMax) :
    state.inspectSession response.encryptedSession =
        .ok response.sessionSummary ∧
      ∃ redactor outcome,
        state.redactorFor request = .ok redactor ∧
          detectInternal state.environment (.ok []) redactor request.text
              request.inputKind request.sourcePath = some outcome ∧
          ∀ connection,
            state.restoreTextInner connection
                { text := response.redactedText
                  encryptedSession := some response.encryptedSession
                  restorePermits := [response.restorePermit] } =
              .ok (.complete request.text outcome.findings.length) := by
  obtain ⟨redactor, artifact, built, completed, seals⟩ :=
    redactStateless_eq_ok answered
  obtain ⟨redacted⟩ := redactArtifact_eq_ok completed
  have small := counted redactor redacted.outcome built redacted.detected
  rw [← redacted.findings] at small
  obtain ⟨formatted, sameText, woven⟩ :=
    redacted.fresh_spec rfl draws.scopeDrawn draws.sessionNamed small
  constructor
  · have opened :=
      decryptSessionFromStr_sealSession reopens seals.sealedSession
    unfold HttpState.inspectSession inspectEncryptedSession
    rw [opened, ok_bind, seals.summary]
  · refine ⟨redactor, redacted.outcome, built, redacted.detected, ?_⟩
    intro connection
    have fits :
        ∀ permit ∈ [createRestorePermit artifact.session draws.permitId],
          PermitFits artifact.session permit := by
      intro permit member
      rw [List.mem_singleton.mp member]
      exact ⟨rfl, rfl, rfl, formatted.valid.known⟩
    have restored :
        restoreWithPermits state.environment.runtime artifact.session
            [createRestorePermit artifact.session draws.permitId]
            response.redactedText =
          .ok (.complete request.text artifact.result.findings.length) := by
      apply restoreWithPermits_of_woven fits
      rw [seals.redactedText, sameText]
      apply (woven (redacted.placed markerFree)).mono
      intro token value found
      exact ⟨⟨_, List.mem_singleton_self _, found.1⟩, found.2⟩
    simp only [HttpState.restoreTextInner,
      restoreTextFromEncryptedSession_sealed reopens seals.sealedSession
        seals.sealedPermit, restored, plainError, redacted.findings]

end Answers

/-- A request without an identifier, for a text with one address. -/
def sampleStatelessRequest : RedactTextRequest where
  text := lit "alice@example.com"

theorem stateless_answer_restores_itself_one_address :
    ∃ response,
      sampleState.redactStateless sampleStatelessRequest (sampleDraws 0) =
          .ok response ∧
        sampleState.restoreTextInner none
            { text := response.redactedText
              encryptedSession := some response.encryptedSession
              restorePermits := [response.restorePermit] } =
          .ok (.complete (lit "alice@example.com") 1) := by
  have built :
      sampleState.redactorFor sampleStatelessRequest =
        .ok sampleMailRedactor :=
    withContext_eq_ok.mpr tryBuild_sampleMail
  have found :
      (detectInternal sampleState.environment (.ok []) sampleMailRedactor
        sampleStatelessRequest.text .text none).all
          (fun outcome => outcome.findings.length == 1) = true := by
    decide +kernel
  have counts (outcome : DetectionOutcome)
      (detected :
        detectInternal sampleState.environment (.ok []) sampleMailRedactor
          sampleStatelessRequest.text .text none = some outcome) :
      outcome.findings.length = 1 := by
    rw [detected] at found
    simpa using found
  have redacts :
      (redactTextArtifactInternal sampleState.environment sampleMailRedactor
        sampleStatelessRequest.text .text none none none (sampleDraws 0)).any
          (fun result => result.toOption.isSome) = true := by
    decide +kernel
  obtain ⟨result, isResult, isOk⟩ := (Option.any_eq_true _ _).mp redacts
  obtain ⟨response, answered⟩ :
      ∃ response,
        sampleState.redactStateless sampleStatelessRequest (sampleDraws 0) =
          .ok response := by
    cases result with
    | error message =>
        cases isOk
    | ok artifact =>
        unfold HttpState.redactStateless redactTextWithEncryptedSession
        rw [built, plainError, ok_bind]
        simp only [sampleStatelessRequest] at isResult ⊢
        rw [isResult]
        exact ⟨_, rfl⟩
  obtain ⟨_, redactor, outcome, isRedactor, detected, restored⟩ :=
    @stateless_answer_restores_itself sampleState sampleStatelessRequest
      (sampleDraws 0) response sampleServiceCrypto_reopens answered
      (by decide) (by
        intro redactor outcome isRedactor detected
        rw [built] at isRedactor
        cases isRedactor
        rw [counts outcome detected]
        decide)
  rw [built] at isRedactor
  cases isRedactor
  have restoredAlone := restored none
  rw [counts outcome detected] at restoredAlone
  exact ⟨response, answered, restoredAlone⟩

end Redactor
