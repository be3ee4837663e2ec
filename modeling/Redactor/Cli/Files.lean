import Redactor.Cli.Commands
import Redactor.Service.Stateless

/-!
# The files of the command line

A redaction that writes its session and its permit leaves two files.  As long
as other commands spare these files, a restore from them gives the text back,
and refuses the permits of other redactions.
-/

namespace Redactor

open Utf8 Fallible

namespace Cli

def Command.outputs : Command → List Text
  | .redact args => args.sessionOut.toList ++ args.permitOut.toList
  | .detect _ | .restore _ | .inspectSession _ => []

section Runs

variable {κ : Type} [DecidableEq κ] {host : Host κ} {disk next : Disk κ}
  {kept : κ → Prop} {file : κ} {invocation : Invocation}

/-- A call that writes none of the files that are to be kept. -/
structure Spares (host : Host κ) (kept : κ → Prop)
    (invocation : Invocation) : Prop where
  config : ¬ kept (host.locate invocation.config)
  outputs :
    ∀ path ∈ invocation.command.outputs, ¬ kept (host.locate path)

/-- Calls one after the other. -/
inductive CommandRun (host : Host κ) (kept : κ → Prop) :
    Disk κ → Disk κ → Prop
  | refl (disk : Disk κ) : CommandRun host kept disk disk
  | tail {first disk : Disk κ} (invocation : Invocation) :
      CommandRun host kept first disk → Spares host kept invocation →
      CommandRun host kept first (host.run disk invocation).disk

theorem configured_spares (spares : ¬ kept (host.locate invocation.config))
    (isKept : kept file) :
    (host.configured disk invocation).2 file = disk file := by
  have other : file ≠ host.locate invocation.config := by
    rintro rfl
    exact spares isKept
  exact Function.update_of_ne other _ _

theorem write_spares {path content : Text}
    (spares : file ≠ host.locate path) :
    (∀ written, host.write disk path content = .ok written →
      written file = disk file) ∧
    ∀ left, host.write disk path content = .error left →
      left file = disk file := by
  unfold Host.write
  cases host.failedWrite disk (host.locate path) content with
  | none =>
      constructor
      · intro written isWritten
        rw [← Except.ok.inj isWritten, Function.update_of_ne spares]
      · intro left isLeft
        cases isLeft
  | some content =>
      constructor
      · intro written isWritten
        cases isWritten
      · intro left isLeft
        rw [← Except.error.inj isLeft, Function.update_of_ne spares]

theorem writeSecured_spares {report : ReportFormat} {path permitPath : Text}
    {secured : EncryptedRedactionArtifact}
    (spares : file ≠ host.locate path)
    (sparesPermit : file ≠ host.locate permitPath) :
    (host.writeSecured disk report path permitPath secured).disk file =
      disk file := by
  obtain ⟨written, left⟩ :=
    @write_spares _ _ host disk file path secured.encryptedSession spares
  unfold Host.writeSecured
  cases first : host.write disk path secured.encryptedSession with
  | error disk =>
      exact left disk first
  | ok middle =>
      obtain ⟨writtenPermit, leftPermit⟩ :=
        @write_spares _ _ host middle file permitPath secured.restorePermit
          sparesPermit
      cases second : host.write middle permitPath secured.restorePermit with
      | error disk =>
          simp only [second]
          exact (leftPermit disk second).trans (written middle first)
      | ok disk =>
          simp only [second]
          exact (writtenPermit disk second).trans (written middle first)

theorem runRedact_spares {command : RedactCommand}
    (spares :
      ∀ path ∈ command.sessionOut.toList ++ command.permitOut.toList,
        file ≠ host.locate path) :
    (host.runRedact disk invocation command).disk file = disk file := by
  unfold Host.runRedact
  cases host.prepareRedaction disk invocation.stdin command.input command.llm
      command.policy with
  | error message =>
      rfl
  | ok prepared =>
      cases isSession : command.sessionOut with
      | none =>
          rfl
      | some path =>
          simp only [Host.secureRedaction]
          cases isPermit : command.permitOut with
          | none =>
              rfl
          | some permitPath =>
              rw [isSession, isPermit] at spares
              cases host.resolveSessionPassphrase
                  command.sessionPassphrase with
              | error message =>
                  rfl
              | ok passphrase =>
                  simp only
                  split
                  · rfl
                  · rfl
                  · exact writeSecured_spares (spares path (by simp))
                      (spares permitPath (by simp))

/-- A call leaves the files alone that it spares. -/
theorem run_spares (spares : Spares host kept invocation)
    (isKept : kept file) :
    (host.run disk invocation).disk file = disk file := by
  have configured :=
    @configured_spares _ _ host disk kept file invocation spares.config
      isKept
  unfold Host.run
  cases settled : host.configured disk invocation with
  | mk loaded after =>
      rw [settled] at configured
      cases loaded with
      | error message =>
          exact configured
      | ok config =>
          refine Eq.trans ?_ configured
          have outputs := spares.outputs
          unfold Host.runCommand
          cases isCommand : invocation.command with
          | redact args =>
              rw [isCommand] at outputs
              apply runRedact_spares
              rintro path listed rfl
              exact outputs path listed isKept
          | detect args =>
              rfl
          | restore args =>
              rfl
          | inspectSession args =>
              rfl

theorem files_kept (run : CommandRun host kept disk next)
    (isKept : kept file) : next file = disk file := by
  induction run with
  | refl =>
      rfl
  | tail invocation _ spares inductionHypothesis =>
      exact (run_spares spares isKept).trans inductionHypothesis

end Runs

section Restore

variable {κ : Type} {host : Host κ} {disk : Disk κ}
  {stdin : Option Text} {args : RestoreArgs}

theorem restoreWithPermits_eq_ok {runtime : Runtime}
    {session : RedactionSession} {permits : List RestorePermit}
    {text : Text} {result : RestoreResult} :
    restoreWithPermits runtime session permits text = .ok result ↔
      ∃ restoring, RestoreContext.withPermits session permits =
          .ok restoring ∧
        restoring.restoreText runtime text = result ∧
        ensureRestoreValid result = .ok () := by
  unfold restoreWithPermits
  rw [bind_eq_ok]
  apply exists_congr
  intro restoring
  apply and_congr_right
  intro _
  rw [bind_eq_ok]
  constructor
  · rintro ⟨_, valid, last⟩
    obtain rfl := Except.ok.inj last
    exact ⟨rfl, valid⟩
  · rintro ⟨rfl, valid⟩
    exact ⟨(), valid, rfl⟩

/-- The text that a restore works on. -/
def Supplies (host : Host κ) (disk : Disk κ) (stdin : Option Text)
    (args : RestoreArgs) (text : Text) : Prop :=
  match args.patch with
  | some patchPath => disk (host.locate patchPath) = some text
  | none => host.readInput disk stdin args.input = .ok text

/-- A restored patch passes the check, if it is made. -/
def PassesCheck (host : Host κ) (args : RestoreArgs)
    (result : RestoreResult) : Prop :=
  args.patch = none ∨ host.applyCheck args result = .ok ()

/-- A restore from opened files. -/
structure Opens (host : Host κ) (disk : Disk κ) (args : RestoreArgs)
    (session : RedactionSession) (permits : List RestorePermit) : Prop where
  opened :
    ∃ passphrase encrypted encryptedPermits,
      host.resolveSessionPassphrase args.sessionPassphrase =
          .ok passphrase ∧
        disk (host.locate args.session) = some encrypted ∧
        host.readPermits disk args.permits = .ok encryptedPermits ∧
        decryptSessionFromStr host.crypto encrypted passphrase =
          .ok session ∧
        decryptPermits host.crypto encryptedPermits passphrase =
          .ok permits

theorem restoreInput_eq_ok {passphrase encrypted : Text}
    {encryptedPermits : List Text} {result : RestoreResult} :
    host.restoreInput disk stdin args passphrase encrypted
        encryptedPermits = .ok result ↔
      ∃ text session permits,
        host.readInput disk stdin args.input = .ok text ∧
          decryptSessionFromStr host.crypto encrypted passphrase =
            .ok session ∧
          decryptPermits host.crypto encryptedPermits passphrase =
            .ok permits ∧
          restoreWithPermits host.environment.runtime session permits
            text = .ok result := by
  simp only [Host.restoreInput, restoreTextFromEncryptedSession,
    decryptRedactionSession, bind_eq_ok, withContext_eq_ok]
  constructor
  · rintro ⟨text, isText, session, opened, permits, openedPermits, done⟩
    exact ⟨text, session, permits, isText, opened, openedPermits, done⟩
  · rintro ⟨text, session, permits, isText, opened, openedPermits, done⟩
    exact ⟨text, isText, session, opened, permits, openedPermits, done⟩

theorem restorePatch_eq_ok {passphrase encrypted patchPath : Text}
    {encryptedPermits : List Text} {result : RestoreResult} :
    (host.restorePatch disk args passphrase encrypted encryptedPermits
          patchPath = .ok result ∧
        ensureRestoreValid result = .ok ()) ↔
      (∃ text session permits,
        disk (host.locate patchPath) = some text ∧
          decryptSessionFromStr host.crypto encrypted passphrase =
            .ok session ∧
          decryptPermits host.crypto encryptedPermits passphrase =
            .ok permits ∧
          restoreWithPermits host.environment.runtime session permits
            text = .ok result) ∧
        host.applyCheck args result = .ok () := by
  simp only [Host.restorePatch, decryptRedactionSession, bind_eq_ok,
    withContext_eq_ok, context_eq_ok, restoreWithPermits_eq_ok]
  constructor
  · rintro ⟨⟨session, opened, text, isText, permits, openedPermits,
      restoring, accepted, checked, passed, last⟩, valid⟩
    obtain rfl := Except.ok.inj last
    exact ⟨⟨text, session, permits, isText, opened, openedPermits, restoring,
      accepted, rfl, valid⟩, passed⟩
  · rintro ⟨⟨text, session, permits, isText, opened, openedPermits, restoring,
      accepted, rfl, valid⟩, passed⟩
    exact ⟨⟨session, opened, text, isText, permits, openedPermits, restoring,
      accepted, (), passed, rfl⟩, valid⟩

/-- When a restore prints, and what. -/
theorem runRestore_eq_ok {printed : Text} :
    host.runRestore disk stdin args = .ok printed ↔
      ∃ session permits text result,
        Opens host disk args session permits ∧
          Supplies host disk stdin args text ∧
          restoreWithPermits host.environment.runtime session permits
            text = .ok result ∧
          PassesCheck host args result ∧
          printed = host.printRestoreReport args.report result := by
  simp only [Host.runRestore, bind_eq_ok, context_eq_ok]
  constructor
  · rintro ⟨passphrase, resolved, encrypted, isSession, encryptedPermits,
      arePermits, result, done, _, isValid, last⟩
    have isPrinted := (Except.ok.inj last).symm
    have opens (session : RedactionSession) (permits : List RestorePermit)
        (opened :
          decryptSessionFromStr host.crypto encrypted passphrase =
            .ok session)
        (openedPermits :
          decryptPermits host.crypto encryptedPermits passphrase =
            .ok permits) :
        Opens host disk args session permits :=
      ⟨passphrase, encrypted, encryptedPermits, resolved, isSession,
        arePermits, opened, openedPermits⟩
    unfold Host.restoreResult at done
    cases isPatch : args.patch with
    | some patchPath =>
        rw [isPatch] at done
        obtain ⟨⟨text, session, permits, isText, opened, openedPermits,
          restored⟩, passed⟩ := restorePatch_eq_ok.mp ⟨done, isValid⟩
        refine ⟨session, permits, text, result,
          opens session permits opened openedPermits, ?_, restored,
          .inr passed, isPrinted⟩
        rw [Supplies, isPatch]
        exact isText
    | none =>
        rw [isPatch] at done
        obtain ⟨text, session, permits, isText, opened, openedPermits,
          restored⟩ := restoreInput_eq_ok.mp done
        refine ⟨session, permits, text, result,
          opens session permits opened openedPermits, ?_, restored,
          .inl isPatch, isPrinted⟩
        rw [Supplies, isPatch]
        exact isText
  · rintro ⟨session, permits, text, result, opens, supplies, restored,
      passes, isPrinted⟩
    obtain ⟨passphrase, encrypted, encryptedPermits, resolved, isSession,
      arePermits, opened, openedPermits⟩ := opens.opened
    have isValid := (restoreWithPermits_eq_ok.mp restored).choose_spec.2.2
    refine ⟨passphrase, resolved, encrypted, isSession, encryptedPermits,
      arePermits, result, ?_, (), isValid, by rw [isPrinted]⟩
    unfold Host.restoreResult
    unfold Supplies at supplies
    cases isPatch : args.patch with
    | some patchPath =>
        rw [isPatch] at supplies
        have passed := passes.resolve_left (by rw [isPatch]; simp)
        exact (restorePatch_eq_ok.mpr
          ⟨⟨text, session, permits, supplies, opened, openedPermits,
            restored⟩, passed⟩).1
    | none =>
        rw [isPatch] at supplies
        exact restoreInput_eq_ok.mpr
          ⟨text, session, permits, supplies, opened, openedPermits, restored⟩

end Restore

/-! ## What a redaction leaves -/

section Redact

variable {κ : Type} [DecidableEq κ] {host : Host κ} {disk : Disk κ}
  {invocation : Invocation} {args : RedactArgs}
  {path permitPath printed : Text}

/-- The redactor of a call, and what its language model answers. -/
def Detects (host : Host κ) (disk : Disk κ) (invocation : Invocation)
    (args : RedactArgs) (redactor : RedactorInstance)
    (response : Except Text (List Candidate)) : Prop :=
  ∃ config, (host.configured disk invocation).1 = .ok config ∧
    buildRedactor host.environment.engine
        (RedactCommand.ofArgs args config).llm
        (RedactCommand.ofArgs args config).policy = .ok redactor ∧
    response =
      invocation.answer (RedactCommand.ofArgs args config).llm.config

/-- The report of a redaction that has written two files. -/
def securedReport (host : Host κ) (report : ReportFormat)
    (path permitPath : Text)
    (artifact : RedactorInstance.RedactionArtifact) : Text :=
  host.printReport report
    { redactedText := artifact.session.redactedText
      sessionFile := some path
      restorePermitFile := some permitPath
      stats := artifact.result.stats }
    artifact.session.redactedText

/-- What a call of `redact` went through that has written its session and its
permit. -/
structure Secures (host : Host κ) (disk : Disk κ) (invocation : Invocation)
    (args : RedactArgs) (path permitPath passphrase text : Text)
    (artifact : RedactorInstance.RedactionArtifact)
    (sealedSession sealedPermit : Text) : Prop where
  resolves :
    host.resolveSessionPassphrase args.sessionPassphrase = .ok passphrase
  isText :
    host.readInput (host.configured disk invocation).2 invocation.stdin
      args.input = .ok text
  redacts :
    ∃ redactor response,
      Detects host disk invocation args redactor response ∧
        redactor.redactArtifact host.environment
            { inputKind := args.inputKind
              sourcePath := args.parts.sourcePath
              response
              scopeId := invocation.draws.scopeId
              sessionId := invocation.draws.sessionId }
            text = some (.ok artifact)
  sealsSession :
    sealSession host.crypto artifact passphrase invocation.draws =
      .ok sealedSession
  sealsPermit :
    sealPermit host.crypto artifact passphrase invocation.draws =
      .ok sealedPermit
  leaves :
    (host.run disk invocation).disk =
      Function.update
        (Function.update (host.configured disk invocation).2
          (host.locate path) (some sealedSession))
        (host.locate permitPath) (some sealedPermit)
  prints :
    (host.run disk invocation).printed =
      some (.ok (securedReport host args.report path permitPath artifact))

theorem write_eq_ok {content : Text} {written : Disk κ}
    (done : host.write disk path content = .ok written) :
    written = Function.update disk (host.locate path) (some content) := by
  unfold Host.write at done
  split at done
  · exact (Except.ok.inj done).symm
  · cases done

omit [DecidableEq κ] in
theorem redactTextWithEncryptedSession_eq_ok {redactor : RedactorInstance}
    {text passphrase : Text} {inputKind : InputKind}
    {sourcePath : Option Text} {response : Except Text (List Candidate)}
    {draws : Draws} {secured : EncryptedRedactionArtifact}
    (done :
      host.redactTextWithEncryptedSession redactor text inputKind sourcePath
        response passphrase draws = some (.ok secured)) :
    redactor.redactArtifact host.environment
          { inputKind, sourcePath, response
            scopeId := draws.scopeId
            sessionId := draws.sessionId }
          text = some (.ok secured.artifact) ∧
      sealSession host.crypto secured.artifact passphrase draws =
        .ok secured.encryptedSession ∧
      sealPermit host.crypto secured.artifact passphrase draws =
        .ok secured.restorePermit := by
  obtain ⟨redacted, isRedacted, encrypted⟩ := Option.map_eq_some_iff.mp done
  obtain ⟨result, isResult, rfl⟩ := Option.map_eq_some_iff.mp isRedacted
  obtain ⟨artifact, isArtifact, last⟩ := bind_eq_ok.mp encrypted
  have isOk := withContext_eq_ok.mp (withContext_eq_ok.mp isArtifact)
  obtain ⟨session, permit, same, _⟩ := encryptArtifact_eq_ok last
  subst same
  rw [isOk] at isResult
  exact ⟨isResult, session, permit⟩

theorem writeSecured_eq_ok {report : ReportFormat}
    {secured : EncryptedRedactionArtifact}
    (ended :
      (host.writeSecured disk report path permitPath secured).printed =
        some (.ok printed)) :
    host.writeSecured disk report path permitPath secured =
      ⟨Function.update
          (Function.update disk (host.locate path)
            (some secured.encryptedSession))
          (host.locate permitPath) (some secured.restorePermit),
        some
          (.ok
            (securedReport host report path permitPath
              secured.artifact))⟩ := by
  unfold Host.writeSecured at ended ⊢
  cases first : host.write disk path secured.encryptedSession with
  | error left =>
      rw [first] at ended
      cases Option.some.inj ended
  | ok middle =>
      rw [first] at ended
      cases second : host.write middle permitPath secured.restorePermit with
      | error left =>
          simp only [second] at ended
          cases Option.some.inj ended
      | ok after =>
          rw [write_eq_ok first] at second
          simp only [write_eq_ok first, second, write_eq_ok second]
          rfl

theorem secureRedaction_eq_ok {command : RedactCommand}
    {redactor : RedactorInstance} {text : Text}
    (permitOut : command.permitOut = some permitPath)
    (ended :
      (host.secureRedaction disk invocation command text redactor
        path).printed = some (.ok printed)) :
    ∃ passphrase secured,
      host.resolveSessionPassphrase command.sessionPassphrase =
          .ok passphrase ∧
        host.redactTextWithEncryptedSession redactor text command.inputKind
            command.sourcePath (invocation.answer command.llm.config)
            passphrase invocation.draws = some (.ok secured) ∧
        host.secureRedaction disk invocation command text redactor path =
          host.writeSecured disk command.report path permitPath secured := by
  unfold Host.secureRedaction at ended ⊢
  rw [permitOut] at ended ⊢
  cases resolved :
      host.resolveSessionPassphrase command.sessionPassphrase with
  | error message =>
      rw [resolved] at ended
      cases Option.some.inj ended
  | ok passphrase =>
      simp only [resolved] at ended ⊢
      cases redacted :
          host.redactTextWithEncryptedSession redactor text
            command.inputKind command.sourcePath
            (invocation.answer command.llm.config) passphrase
            invocation.draws with
      | none =>
          rw [redacted] at ended
          cases ended
      | some result =>
          rw [redacted] at ended
          cases result with
          | error message =>
              cases Option.some.inj ended
          | ok secured =>
              exact ⟨passphrase, secured, rfl, redacted, rfl⟩

/-- A call that prints has loaded its settings. -/
theorem exists_config
    (ended : (host.run disk invocation).printed = some (.ok printed)) :
    ∃ config, (host.configured disk invocation).1 = .ok config ∧
      host.run disk invocation =
        host.runCommand (host.configured disk invocation).2 invocation
          config := by
  unfold Host.run at ended ⊢
  cases settled : host.configured disk invocation with
  | mk loaded after =>
      rw [settled] at ended
      cases loaded with
      | error message =>
          cases Option.some.inj ended
      | ok config =>
          exact ⟨config, rfl, rfl⟩

omit [DecidableEq κ] in
theorem prepareRedaction_eq_ok {stdin input : Option Text}
    {llm : ResolvedLlmArgs} {policy : RedactionPolicy} {text : Text}
    {redactor : RedactorInstance}
    (prepared :
      host.prepareRedaction disk stdin input llm policy =
        .ok (text, redactor)) :
    host.readInput disk stdin input = .ok text ∧
      buildRedactor host.environment.engine llm policy = .ok redactor := by
  obtain ⟨read, isText, rest⟩ := bind_eq_ok.mp prepared
  obtain ⟨built, isBuilt, last⟩ := bind_eq_ok.mp rest
  cases last
  exact ⟨isText, withContext_eq_ok.mp isBuilt⟩

theorem exists_secures (isRedact : invocation.command = .redact args)
    (sessionOut : args.sessionOut = some path)
    (permitOut : args.permitOut = some permitPath)
    (ended : (host.run disk invocation).printed = some (.ok printed)) :
    ∃ passphrase text artifact sealedSession sealedPermit,
      Secures host disk invocation args path permitPath passphrase text
        artifact sealedSession sealedPermit := by
  obtain ⟨config, isConfig, isRun⟩ := exists_config ended
  rw [isRun, Host.runCommand, isRedact] at ended
  simp only [Host.runRedact] at ended
  rw [Host.runCommand, isRedact] at isRun
  simp only [Host.runRedact] at isRun
  cases prepared :
      host.prepareRedaction (host.configured disk invocation).2
        invocation.stdin (RedactCommand.ofArgs args config).input
        (RedactCommand.ofArgs args config).llm
        (RedactCommand.ofArgs args config).policy with
  | error message =>
      rw [prepared] at ended
      cases Option.some.inj ended
  | ok ready =>
      have isSession :
          (RedactCommand.ofArgs args config).sessionOut = some path :=
        sessionOut
      rw [prepared] at ended isRun
      simp only [isSession] at ended isRun
      obtain ⟨passphrase, secured, resolves, redacted, isSecured⟩ :=
        secureRedaction_eq_ok permitOut ended
      rw [isSecured] at ended isRun
      rw [writeSecured_eq_ok ended] at isRun
      obtain ⟨isText, isBuilt⟩ := prepareRedaction_eq_ok prepared
      obtain ⟨redacts, sealsSession, sealsPermit⟩ :=
        redactTextWithEncryptedSession_eq_ok redacted
      exact ⟨passphrase, ready.1, secured.artifact, secured.encryptedSession,
        secured.restorePermit,
        { resolves
          isText
          redacts :=
            ⟨_, _, ⟨config, isConfig, isBuilt, rfl⟩, redacts⟩
          sealsSession
          sealsPermit
          leaves := by rw [isRun]
          prints := by rw [isRun]; rfl }⟩

end Redact

end Cli

end Redactor
