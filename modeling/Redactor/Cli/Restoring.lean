import Redactor.Cli.Files

/-!
# Restoring from files

The two files of a redaction restore its text as long as other commands spare
them, provided that they are two files.  A permit file of another redaction is
of no use.
-/

namespace Redactor

open Utf8 Fallible

namespace Cli

section Fresh

variable {environment : Environment} {redactor : RedactorInstance}
  {given : RedactionRequest} {text : Text}
  {artifact : RedactorInstance.RedactionArtifact}

/-- A redaction without a prior session has the scope that was drawn. -/
theorem scopeId_of_fresh
    (redacted : Redacted environment redactor given text artifact)
    (fresh : given.priorSession = none) :
    artifact.session.scopeId = given.scopeId := by
  have isRound := redacted.round_redact
  rw [fresh] at isRound
  obtain ⟨steps⟩ := Round.redact_eq_some isRound
  have start := Except.ok.inj steps.continued
  rw [steps.scopeId, ← start]
  rfl

end Fresh

/-- A call of `redact` that has written its session and its permit, neither of
which has been written since. -/
structure SecuredCall {κ : Type} [DecidableEq κ] (host : Host κ)
    (later : Disk κ) where
  before : Disk κ
  invocation : Invocation
  args : RedactArgs
  path : Text
  permitPath : Text
  printed : Text
  isRedact : invocation.command = .redact args
  sessionOut : args.sessionOut = some path
  permitOut : args.permitOut = some permitPath
  ended : (host.run before invocation).printed = some (.ok printed)
  spared :
    CommandRun host
      (fun file =>
        file = host.locate path ∨ file = host.locate permitPath)
      (host.run before invocation).disk later

section Left

variable {κ : Type} [DecidableEq κ] {host : Host κ} {later : Disk κ}

namespace SecuredCall

variable (call : SecuredCall host later)

/-- The text that the call has redacted. -/
def input : Except Text Text :=
  host.readInput (host.configured call.before call.invocation).2
    call.invocation.stdin call.args.input

def passphrase : Except Text Text :=
  host.resolveSessionPassphrase call.args.sessionPassphrase

variable {call}

theorem secures :
    ∃ passphrase text artifact sealedSession sealedPermit,
      Secures host call.before call.invocation call.args call.path
        call.permitPath passphrase text artifact sealedSession
        sealedPermit :=
  exists_secures call.isRedact call.sessionOut call.permitOut call.ended

theorem scopeId_of_secures {passphrase text : Text}
    {artifact : RedactorInstance.RedactionArtifact}
    {sealedSession sealedPermit : Text}
    (secures :
      Secures host call.before call.invocation call.args call.path
        call.permitPath passphrase text artifact sealedSession
        sealedPermit) :
    artifact.session.scopeId = call.invocation.draws.scopeId := by
  obtain ⟨_, _, _, completed⟩ := secures.redacts
  obtain ⟨redacted⟩ := redactArtifact_eq_ok completed
  exact scopeId_of_fresh redacted rfl

section Kept

variable {passphrase text sealedSession sealedPermit : Text}
  {artifact : RedactorInstance.RedactionArtifact}
  (secures :
    Secures host call.before call.invocation call.args call.path
      call.permitPath passphrase text artifact sealedSession sealedPermit)

include secures

theorem permit_kept :
    later (host.locate call.permitPath) = some sealedPermit := by
  rw [files_kept call.spared (.inr rfl), secures.leaves,
    Function.update_self]

theorem session_kept
    (apart : host.locate call.path ≠ host.locate call.permitPath) :
    later (host.locate call.path) = some sealedSession := by
  rw [files_kept call.spared (.inl rfl), secures.leaves,
    Function.update_of_ne apart, Function.update_self]

theorem printed_eq :
    call.printed =
      securedReport host call.args.report call.path call.permitPath
        artifact := by
  have printed := secures.prints
  rw [call.ended] at printed
  exact Except.ok.inj (Option.some.inj printed)

end Kept

end SecuredCall

/-! ## Calls that restore -/

/-- A call of `restore` that has loaded its settings and sees the files as they
are. -/
structure RestoreCall (host : Host κ) (later : Disk κ) where
  invocation : Invocation
  args : RestoreArgs
  isRestore : invocation.command = .restore args
  config : AppConfig
  configured : (host.configured later invocation).1 = .ok config
  session :
    host.locate args.session ≠ host.locate invocation.config
  permits :
    ∀ path ∈ args.permits,
      host.locate path ≠ host.locate invocation.config

namespace RestoreCall

variable (call : RestoreCall host later)

/-- The disk once the settings are loaded. -/
def disk : Disk κ :=
  (host.configured later call.invocation).2

/-- What the call prints. -/
def printed : Option (Except Text Text) :=
  (host.run later call.invocation).printed

variable {call}

theorem printed_eq :
    call.printed =
      some
        (host.runRestore call.disk call.invocation.stdin call.args) := by
  have configured := call.configured
  unfold printed disk Host.run
  cases settled : host.configured later call.invocation with
  | mk loaded after =>
      rw [settled] at configured
      subst configured
      simp only [Host.runCommand, call.isRestore]

theorem disk_of_ne {file : κ}
    (other : file ≠ host.locate call.invocation.config) :
    call.disk file = later file :=
  Function.update_of_ne other _ _

end RestoreCall

section Own

variable {call : SecuredCall host later} {restore : RestoreCall host later}
  {passphrase text sealedSession sealedPermit : Text}
  {artifact : RedactorInstance.RedactionArtifact}
  (reopens : host.crypto.Reopens)
  (secures :
    Secures host call.before call.invocation call.args call.path
      call.permitPath passphrase text artifact sealedSession sealedPermit)

theorem session_read
    (secures :
      Secures host call.before call.invocation call.args call.path
        call.permitPath passphrase text artifact sealedSession sealedPermit)
    (apart : host.locate call.path ≠ host.locate call.permitPath)
    (session :
      host.locate restore.args.session = host.locate call.path) :
    restore.disk (host.locate restore.args.session) =
      some sealedSession := by
  rw [RestoreCall.disk_of_ne restore.session, session,
    SecuredCall.session_kept secures apart]

theorem permit_read
    (secures :
      Secures host call.before call.invocation call.args call.path
        call.permitPath passphrase text artifact sealedSession sealedPermit)
    {path : Text} (listed : path ∈ restore.args.permits)
    (permit : host.locate path = host.locate call.permitPath) :
    restore.disk (host.locate path) = some sealedPermit := by
  rw [RestoreCall.disk_of_ne (restore.permits path listed), permit,
    SecuredCall.permit_kept secures]

include reopens secures

theorem opens_own
    (apart : host.locate call.path ≠ host.locate call.permitPath)
    (session :
      host.locate restore.args.session = host.locate call.path)
    (permits :
      ∀ path ∈ restore.args.permits,
        host.locate path = host.locate call.permitPath)
    (resolves :
      host.resolveSessionPassphrase restore.args.sessionPassphrase =
        .ok passphrase) :
    Opens host restore.disk restore.args artifact.session
      (restore.args.permits.map fun _ =>
        createRestorePermit artifact.session
          call.invocation.draws.permitId) := by
  refine ⟨passphrase, sealedSession,
    restore.args.permits.map fun _ => sealedPermit, resolves,
    session_read secures apart session, ?_,
    decryptSessionFromStr_sealSession reopens secures.sealsSession, ?_⟩
  · refine mapM_eq_ok_map fun path listed => context_eq_ok.mpr ?_
    exact permit_read secures listed (permits path listed)
  · have opened :
        decryptPermits host.crypto
            (restore.args.permits.map fun _ => sealedPermit) passphrase =
          .ok
            ((restore.args.permits.map fun _ => sealedPermit).map fun _ =>
              createRestorePermit artifact.session
                call.invocation.draws.permitId) := by
      refine mapM_eq_ok_map fun sealed listed => ?_
      obtain ⟨_, _, rfl⟩ := List.mem_map.mp listed
      exact decryptRestorePermit_sealPermit reopens secures.sealsPermit
    rw [opened, List.map_map]
    rfl

omit reopens in
/-- What permits of a session restore of the redacted text. -/
theorem restores_own (markerFree : MarkerFree text)
    (counted : artifact.result.findings.length ≤ unsignedMax)
    {paths : List Text} (nonempty : paths ≠ []) (permitId : Text) :
    restoreWithPermits host.environment.runtime artifact.session
        (paths.map fun _ => createRestorePermit artifact.session permitId)
        artifact.session.redactedText =
      .ok (.complete text artifact.result.findings.length) := by
  obtain ⟨_, _, _, completed⟩ := secures.redacts
  obtain ⟨redacted⟩ := redactArtifact_eq_ok completed
  obtain ⟨formatted, sameText, woven⟩ :=
    redacted.fresh_spec rfl call.invocation.draws.scopeDrawn
      call.invocation.draws.sessionNamed counted
  obtain ⟨first, listed⟩ := List.exists_mem_of_ne_nil paths nonempty
  apply restoreWithPermits_of_woven
  · intro permit member
    obtain ⟨_, _, rfl⟩ := List.mem_map.mp member
    exact ⟨rfl, rfl, rfl, formatted.valid.known⟩
  · rw [sameText]
    apply (woven (redacted.placed markerFree)).mono
    intro token value found
    exact ⟨⟨_, List.mem_map_of_mem listed, found.1⟩, found.2⟩

end Own

/-- A permit is no session file. -/
theorem not_opens_of_same_file
    (unread :
      ∀ payload,
        host.crypto.readFile (host.crypto.writePayload payload) = none)
    {call : SecuredCall host later} {restore : RestoreCall host later}
    (same : host.locate call.path = host.locate call.permitPath)
    (session :
      host.locate restore.args.session = host.locate call.path)
    {opened : RedactionSession} {permits : List RestorePermit} :
    ¬ Opens host restore.disk restore.args opened permits := by
  rintro ⟨passphrase, encrypted, _, _, isSession, _, isOpened, _⟩
  obtain ⟨_, _, _, _, sealedPermit, secures⟩ := call.secures
  rw [RestoreCall.disk_of_ne restore.session, session, same,
    SecuredCall.permit_kept secures] at isSession
  obtain rfl := Option.some.inj isSession
  obtain ⟨ciphertext, _, isPayload⟩ := bind_eq_ok.mp secures.sealsPermit
  obtain ⟨envelope, isEnvelope, _⟩ := bind_eq_ok.mp isOpened
  rw [← Except.ok.inj isPayload, unread] at isEnvelope
  cases isEnvelope

/-- The permit of another call is of another scope. -/
theorem not_accepted_of_other (reopens : host.crypto.Reopens)
    {own other : SecuredCall host later} {restore : RestoreCall host later}
    (apart : host.locate own.path ≠ host.locate own.permitPath)
    (scopes :
      own.invocation.draws.scopeId ≠ other.invocation.draws.scopeId)
    (session : host.locate restore.args.session = host.locate own.path)
    {path : Text} (listed : path ∈ restore.args.permits)
    (permit : host.locate path = host.locate other.permitPath)
    (ownPassphrase :
      own.passphrase =
        host.resolveSessionPassphrase restore.args.sessionPassphrase)
    (otherPassphrase :
      other.passphrase =
        host.resolveSessionPassphrase restore.args.sessionPassphrase)
    {opened : RedactionSession} {permits : List RestorePermit}
    (opens : Opens host restore.disk restore.args opened permits)
    {restoring : RestoreContext} :
    RestoreContext.withPermits opened permits ≠ .ok restoring := by
  intro accepted
  obtain ⟨authorized, joined, _⟩ := bind_eq_ok.mp accepted
  obtain ⟨passphrase, encrypted, encryptedPermits, resolves, isSession,
    arePermits, isOpened, areOpened⟩ := opens.opened
  obtain ⟨first, _, artifact, sealedSession, _, secures⟩ := own.secures
  obtain ⟨second, _, otherArtifact, _, sealedPermit, otherSecures⟩ :=
    other.secures
  obtain rfl : first = passphrase :=
    Except.ok.inj
      (secures.resolves.symm.trans (ownPassphrase.trans resolves))
  obtain rfl : second = first :=
    Except.ok.inj
      (otherSecures.resolves.symm.trans (otherPassphrase.trans resolves))
  -- the session is the one of the call
  rw [session_read secures apart session] at isSession
  obtain rfl := Option.some.inj isSession
  rw [decryptSessionFromStr_sealSession reopens secures.sealsSession]
    at isOpened
  obtain rfl := Except.ok.inj isOpened
  -- the permit is the one of the other call
  obtain ⟨encryptedPermit, member, isPermit⟩ :=
    mem_of_mapM_eq_ok arePermits path listed
  have isRead := context_eq_ok.mp isPermit
  rw [permit_read otherSecures listed permit] at isRead
  obtain rfl := Option.some.inj isRead
  obtain ⟨found, foundMember, isFound⟩ :=
    mem_of_mapM_eq_ok areOpened sealedPermit member
  rw [decryptRestorePermit_sealPermit reopens otherSecures.sealsPermit]
    at isFound
  obtain rfl := Except.ok.inj isFound
  have fits := fits_of_authorizedTokens joined _ foundMember
  apply scopes
  rw [← SecuredCall.scopeId_of_secures secures,
    ← SecuredCall.scopeId_of_secures otherSecures]
  exact fits.scopeId.symm

end Left

/-! ## Samples -/

/-- A session file begins with a brace. -/
def sampleReadFile : Text → Option EncryptedSessionFile
  | '{' :: coded => decodedText coded
  | _ => none

def sampleFileCrypto : CryptoBackend :=
  { sampleServiceCrypto with
    writeFile := fun file => '{' :: codedText file
    readFile := sampleReadFile }

theorem sampleFileCrypto_reopens : sampleFileCrypto.Reopens where
  lossless :=
    let lossless := sampleServiceCrypto_reopens.lossless
    ⟨lossless.base64, lossless.session, lossless.permit, lossless.payload,
      decodedText_codedText⟩
  opens := sampleServiceCrypto_reopens.opens

theorem brace_not_mem_codedText {α : Type} [Encodable α] (value : α) :
    '{' ∉ codedText value := by
  unfold codedText
  intro member
  exact absurd (List.eq_of_mem_replicate member) (by decide)

theorem sampleFileCrypto_unread (payload : OpaqueEncryptedPayload) :
    sampleFileCrypto.readFile (sampleFileCrypto.writePayload payload) =
      none := by
  change sampleReadFile (codedText payload) = none
  have noBrace := brace_not_mem_codedText payload
  unfold sampleReadFile
  split
  · rename_i coded shape
    rw [shape] at noBrace
    exact absurd List.mem_cons_self noBrace
  · rfl

/-- A settings file that has addresses found, and no other kind. -/
def sampleSettings : Text :=
  lit "[redaction]\nip = false\ncidr = false\n"

/-- The sample settings are read, while no variable changes them. -/
def sampleReadConfig (content : Option Text)
    (settings : List (Text × Text)) : Except Text AppConfig × Option Text :=
  if content = some sampleSettings ∧ settings = [] then
    (.ok { redaction := sampleMailPolicy }, content)
  else
    (.error (lit "unknown settings"), content)

/-- There is a settings file and nothing else. -/
def sampleDisk : Disk Text := fun file =>
  if file = lit "redactor.toml" then some sampleSettings else none

/-- Every path is a file of its own, and every write succeeds. -/
def sampleHost : Host Text where
  environment := sampleState.environment
  crypto := sampleFileCrypto
  locate path := path
  failedWrite _ _ _ := none
  environmentVariables := [(lit "HOME", lit "/root")]
  readConfig := sampleReadConfig
  currentDir := none
  gitApplyCheck _ _ := .ok ()
  redactionJson output := output.redactedText
  findingsJson findings := findings.flatMap findingLine
  restoreJson result := result.restoredText
  summaryJson := printSessionSummary

/-- What is drawn for the first redaction. -/
def sampleFirstDraws : Draws :=
  sampleDraws (Fin.last 2)

/-- A redaction of one address, with the name of its files. -/
def sampleRedact (name : Text) (draws : Draws) : Invocation where
  command :=
    .redact
      { sessionOut := some (name ++ lit ".session")
        permitOut := some (name ++ lit ".permit")
        sessionPassphrase := { sessionPassphrase := some samplePassphrase } }
  stdin := some (lit "alice@example.com")
  draws := draws

/-- A restore from files of the first redaction and of others. -/
def sampleRestore (text : Text) (others : List Text) : Invocation where
  command :=
    .restore
      { session := lit "mail.session"
        permits := lit "mail.permit" :: others
        permitsRequired := List.cons_ne_nil _ _
        sessionPassphrase := { sessionPassphrase := some samplePassphrase } }
  stdin := some text
  draws := sampleFirstDraws

/-- The first redaction works on the settings file alone. -/
def sampleSecured : CommandOutcome Text :=
  sampleHost.run sampleDisk (sampleRedact (lit "mail") sampleFirstDraws)

theorem sampleSecured_settings :
    sampleSecured.disk (lit "redactor.toml") = some sampleSettings := by
  decide +kernel

theorem sampleSecured_prints :
    ∃ printed, sampleSecured.printed = some (.ok printed) := by
  have prints :
      sampleSecured.printed.any
        (fun result => result.toOption.any fun _ => true) = true := by
    decide +kernel
  obtain ⟨printed, isPrinted, _⟩ := exists_ok_of_any prints
  exact ⟨printed, isPrinted⟩

def sampleCall {later : Disk Text} {printed : Text}
    (isPrinted : sampleSecured.printed = some (.ok printed))
    (spared :
      CommandRun sampleHost
        (fun file =>
          file = lit "mail" ++ lit ".session" ∨
            file = lit "mail" ++ lit ".permit")
        sampleSecured.disk later) :
    SecuredCall sampleHost later where
  before := sampleDisk
  invocation := sampleRedact (lit "mail") sampleFirstDraws
  args := _
  path := _
  permitPath := _
  printed := printed
  isRedact := rfl
  sessionOut := rfl
  permitOut := rfl
  ended := isPrinted
  spared := spared

theorem sampleHost_configured {disk : Disk Text} {invocation : Invocation}
    (isDefault : invocation.config = lit "redactor.toml")
    (settings : disk (lit "redactor.toml") = some sampleSettings) :
    (sampleHost.configured disk invocation).1 =
      .ok { redaction := sampleMailPolicy } := by
  unfold Host.configured
  rw [isDefault]
  change (sampleHost.loadConfig _ (disk (lit "redactor.toml"))).1 = _
  rw [settings]
  rfl

def sampleRestoreCall {later : Disk Text}
    (settings : later (lit "redactor.toml") = some sampleSettings)
    (text : Text) (others : List Text)
    (named : lit "redactor.toml" ∉ others) :
    RestoreCall sampleHost later where
  invocation := sampleRestore text others
  args := _
  isRestore := rfl
  config := _
  configured := sampleHost_configured rfl settings
  session := show lit "mail.session" ≠ lit "redactor.toml" by decide
  permits := by
    intro path listed
    change path ≠ lit "redactor.toml"
    rintro rfl
    exact (List.mem_cons.mp listed).elim (by decide) named

theorem sampleHost_counted (redactor : RedactorInstance)
    (response : Except Text (List Candidate)) (outcome : DetectionOutcome)
    (detects :
      Detects sampleHost sampleDisk
        (sampleRedact (lit "mail") sampleFirstDraws)
        { sessionOut := some (lit "mail" ++ lit ".session")
          permitOut := some (lit "mail" ++ lit ".permit")
          sessionPassphrase :=
            { sessionPassphrase := some samplePassphrase } }
        redactor response)
    (detected :
      detectInternal sampleHost.environment response redactor
        (lit "alice@example.com") .text none = some outcome) :
    outcome.findings.length ≤ unsignedMax := by
  obtain ⟨config, isConfig, isBuilt, rfl⟩ := detects
  obtain rfl := Except.ok.inj isConfig
  have isMail := isBuilt.symm.trans tryBuild_sampleMail
  obtain rfl := Except.ok.inj isMail
  have counts :
      (detectInternal sampleHost.environment (.ok []) sampleMailRedactor
        (lit "alice@example.com") .text none).all
          (fun outcome => decide (outcome.findings.length ≤ unsignedMax)) =
        true := by
    decide +kernel
  have detectedAlone :
      detectInternal sampleHost.environment (.ok []) sampleMailRedactor
        (lit "alice@example.com") .text none = some outcome :=
    detected
  rw [detectedAlone] at counts
  exact of_decide_eq_true counts

section Results

variable {κ : Type} [DecidableEq κ] {host : Host κ} {later : Disk κ}

/-- A restore from the two files of a redaction prints its text, whatever other
commands have done since; from one file it always fails. -/
theorem secured_text_restored (reopens : host.crypto.Reopens)
    (unread :
      ∀ payload,
        host.crypto.readFile (host.crypto.writePayload payload) = none)
    (call : SecuredCall host later) {text : Text}
    (isText : call.input = .ok text) (markerFree : MarkerFree text)
    (counted :
      ∀ redactor response outcome,
        Detects host call.before call.invocation call.args redactor
          response →
        detectInternal host.environment response redactor text
            call.args.inputKind call.args.parts.sourcePath =
          some outcome →
        outcome.findings.length ≤ unsignedMax) :
    ∃ redactedText count stats,
      call.printed =
          host.printReport call.args.report
            { redactedText
              sessionFile := some call.path
              restorePermitFile := some call.permitPath
              stats }
            redactedText ∧
        ∀ restore : RestoreCall host later,
          host.locate restore.args.session = host.locate call.path →
          (∀ path ∈ restore.args.permits,
            host.locate path = host.locate call.permitPath) →
          host.resolveSessionPassphrase restore.args.sessionPassphrase =
            call.passphrase →
          (host.locate call.path = host.locate call.permitPath →
            ∃ message, restore.printed = some (.error message)) ∧
          (host.locate call.path ≠ host.locate call.permitPath →
            Supplies host restore.disk restore.invocation.stdin
              restore.args redactedText →
            PassesCheck host restore.args (.complete text count) →
            restore.printed =
              some
                (.ok
                  (host.printRestoreReport restore.args.report
                    (.complete text count)))) := by
  obtain ⟨passphrase, read, artifact, sealedSession, sealedPermit,
    secures⟩ := call.secures
  obtain rfl : read = text :=
    Except.ok.inj (secures.isText.symm.trans isText)
  have small : artifact.result.findings.length ≤ unsignedMax := by
    obtain ⟨redactor, response, detects, completed⟩ := secures.redacts
    obtain ⟨redacted⟩ := redactArtifact_eq_ok completed
    rw [redacted.findings]
    exact counted redactor response redacted.outcome detects
      redacted.detected
  refine ⟨artifact.session.redactedText, artifact.result.findings.length,
    artifact.result.stats, SecuredCall.printed_eq secures, ?_⟩
  intro restore session permits resolves
  rw [RestoreCall.printed_eq]
  constructor
  · intro same
    cases done :
        host.runRestore restore.disk restore.invocation.stdin
          restore.args with
    | error message =>
        exact ⟨message, rfl⟩
    | ok printed =>
        obtain ⟨_, _, _, _, opens, _⟩ := runRestore_eq_ok.mp done
        exact absurd opens (not_opens_of_same_file unread same session)
  · intro apart supplies passes
    have opens :=
      opens_own reopens secures apart session permits
        (resolves.trans secures.resolves)
    have restored :=
      restores_own secures markerFree small restore.args.permitsRequired
        call.invocation.draws.permitId
    exact congrArg some
      (runRestore_eq_ok.mpr
        ⟨_, _, _, _, opens, supplies, restored, passes, rfl⟩)

end Results

theorem secured_text_restored_one_address :
    ∃ redactedText,
      sampleSecured.printed = some (.ok redactedText) ∧
        (sampleHost.run sampleSecured.disk
          (sampleRestore redactedText [])).printed =
          some (.ok (lit "alice@example.com")) := by
  obtain ⟨printed, isPrinted⟩ := sampleSecured_prints
  have apart :
      sampleHost.locate (lit "mail" ++ lit ".session") ≠
        sampleHost.locate (lit "mail" ++ lit ".permit") := by
    decide
  obtain ⟨redactedText, count, stats, isReport, restores⟩ :=
    secured_text_restored sampleFileCrypto_reopens sampleFileCrypto_unread
      (sampleCall isPrinted (.refl _)) rfl (by decide) sampleHost_counted
  obtain ⟨_, restored⟩ :=
    restores
      (sampleRestoreCall sampleSecured_settings redactedText [] (by simp)) rfl
      (fun path listed => by rw [List.mem_singleton.mp listed]; rfl) rfl
  refine ⟨redactedText, ?_, restored apart rfl (.inl rfl)⟩
  exact isPrinted.trans (congrArg (some ∘ Except.ok) isReport)

section Results

variable {κ : Type} [DecidableEq κ] {host : Host κ} {later : Disk κ}

/-- A restore that is given the permit file of another redaction, among
whatever others, fails. -/
theorem other_permit_file_refused (reopens : host.crypto.Reopens)
    (own other : SecuredCall host later)
    (apart : host.locate own.path ≠ host.locate own.permitPath)
    (scopes :
      own.invocation.draws.scopeId ≠ other.invocation.draws.scopeId)
    (restore : RestoreCall host later)
    (session : host.locate restore.args.session = host.locate own.path)
    {path : Text} (listed : path ∈ restore.args.permits)
    (permit : host.locate path = host.locate other.permitPath)
    (ownPassphrase :
      own.passphrase =
        host.resolveSessionPassphrase restore.args.sessionPassphrase)
    (otherPassphrase :
      other.passphrase =
        host.resolveSessionPassphrase restore.args.sessionPassphrase) :
    ∃ message, restore.printed = some (.error message) := by
  rw [RestoreCall.printed_eq]
  cases done :
      host.runRestore restore.disk restore.invocation.stdin
        restore.args with
  | error message =>
      exact ⟨message, rfl⟩
  | ok printed =>
      obtain ⟨_, _, _, _, opens, _, restored, _⟩ := runRestore_eq_ok.mp done
      obtain ⟨_, accepted, _⟩ := restoreWithPermits_eq_ok.mp restored
      exact absurd accepted
        (not_accepted_of_other reopens apart scopes session listed permit
          ownPassphrase otherPassphrase opens)

end Results

/-- What is drawn for the second redaction. -/
def sampleOtherDraws : Draws :=
  { sampleFirstDraws with
    scopeId := (sampleRequests (Fin.last 2)).scopeId
    scopeDrawn := (sampleRequests (Fin.last 2)).scopeDrawn }

/-- The second redaction works on the disk of the first. -/
def sampleSecuredOther : CommandOutcome Text :=
  sampleHost.run sampleSecured.disk
    (sampleRedact (lit "other") sampleOtherDraws)

theorem sampleSecuredOther_settings :
    sampleSecuredOther.disk (lit "redactor.toml") = some sampleSettings := by
  decide +kernel

theorem sampleSecuredOther_prints :
    ∃ printed, sampleSecuredOther.printed = some (.ok printed) := by
  have prints :
      sampleSecuredOther.printed.any
        (fun result => result.toOption.any fun _ => true) = true := by
    decide +kernel
  obtain ⟨printed, isPrinted, _⟩ := exists_ok_of_any prints
  exact ⟨printed, isPrinted⟩

theorem sampleOther_spares :
    Spares sampleHost
      (fun file =>
        file = lit "mail" ++ lit ".session" ∨
          file = lit "mail" ++ lit ".permit")
      (sampleRedact (lit "other") sampleOtherDraws) where
  config := show ¬ (lit "redactor.toml" = _ ∨ lit "redactor.toml" = _) by
    decide
  outputs := by decide

theorem other_permit_file_refused_two_redactions :
    ∃ message,
      (sampleHost.run sampleSecuredOther.disk
        (sampleRestore (lit "alice@example.com")
          [lit "other.permit"])).printed =
        some (.error message) := by
  obtain ⟨printed, isPrinted⟩ := sampleSecured_prints
  obtain ⟨otherPrinted, isOther⟩ := sampleSecuredOther_prints
  let own : SecuredCall sampleHost sampleSecuredOther.disk :=
    sampleCall isPrinted (.tail _ (.refl _) sampleOther_spares)
  let other : SecuredCall sampleHost sampleSecuredOther.disk :=
    { before := sampleSecured.disk
      invocation := sampleRedact (lit "other") sampleOtherDraws
      args := _
      path := _
      permitPath := _
      printed := otherPrinted
      isRedact := rfl
      sessionOut := rfl
      permitOut := rfl
      ended := isOther
      spared := .refl _ }
  have apart :
      sampleHost.locate (lit "mail" ++ lit ".session") ≠
        sampleHost.locate (lit "mail" ++ lit ".permit") := by
    decide
  have scopes :
      sampleFirstDraws.scopeId ≠ sampleOtherDraws.scopeId := by
    decide
  exact
    other_permit_file_refused sampleFileCrypto_reopens own other apart scopes
      (sampleRestoreCall sampleSecuredOther_settings
        (lit "alice@example.com") [lit "other.permit"] (by decide))
      rfl (List.mem_cons_of_mem _ (List.mem_singleton_self _)) rfl rfl rfl

end Cli

end Redactor
