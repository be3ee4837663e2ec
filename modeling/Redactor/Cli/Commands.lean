import Redactor.Service.Routes

/-!
# The command line

A command reads texts from files and from the standard input, redacts or
restores them, writes the sealed session and the sealed permit to files, and
prints.  Of a file we keep what reading it gives, and different paths may lead
to one file.
-/

namespace Redactor

open Utf8 Fallible

namespace Cli

inductive LlmMode where
  | off
  | ollama
  deriving DecidableEq, Repr

inductive ReportFormat where
  | human
  | json
  deriving DecidableEq, Repr

structure RedactionRuleArgs where
  secret : Option Bool := none
  domain : Option Bool := none
  url : Option Bool := none
  email : Option Bool := none
  ip : Option Bool := none
  cidr : Option Bool := none
  phone : Option Bool := none
  person : Option Bool := none
  organization : Option Bool := none

structure LlmArgs where
  llm : Option LlmMode := none
  ollamaUrl : Option Text := none
  model : Option Text := none

structure SessionPassphraseArgs where
  sessionPassphrase : Option Text := none
  sessionPassphraseEnv : Text := lit "REDACTOR_SESSION_PASSPHRASE"

structure RedactCommandParts where
  customString : List Text := []
  customStringContains : List Text := []
  customStringRegex : List Text := []
  customStringLine : List Text := []
  customStringContainsLine : List Text := []
  customStringRegexLine : List Text := []
  customFile : List Text := []
  sourcePath : Option Text := none

structure RedactArgs where
  input : Option Text := none
  report : ReportFormat := .human
  inputKind : InputKind := .text
  llm : LlmArgs := {}
  redaction : RedactionRuleArgs := {}
  parts : RedactCommandParts := {}
  sessionOut : Option Text := none
  permitOut : Option Text := none
  sessionPassphrase : SessionPassphraseArgs := {}

structure DetectArgs where
  input : Option Text := none
  report : ReportFormat := .human
  inputKind : InputKind := .text
  llm : LlmArgs := {}
  redaction : RedactionRuleArgs := {}
  parts : RedactCommandParts := {}

/-- At least one permit has to be given. -/
structure RestoreArgs where
  input : Option Text := none
  session : Text
  permits : List Text
  permitsRequired : permits ≠ []
  patch : Option Text := none
  report : ReportFormat := .human
  sessionPassphrase : SessionPassphraseArgs := {}
  repo : Option Text := none
  skipApplyCheck : Bool := false

structure InspectSessionArgs where
  session : Text
  report : ReportFormat := .human
  sessionPassphrase : SessionPassphraseArgs := {}

inductive Command where
  | redact (args : RedactArgs)
  | detect (args : DetectArgs)
  | restore (args : RestoreArgs)
  | inspectSession (args : InspectSessionArgs)

/-- What the names of the variables that are read as settings begin with. -/
def configEnvPrefix : Text := lit "REDACTOR_"

structure LlmSettings where
  mode : LlmMode := .off
  ollamaUrl : Text := lit "http://localhost:11434"
  model : Text := lit "gemma4:e2b"

structure AppConfig where
  llm : LlmSettings := {}
  redaction : RedactionPolicy := {}

structure ResolvedLlmArgs where
  llm : LlmMode
  ollamaUrl : Text
  model : Text

structure LlmConfig where
  baseUrl : Text
  model : Text

def resolveRedactionPolicy (overrides : RedactionRuleArgs)
    (defaults : RedactionPolicy) : RedactionPolicy where
  rules :=
    { secret := overrides.secret.getD defaults.rules.secret
      domain := overrides.domain.getD defaults.rules.domain
      url := overrides.url.getD defaults.rules.url
      email := overrides.email.getD defaults.rules.email
      ip := overrides.ip.getD defaults.rules.ip
      cidr := overrides.cidr.getD defaults.rules.cidr
      phone := overrides.phone.getD defaults.rules.phone
      person := overrides.person.getD defaults.rules.person
      organization :=
        overrides.organization.getD defaults.rules.organization }
  customStrings := defaults.customStrings
  customFiles := defaults.customFiles

def resolveLlmArgs (llm : LlmArgs) (defaults : LlmSettings) :
    ResolvedLlmArgs where
  llm := llm.llm.getD defaults.mode
  ollamaUrl := llm.ollamaUrl.getD defaults.ollamaUrl
  model := llm.model.getD defaults.model

def buildRedactor (engine : Engine) (llm : ResolvedLlmArgs)
    (policy : RedactionPolicy) : Except Text RedactorInstance :=
  match llm.llm with
  | .off => tryBuild engine false policy
  | .ollama => tryBuild engine true policy

/-- The language model that `build_redactor` configures. -/
def ResolvedLlmArgs.config (llm : ResolvedLlmArgs) : LlmConfig where
  baseUrl := llm.ollamaUrl
  model := llm.model

structure CustomArgs where
  customStrings : List CustomStringRule
  customFiles : List CustomFileRule
  sourcePath : Option Text

def extendRules (patterns : List Text) (matchType : CustomStringMatch)
    (scope : CustomStringScope) : List CustomStringRule :=
  patterns.map fun pattern => { pattern, matchType, scope }

def CustomArgs.ofParts (parts : RedactCommandParts) : CustomArgs where
  customStrings :=
    extendRules parts.customString .exact .text ++
      extendRules parts.customStringContains .contains .text ++
      extendRules parts.customStringRegex .regex .text ++
      extendRules parts.customStringLine .exact .line ++
      extendRules parts.customStringContainsLine .contains .line ++
      extendRules parts.customStringRegexLine .regex .line
  customFiles := parts.customFile.map fun path => { path }
  sourcePath := parts.sourcePath

/-- The policy of the settings, changed and extended by the arguments. -/
def commandPolicy (redaction : RedactionRuleArgs) (custom : CustomArgs)
    (config : AppConfig) : RedactionPolicy :=
  let policy := resolveRedactionPolicy redaction config.redaction
  { policy with
    customStrings := policy.customStrings ++ custom.customStrings
    customFiles := policy.customFiles ++ custom.customFiles }

/-- The arguments of `redact` together with the settings. -/
structure RedactCommand where
  input : Option Text
  report : ReportFormat
  inputKind : InputKind
  llm : ResolvedLlmArgs
  policy : RedactionPolicy
  sourcePath : Option Text
  sessionOut : Option Text
  permitOut : Option Text
  sessionPassphrase : SessionPassphraseArgs

def RedactCommand.ofArgs (args : RedactArgs) (config : AppConfig) :
    RedactCommand :=
  let custom := CustomArgs.ofParts args.parts
  { input := args.input
    report := args.report
    inputKind := args.inputKind
    llm := resolveLlmArgs args.llm config.llm
    policy := commandPolicy args.redaction custom config
    sourcePath := custom.sourcePath
    sessionOut := args.sessionOut
    permitOut := args.permitOut
    sessionPassphrase := args.sessionPassphrase }

def sourceName : FindingSource → Text
  | .rule => lit "Rule"
  | .llm => lit "Llm"

def findingLine (finding : Finding) : Text :=
  finding.kind.label ++ lit " [" ++ numeral finding.start ++ lit ".." ++
    numeral finding.finish ++ lit "] " ++ finding.matchText ++ lit " (" ++
    sourceName finding.source ++ lit ")\n"

def summaryLine (entry : SessionEntrySummary) : Text :=
  entry.token ++ lit " " ++ entry.kind.label ++ lit " x" ++
    numeral entry.occurrences ++
    (entry.replacementHint.map fun hint => lit " hint=" ++ hint).getD [] ++
    lit "\n"

def printSessionSummary (summary : SessionSummary) : Text :=
  lit "session_id: " ++ summary.sessionId ++ lit "\nversion: " ++
    numeral summary.version ++ lit "\nfingerprint: " ++
    summary.fingerprint ++ lit "\nredacted_fingerprint: " ++
    summary.redactedFingerprint ++ lit "\nentry_count: " ++
    numeral summary.entryCount ++ lit "\n" ++
    summary.entries.flatMap summaryLine

/-! ## What a command meets -/

/-- What reading each file gives. -/
abbrev Disk (κ : Type) : Type := κ → Option Text

structure SanitizedRedactionOutput where
  redactedText : Text
  sessionFile : Option Text
  restorePermitFile : Option Text
  stats : RedactionStats

/-- The machine that commands run on.  `locate` is the file that a path leads
to; `failedWrite` is what a failed write leaves of the file, and there is
nothing when the write succeeds.  `readConfig` reads the settings from the
settings file and from variables, which may name none, and says what it leaves
of the file. -/
structure Host (κ : Type) where
  environment : Environment
  crypto : CryptoBackend
  locate : Text → κ
  failedWrite : Disk κ → κ → Text → Option (Option Text)
  environmentVariables : List (Text × Text)
  readConfig :
    Option Text → List (Text × Text) → Except Text AppConfig × Option Text
  currentDir : Option Text
  gitApplyCheck : Text → Text → Except Text Unit
  redactionJson : SanitizedRedactionOutput → Text
  findingsJson : List Finding → Text
  restoreJson : RestoreResult → Text
  summaryJson : SessionSummary → Text

/-- One call of the program, with what it reads from the standard input, what
a language model answers and what is drawn at random. -/
structure Invocation where
  config : Text := lit "redactor.toml"
  command : Command
  stdin : Option Text := none
  answer : LlmConfig → Except Text (List Candidate) := fun _ => .ok []
  draws : Draws

/-- What a command leaves on the disk, and what it prints or fails with; there
is nothing when it aborts. -/
structure CommandOutcome (κ : Type) where
  disk : Disk κ
  printed : Option (Except Text Text)

namespace Host

variable {κ : Type} [DecidableEq κ] (host : Host κ) (disk : Disk κ)

/-- What is on the disk behind a write, which may have failed. -/
def write (path content : Text) : Except (Disk κ) (Disk κ) :=
  match host.failedWrite disk (host.locate path) content with
  | none =>
      .ok (Function.update disk (host.locate path) (some content))
  | some left => .error (Function.update disk (host.locate path) left)

def readInput (stdin : Option Text) : Option Text → Except Text Text
  | none => context (lit "failed to read stdin") stdin
  | some path =>
      if path = lit "-" then
        context (lit "failed to read stdin") stdin
      else
        context (lit "failed to read input file") (disk (host.locate path))

def resolvePassphrase (direct : Option Text) (envName : Text) :
    Except Text Text :=
  match direct with
  | some passphrase => .ok passphrase
  | none =>
      context
        (lit "missing session passphrase; pass --session-passphrase or set " ++
          envName)
        (host.environmentVariables.lookup envName)

def resolveSessionPassphrase (args : SessionPassphraseArgs) :
    Except Text Text :=
  host.resolvePassphrase args.sessionPassphrase args.sessionPassphraseEnv

def printReport (report : ReportFormat) (payload : SanitizedRedactionOutput)
    (humanText : Text) : Text :=
  match report with
  | .human => humanText
  | .json => host.redactionJson payload

/-- `redact_text_artifact`, with a source path or without; there is no result
when the redaction aborts. -/
def redactTextArtifact (redactor : RedactorInstance) (text : Text)
    (inputKind : InputKind) (sourcePath : Option Text)
    (response : Except Text (List Candidate)) (draws : Draws) :
    Option (Except Text RedactorInstance.RedactionArtifact) :=
  (redactor.redactArtifact host.environment
    { inputKind, sourcePath, response
      scopeId := draws.scopeId
      sessionId := draws.sessionId }
    text).map
      (withContext fun message => lit "validation error: " ++ message)

/-- `redact_text_with_encrypted_session`, with a source path or without. -/
def redactTextWithEncryptedSession (redactor : RedactorInstance)
    (text : Text) (inputKind : InputKind) (sourcePath : Option Text)
    (response : Except Text (List Candidate)) (passphrase : Text)
    (draws : Draws) : Option (Except Text EncryptedRedactionArtifact) :=
  (host.redactTextArtifact redactor text inputKind sourcePath response
    draws).map fun redacted => do
      let artifact ←
        withContext (fun _ => lit "failed to redact text input") redacted
      encryptArtifact host.crypto artifact passphrase draws

/-- The session is written first, then the permit. -/
def writeSecured (report : ReportFormat) (path permitPath : Text)
    (secured : EncryptedRedactionArtifact) : CommandOutcome κ :=
  match host.write disk path secured.encryptedSession with
  | .error disk =>
      ⟨disk, some (.error (lit "failed to write session file " ++ path))⟩
  | .ok disk =>
      match host.write disk permitPath secured.restorePermit with
      | .error disk =>
          ⟨disk,
            some
              (.error (lit "failed to write restore permit " ++ permitPath))⟩
      | .ok disk =>
          ⟨disk,
            some
              (.ok
                (host.printReport report
                  { redactedText := secured.artifact.session.redactedText
                    sessionFile := some path
                    restorePermitFile := some permitPath
                    stats := secured.artifact.result.stats }
                  secured.artifact.session.redactedText))⟩

/-- The text and the redactor of a command. -/
def prepareRedaction (stdin input : Option Text) (llm : ResolvedLlmArgs)
    (policy : RedactionPolicy) : Except Text (Text × RedactorInstance) := do
  let text ← host.readInput disk stdin input
  let redactor ←
    withContext (fun _ => lit "failed to build redaction engine")
      (buildRedactor host.environment.engine llm policy)
  .ok (text, redactor)

def secureRedaction (invocation : Invocation) (command : RedactCommand)
    (text : Text) (redactor : RedactorInstance) (path : Text) :
    CommandOutcome κ :=
  match command.permitOut with
  | none =>
      ⟨disk,
        some
          (.error
            (lit "--permit-out is required when --session-out is used"))⟩
  | some permitPath =>
      match host.resolveSessionPassphrase command.sessionPassphrase with
      | .error message => ⟨disk, some (.error message)⟩
      | .ok passphrase =>
          match
            host.redactTextWithEncryptedSession redactor text
              command.inputKind command.sourcePath
              (invocation.answer command.llm.config) passphrase
              invocation.draws
          with
          | none => ⟨disk, none⟩
          | some (.error _) =>
              ⟨disk, some (.error (lit "failed to redact input"))⟩
          | some (.ok secured) =>
              host.writeSecured disk command.report path permitPath secured

def plainRedaction (invocation : Invocation) (command : RedactCommand)
    (text : Text) (redactor : RedactorInstance) : Option (Except Text Text) :=
  (host.redactTextArtifact redactor text command.inputKind command.sourcePath
    (invocation.answer command.llm.config) invocation.draws).map
      fun redacted => do
        let artifact ←
          withContext (fun _ => lit "failed to redact input") redacted
        .ok
          (host.printReport command.report
            { redactedText := artifact.result.redactedText
              sessionFile := none
              restorePermitFile := none
              stats := artifact.result.stats }
            artifact.result.redactedText)

def runRedact (invocation : Invocation) (command : RedactCommand) :
    CommandOutcome κ :=
  match
    host.prepareRedaction disk invocation.stdin command.input command.llm
      command.policy
  with
  | .error message => ⟨disk, some (.error message)⟩
  | .ok (text, redactor) =>
      match command.sessionOut with
      | some path =>
          host.secureRedaction disk invocation command text redactor path
      | none =>
          ⟨disk, host.plainRedaction invocation command text redactor⟩

/-- With a source path the text is always taken as plain text. -/
def detectFindings (redactor : RedactorInstance) (text : Text)
    (inputKind : InputKind) (sourcePath : Option Text)
    (response : Except Text (List Candidate)) : Option (List Finding) :=
  match sourcePath with
  | some source =>
      (detectInternal host.environment response redactor text .text
        (some source)).map DetectionOutcome.findings
  | none =>
      (detectInternal host.environment response redactor text inputKind
        none).map DetectionOutcome.findings

def runDetect (invocation : Invocation) (args : DetectArgs)
    (config : AppConfig) : Option (Except Text Text) :=
  let custom := CustomArgs.ofParts args.parts
  let llm := resolveLlmArgs args.llm config.llm
  match
    host.prepareRedaction disk invocation.stdin args.input llm
      (commandPolicy args.redaction custom config)
  with
  | .error message => some (.error message)
  | .ok (text, redactor) =>
      (host.detectFindings redactor text args.inputKind custom.sourcePath
        (invocation.answer llm.config)).map fun findings =>
          match args.report with
          | .human => .ok (findings.flatMap findingLine)
          | .json => .ok (host.findingsJson findings)

def checkPatchApplies (repoRoot : Text) (result : RestoreResult) :
    Except Text Unit :=
  if result.isValid then
    host.gitApplyCheck repoRoot result.restoredText
  else
    .ok ()

/-- The current directory is asked for even when the repository is given. -/
def applyCheck (args : RestoreArgs) (result : RestoreResult) :
    Except Text Unit :=
  if args.skipApplyCheck then
    .ok ()
  else do
    let current ←
      context (lit "failed to resolve current directory") host.currentDir
    host.checkPatchApplies (args.repo.getD current) result

def restorePatch (args : RestoreArgs) (passphrase encrypted : Text)
    (encryptedPermits : List Text) (patchPath : Text) :
    Except Text RestoreResult := do
  let session ←
    withContext (fun _ => lit "failed to load encrypted session")
      (decryptRedactionSession host.crypto encrypted passphrase)
  let patchText ←
    context (lit "failed to read patch file " ++ patchPath)
      (disk (host.locate patchPath))
  let permits ← decryptPermits host.crypto encryptedPermits passphrase
  let restoring ← RestoreContext.withPermits session permits
  let result := restoring.restoreText host.environment.runtime patchText
  host.applyCheck args result
  .ok result

def restoreInput (stdin : Option Text) (args : RestoreArgs)
    (passphrase encrypted : Text) (encryptedPermits : List Text) :
    Except Text RestoreResult := do
  let text ← host.readInput disk stdin args.input
  withContext
    (fun _ => lit "failed to restore text from encrypted session")
    (restoreTextFromEncryptedSession host.environment host.crypto text
      encrypted encryptedPermits passphrase)

def readPermits (paths : List Text) : Except Text (List Text) :=
  paths.mapM fun path =>
    context (lit "failed to read restore permit " ++ path)
      (disk (host.locate path))

def printRestoreReport (report : ReportFormat) (result : RestoreResult) :
    Text :=
  match report with
  | .human => result.restoredText
  | .json => host.restoreJson result

def restoreResult (stdin : Option Text) (args : RestoreArgs)
    (passphrase encrypted : Text) (encryptedPermits : List Text) :
    Except Text RestoreResult :=
  match args.patch with
  | some patchPath =>
      host.restorePatch disk args passphrase encrypted encryptedPermits
        patchPath
  | none =>
      host.restoreInput disk stdin args passphrase encrypted
        encryptedPermits

def runRestore (stdin : Option Text) (args : RestoreArgs) :
    Except Text Text := do
  let passphrase ← host.resolveSessionPassphrase args.sessionPassphrase
  let encrypted ←
    context (lit "failed to read session file " ++ args.session)
      (disk (host.locate args.session))
  let encryptedPermits ← host.readPermits disk args.permits
  let result ←
    host.restoreResult disk stdin args passphrase encrypted encryptedPermits
  ensureRestoreValid result
  .ok (host.printRestoreReport args.report result)

def runInspectSession (args : InspectSessionArgs) : Except Text Text := do
  let encrypted ←
    context (lit "failed to read session file " ++ args.session)
      (disk (host.locate args.session))
  let passphrase ← host.resolveSessionPassphrase args.sessionPassphrase
  let summary ←
    withContext (fun _ => lit "failed to inspect session file")
      (inspectEncryptedSession host.crypto encrypted passphrase)
  match args.report with
  | .human => .ok (printSessionSummary summary)
  | .json => .ok (host.summaryJson summary)

def runCommand (invocation : Invocation) (config : AppConfig) :
    CommandOutcome κ :=
  match invocation.command with
  | .redact args =>
      host.runRedact disk invocation (.ofArgs args config)
  | .detect args => ⟨disk, host.runDetect disk invocation args config⟩
  | .restore args =>
      ⟨disk, some (host.runRestore disk invocation.stdin args)⟩
  | .inspectSession args =>
      ⟨disk, some (host.runInspectSession disk args)⟩

/-- `app_config::load`, with what it leaves of the file: every variable with the
prefix is read as a setting. -/
def loadConfig (path : Text) (content : Option Text) :
    Except Text AppConfig × Option Text :=
  let settings :=
    host.environmentVariables.filter fun (name, _) =>
      configEnvPrefix.isPrefixOf name
  let (loaded, left) := host.readConfig content settings
  (withContext
      (fun _ => lit "failed to load application config from " ++ path)
      loaded,
    left)

/-- The settings, and the disk once they are loaded: a missing file is
written. -/
def configured (invocation : Invocation) : Except Text AppConfig × Disk κ :=
  let file := host.locate invocation.config
  let (loaded, left) := host.loadConfig invocation.config (disk file)
  (loaded, Function.update disk file left)

/-- `cli::run` -/
def run (invocation : Invocation) : CommandOutcome κ :=
  match host.configured disk invocation with
  | (.error message, disk) => ⟨disk, some (.error message)⟩
  | (.ok config, disk) => host.runCommand disk invocation config

end Host

end Cli

end Redactor
