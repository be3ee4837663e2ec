import Redactor.Session.Permit

/-!
# Encrypted sessions and permits

Three formats share one cipher and one derivation of keys: the session file,
which repeats parts of the session in the clear, the stored session, bound to
its external identifier, and the restore permit.
-/

namespace Redactor

open Utf8 Fallible

structure OpaqueEncryptedPayload where
  version : Nat
  saltB64 : Text
  nonceB64 : Text
  ciphertextB64 : Text
  deriving DecidableEq, Repr

structure SessionEntrySummary where
  token : Text
  kind : FindingKind
  replacementHint : Option Text
  occurrences : Nat
  deriving DecidableEq, Repr

structure EncryptedSessionFile where
  version : Nat
  sessionId : Text
  scopeId : Text
  externalId : Option Text
  fingerprint : Text
  redactedFingerprint : Text
  entryCount : Nat
  entries : List SessionEntrySummary
  saltB64 : Text
  nonceB64 : Text
  ciphertextB64 : Text
  deriving DecidableEq, Repr

structure SessionSummary where
  version : Nat
  sessionId : Text
  scopeId : Text
  externalId : Option Text
  fingerprint : Text
  redactedFingerprint : Text
  entryCount : Nat
  entries : List SessionEntrySummary
  deriving DecidableEq, Repr

def SessionEntrySummary.ofEntry (entry : RestorationEntry) :
    SessionEntrySummary where
  token := entry.token
  kind := entry.kind
  replacementHint := entry.replacementHint
  occurrences := entry.occurrences

def SessionSummary.ofSession (session : RedactionSession) :
    SessionSummary where
  version := session.version
  sessionId := session.sessionId
  scopeId := session.scopeId
  externalId := session.externalId
  fingerprint := session.fingerprint
  redactedFingerprint := session.redactedFingerprint
  entryCount := session.entries.length
  entries := session.entries.map .ofEntry

/-- An array of `size` bytes. -/
abbrev ByteVector (size : Nat) : Type :=
  { bytes : ByteArray // bytes.size = size }

/-- Key derivation, cipher, base64, and the JSON texts of the records. -/
structure CryptoBackend where
  pbkdf2 : ByteArray → ByteVector 16 → Nat → ByteVector 32
  encrypt :
    ByteVector 32 → ByteVector 12 → ByteArray → ByteArray → Option ByteArray
  decrypt :
    ByteVector 32 → ByteVector 12 → ByteArray → ByteArray → Option ByteArray
  encodeBase64 : ByteArray → Text
  decodeBase64 : Text → Option ByteArray
  writeSession : RedactionSession → ByteArray
  readSession : ByteArray → Option RedactionSession
  writePermit : RestorePermit → ByteArray
  readPermit : ByteArray → Option RestorePermit
  writePayload : OpaqueEncryptedPayload → Text
  readPayload : Text → Option OpaqueEncryptedPayload
  writeFile : EncryptedSessionFile → Text
  readFile : Text → Option EncryptedSessionFile

/-- The result, or the message of the context that it failed in. -/
def context {α : Type} (message : Text) : Option α → Except Text α
  | none => .error message
  | some value => .ok value

def kdfRounds : Nat := 600000

def encryptedSessionVersion : Nat := 2

def opaqueVersion : Nat := 1

/-- The bytes of a text. -/
def asBytes (text : Text) : ByteArray :=
  (String.ofList text).toUTF8

def storageAad (externalId : Text) : Text :=
  lit "redactor:session-store:v1:" ++ externalId

def permitAad : Text := lit "redactor:restore-permit:v1"

section Operations

variable (backend : CryptoBackend)

def deriveKey (passphrase : Text) (salt : ByteVector 16) : ByteVector 32 :=
  backend.pbkdf2 (asBytes passphrase) salt kdfRounds

def decodeExact (size : Nat) (data : Text) : Option (ByteVector size) := do
  let decoded ← backend.decodeBase64 data
  if fits : decoded.size = size then some ⟨decoded, fits⟩ else none

/-- `salt` and `nonce` are drawn at random. -/
def sealJson {α : Type} (write : α → ByteArray) (value : α)
    (passphrase : Text) (aad : ByteArray) (salt : ByteVector 16)
    (nonce : ByteVector 12) : Except Text Text := do
  let key := deriveKey backend passphrase salt
  let ciphertext ←
    context (lit "failed to encrypt payload")
      (backend.encrypt key nonce aad (write value))
  .ok
    (backend.writePayload
      { version := opaqueVersion
        saltB64 := backend.encodeBase64 salt.val
        nonceB64 := backend.encodeBase64 nonce.val
        ciphertextB64 := backend.encodeBase64 ciphertext })

def openJson {α : Type} (read : ByteArray → Option α) (data : Text)
    (passphrase : Text) (aad : ByteArray) : Except Text α := do
  let payload ←
    context (lit "failed to parse encrypted payload")
      (backend.readPayload data)
  if payload.version ≠ opaqueVersion then
    .error
      (lit "unsupported encrypted payload version " ++
        numeral payload.version)
  else
    let salt ←
      context (lit "invalid encrypted payload salt")
        (decodeExact backend 16 payload.saltB64)
    let nonce ←
      context (lit "invalid encrypted payload nonce")
        (decodeExact backend 12 payload.nonceB64)
    let ciphertext ←
      context (lit "invalid encrypted payload ciphertext")
        (backend.decodeBase64 payload.ciphertextB64)
    let key := deriveKey backend passphrase salt
    let plaintext ←
      context (lit "failed to decrypt payload")
        (backend.decrypt key nonce aad ciphertext)
    context (lit "failed to deserialize encrypted payload") (read plaintext)

/-- A failure with another message in front of it. -/
def withContext {α : Type} (message : Text → Text) :
    Except Text α → Except Text α
  | .error inner => .error (message inner)
  | .ok value => .ok value

def encryptSessionForStorage (session : RedactionSession)
    (passphrase externalId : Text) (salt : ByteVector 16)
    (nonce : ByteVector 12) : Except Text Text :=
  sealJson backend backend.writeSession session passphrase
    (asBytes (storageAad externalId)) salt nonce

def decryptSessionFromStorage (data passphrase externalId : Text) :
    Except Text RedactionSession :=
  withContext (fun _ => lit "failed to decrypt stored session")
    (openJson backend backend.readSession data passphrase
      (asBytes (storageAad externalId)))

def encryptRestorePermit (permit : RestorePermit) (passphrase : Text)
    (salt : ByteVector 16) (nonce : ByteVector 12) : Except Text Text :=
  sealJson backend backend.writePermit permit passphrase (asBytes permitAad)
    salt nonce

def decryptRestorePermit (data passphrase : Text) :
    Except Text RestorePermit := do
  let permit ←
    withContext (fun inner => lit "failed to decrypt restore permit: " ++ inner)
      (openJson backend backend.readPermit data passphrase
        (asBytes permitAad))
  if permit.version ≠ permitVersion then
    .error
      (lit "unsupported restore permit version " ++ numeral permit.version)
  else
    .ok permit

/-- The file of a session: its summary beside the ciphertext. -/
def EncryptedSessionFile.of (session : RedactionSession)
    (salt : ByteVector 16) (nonce : ByteVector 12)
    (ciphertext : ByteArray) : EncryptedSessionFile where
  version := encryptedSessionVersion
  sessionId := session.sessionId
  scopeId := session.scopeId
  externalId := session.externalId
  fingerprint := session.fingerprint
  redactedFingerprint := session.redactedFingerprint
  entryCount := session.entries.length
  entries := session.entries.map .ofEntry
  saltB64 := backend.encodeBase64 salt.val
  nonceB64 := backend.encodeBase64 nonce.val
  ciphertextB64 := backend.encodeBase64 ciphertext

/-- No data is associated with the ciphertext of a session file. -/
def encryptSessionToString (session : RedactionSession) (passphrase : Text)
    (salt : ByteVector 16) (nonce : ByteVector 12) : Except Text Text := do
  let key := deriveKey backend passphrase salt
  let ciphertext ←
    context (lit "failed to encrypt session")
      (backend.encrypt key nonce .empty (backend.writeSession session))
  .ok
    (backend.writeFile
      (EncryptedSessionFile.of backend session salt nonce ciphertext))

def decryptSessionFromStr (data passphrase : Text) :
    Except Text RedactionSession := do
  let envelope ←
    context (lit "failed to parse encrypted session file")
      (backend.readFile data)
  if envelope.version ≠ encryptedSessionVersion then
    .error
      (lit "unsupported encrypted session version " ++
        numeral envelope.version ++ lit ", expected " ++
        numeral encryptedSessionVersion)
  else
    let salt ←
      context (lit "invalid encrypted session salt")
        (decodeExact backend 16 envelope.saltB64)
    let nonce ←
      context (lit "invalid encrypted session nonce")
        (decodeExact backend 12 envelope.nonceB64)
    let ciphertext ←
      context (lit "invalid encrypted session ciphertext")
        (backend.decodeBase64 envelope.ciphertextB64)
    let key := deriveKey backend passphrase salt
    let plaintext ←
      context (lit "failed to decrypt session")
        (backend.decrypt key nonce .empty ciphertext)
    context (lit "failed to deserialize decrypted session")
      (backend.readSession plaintext)

def inspectEncryptedSession (data passphrase : Text) :
    Except Text SessionSummary := do
  let session ← decryptSessionFromStr backend data passphrase
  .ok (.ofSession session)

end Operations

end Redactor
