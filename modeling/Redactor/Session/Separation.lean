import Redactor.Session.Crypto
import Mathlib

/-!
# The formats are kept apart

The cipher authenticates the key, the nonce and the associated data.  The
associated data tells the formats apart, and stored sessions by their
identifier, so that whatever is opened was sealed in the same format.  The
fields in the clear are not authenticated, and none of them is returned.
-/

namespace Redactor

open Utf8 Fallible

inductive SealedValue where
  | session (session : RedactionSession)
  | stored (session : RedactionSession) (externalId : Text)
  | permit (permit : RestorePermit)

/-- One call of an operation that encrypts, with what it draws at random. -/
structure SealingCall where
  value : SealedValue
  passphrase : Text
  salt : ByteVector 16
  nonce : ByteVector 12

def SealedValue.associated : SealedValue → ByteArray
  | .session _ => .empty
  | .stored _ externalId => asBytes (storageAad externalId)
  | .permit _ => asBytes permitAad

section Calls

variable (backend : CryptoBackend)

def SealedValue.plaintext : SealedValue → ByteArray
  | .session original => backend.writeSession original
  | .stored original _ => backend.writeSession original
  | .permit original => backend.writePermit original

namespace SealingCall

def key (call : SealingCall) : ByteVector 32 :=
  deriveKey backend call.passphrase call.salt

/-- What the call returns. -/
def run (call : SealingCall) : Except Text Text :=
  match call.value with
  | .session session =>
      encryptSessionToString backend session call.passphrase call.salt
        call.nonce
  | .stored session externalId =>
      encryptSessionForStorage backend session call.passphrase externalId
        call.salt call.nonce
  | .permit permit =>
      encryptRestorePermit backend permit call.passphrase call.salt call.nonce

end SealingCall

/-- An ideal cipher: it opens what was sealed under the same key, nonce and
associated data, and nothing else. -/
structure CryptoBackend.Ideal (calls : Set SealingCall) : Prop where
  authentic :
    ∀ key nonce aad ciphertext plaintext,
      backend.decrypt key nonce aad ciphertext = some plaintext →
      ∃ call ∈ calls,
        call.key backend = key ∧ call.nonce = nonce ∧
          call.value.associated = aad ∧
          call.value.plaintext backend = plaintext
  opens :
    ∀ call ∈ calls, ∀ ciphertext,
      backend.encrypt (call.key backend) call.nonce call.value.associated
          (call.value.plaintext backend) = some ciphertext →
      backend.decrypt (call.key backend) call.nonce call.value.associated
          ciphertext = some (call.value.plaintext backend)

/-- No other passphrase has the key of a call. -/
def CryptoBackend.KeysApart (calls : Set SealingCall) : Prop :=
  ∀ call ∈ calls, ∀ passphrase salt,
    deriveKey backend passphrase salt = call.key backend →
    passphrase = call.passphrase

/-- What is written is read back. -/
structure CryptoBackend.Lossless : Prop where
  base64 :
    ∀ bytes, backend.decodeBase64 (backend.encodeBase64 bytes) = some bytes
  session :
    ∀ session, backend.readSession (backend.writeSession session) =
      some session
  permit :
    ∀ permit, backend.readPermit (backend.writePermit permit) = some permit
  payload :
    ∀ payload, backend.readPayload (backend.writePayload payload) =
      some payload
  file : ∀ file, backend.readFile (backend.writeFile file) = some file

end Calls

theorem asBytes_injective {left right : Text}
    (same : asBytes left = asBytes right) : left = right :=
  String.ofList_injective (String.toByteArray_inj.mp same)

theorem storageAad_injective {left right : Text}
    (same : asBytes (storageAad left) = asBytes (storageAad right)) :
    left = right :=
  List.append_cancel_left (asBytes_injective same)

theorem storageAad_ne_permitAad (externalId : Text) :
    asBytes (storageAad externalId) ≠ asBytes permitAad := by
  intro same
  have texts := asBytes_injective same
  simp [storageAad, permitAad, lit] at texts

theorem asBytes_ne_empty {text : Text} (nonempty : text ≠ []) :
    asBytes text ≠ .empty := by
  intro empty
  exact nonempty (asBytes_injective (empty.trans rfl))

theorem storageAad_ne_nil (externalId : Text) :
    storageAad externalId ≠ [] := by
  simp [storageAad, lit]

theorem permitAad_ne_nil : permitAad ≠ [] := by
  simp [permitAad, lit]

/-- The associated data of a session file, of a stored session and of a permit
tell what was sealed. -/
theorem associated_eq_empty {value : SealedValue}
    (same : value.associated = .empty) :
    ∃ session, value = .session session := by
  cases value with
  | session session =>
      exact ⟨session, rfl⟩
  | stored session externalId =>
      exact absurd same (asBytes_ne_empty (storageAad_ne_nil externalId))
  | permit permit =>
      exact absurd same (asBytes_ne_empty permitAad_ne_nil)

theorem associated_eq_storageAad {value : SealedValue} {externalId : Text}
    (same : value.associated = asBytes (storageAad externalId)) :
    ∃ session, value = .stored session externalId := by
  cases value with
  | session session =>
      exact absurd same.symm (asBytes_ne_empty (storageAad_ne_nil externalId))
  | stored session other =>
      rw [storageAad_injective same]
      exact ⟨session, rfl⟩
  | permit permit =>
      exact absurd same.symm (storageAad_ne_permitAad externalId)

theorem associated_eq_permitAad {value : SealedValue}
    (same : value.associated = asBytes permitAad) :
    ∃ permit, value = .permit permit := by
  cases value with
  | session session =>
      exact absurd same.symm (asBytes_ne_empty permitAad_ne_nil)
  | stored session externalId =>
      exact absurd same (storageAad_ne_permitAad externalId)
  | permit permit =>
      exact ⟨permit, rfl⟩

section Opening

variable {backend : CryptoBackend} {calls : Set SealingCall}

theorem context_eq_ok {α : Type} {message : Text} {result : Option α}
    {value : α} :
    context message result = .ok value ↔ result = some value := by
  cases result <;> simp [context]

theorem withContext_eq_ok {α : Type} {message : Text → Text}
    {result : Except Text α} {value : α} :
    withContext message result = .ok value ↔ result = .ok value := by
  cases result <;> simp [withContext]

theorem decodeExact_encode (lossless : backend.Lossless) {size : Nat}
    (bytes : ByteVector size) :
    decodeExact backend size (backend.encodeBase64 bytes.val) =
      some bytes := by
  unfold decodeExact
  rw [lossless.base64]
  simp only [Option.bind_eq_bind, Option.bind_some, bytes.property, dif_pos]

/-- What is opened has been sealed: under the same passphrase, with the same
associated data, from the same bytes. -/
theorem exists_call_of_decrypt (ideal : backend.Ideal calls)
    (apart : backend.KeysApart calls) {passphrase : Text}
    {salt : ByteVector 16} {nonce : ByteVector 12}
    {aad ciphertext plaintext : ByteArray}
    (opened :
      backend.decrypt (deriveKey backend passphrase salt) nonce aad
          ciphertext = some plaintext) :
    ∃ call ∈ calls,
      call.passphrase = passphrase ∧ call.value.associated = aad ∧
        call.value.plaintext backend = plaintext := by
  obtain ⟨call, made, sameKey, _, sameData, samePlain⟩ :=
    ideal.authentic _ _ _ _ _ opened
  have samePassphrase := apart call made passphrase salt sameKey.symm
  exact ⟨call, made, samePassphrase.symm, sameData, samePlain⟩

theorem openJson_eq_ok {α : Type} {read : ByteArray → Option α}
    {data passphrase : Text} {aad : ByteArray} {value : α}
    (opened : openJson backend read data passphrase aad = .ok value) :
    ∃ salt nonce ciphertext plaintext,
      backend.decrypt (deriveKey backend passphrase salt) nonce aad
          ciphertext = some plaintext ∧
        read plaintext = some value := by
  obtain ⟨payload, _, rest⟩ := bind_eq_ok.mp opened
  obtain ⟨_, rest⟩ := ite_error_eq_ok.mp rest
  obtain ⟨salt, _, rest⟩ := bind_eq_ok.mp rest
  obtain ⟨nonce, _, rest⟩ := bind_eq_ok.mp rest
  obtain ⟨ciphertext, _, rest⟩ := bind_eq_ok.mp rest
  obtain ⟨plaintext, decrypted, last⟩ := bind_eq_ok.mp rest
  exact ⟨salt, nonce, ciphertext, plaintext, context_eq_ok.mp decrypted,
    context_eq_ok.mp last⟩

theorem decryptSessionFromStr_eq_ok {data passphrase : Text}
    {session : RedactionSession}
    (opened :
      decryptSessionFromStr backend data passphrase = .ok session) :
    ∃ salt nonce ciphertext plaintext,
      backend.decrypt (deriveKey backend passphrase salt) nonce .empty
          ciphertext = some plaintext ∧
        backend.readSession plaintext = some session := by
  obtain ⟨envelope, _, rest⟩ := bind_eq_ok.mp opened
  obtain ⟨_, rest⟩ := ite_error_eq_ok.mp rest
  obtain ⟨salt, _, rest⟩ := bind_eq_ok.mp rest
  obtain ⟨nonce, _, rest⟩ := bind_eq_ok.mp rest
  obtain ⟨ciphertext, _, rest⟩ := bind_eq_ok.mp rest
  obtain ⟨plaintext, decrypted, last⟩ := bind_eq_ok.mp rest
  exact ⟨salt, nonce, ciphertext, plaintext, context_eq_ok.mp decrypted,
    context_eq_ok.mp last⟩

theorem sealed_of_decryptSessionFromStr (lossless : backend.Lossless)
    (apart : backend.KeysApart calls) (ideal : backend.Ideal calls)
    {data passphrase : Text} {session : RedactionSession}
    (opened :
      decryptSessionFromStr backend data passphrase = .ok session) :
    ∃ call ∈ calls,
      call.passphrase = passphrase ∧ call.value = .session session := by
  obtain ⟨salt, nonce, ciphertext, plaintext, decrypted, read⟩ :=
    decryptSessionFromStr_eq_ok opened
  obtain ⟨call, made, samePassphrase, associated, written⟩ :=
    exists_call_of_decrypt ideal apart decrypted
  obtain ⟨original, isSession⟩ := associated_eq_empty associated
  rw [isSession] at written
  rw [← written, SealedValue.plaintext, lossless.session] at read
  cases read
  exact ⟨call, made, samePassphrase, isSession⟩

theorem sealed_of_decryptSessionFromStorage (lossless : backend.Lossless)
    (apart : backend.KeysApart calls) (ideal : backend.Ideal calls)
    {data passphrase externalId : Text} {session : RedactionSession}
    (opened :
      decryptSessionFromStorage backend data passphrase externalId =
        .ok session) :
    ∃ call ∈ calls,
      call.passphrase = passphrase ∧
        call.value = .stored session externalId := by
  obtain ⟨salt, nonce, ciphertext, plaintext, decrypted, read⟩ :=
    openJson_eq_ok (withContext_eq_ok.mp opened)
  obtain ⟨call, made, samePassphrase, associated, written⟩ :=
    exists_call_of_decrypt ideal apart decrypted
  obtain ⟨original, isStored⟩ := associated_eq_storageAad associated
  rw [isStored] at written
  rw [← written, SealedValue.plaintext, lossless.session] at read
  cases read
  exact ⟨call, made, samePassphrase, isStored⟩

theorem sealed_of_decryptRestorePermit (lossless : backend.Lossless)
    (apart : backend.KeysApart calls) (ideal : backend.Ideal calls)
    {data passphrase : Text} {permit : RestorePermit}
    (opened : decryptRestorePermit backend data passphrase = .ok permit) :
    ∃ call ∈ calls,
      call.passphrase = passphrase ∧ call.value = .permit permit := by
  obtain ⟨found, unsealed, checked⟩ := bind_eq_ok.mp opened
  obtain ⟨_, same⟩ := ite_error_eq_ok.mp checked
  cases same
  obtain ⟨salt, nonce, ciphertext, plaintext, decrypted, read⟩ :=
    openJson_eq_ok (withContext_eq_ok.mp unsealed)
  obtain ⟨call, made, samePassphrase, associated, written⟩ :=
    exists_call_of_decrypt ideal apart decrypted
  obtain ⟨original, isPermit⟩ := associated_eq_permitAad associated
  rw [isPermit] at written
  rw [← written, SealedValue.plaintext, lossless.permit] at read
  cases read
  exact ⟨call, made, samePassphrase, isPermit⟩

/-! ## Opening what was sealed -/

theorem openJson_sealJson (lossless : backend.Lossless) {α : Type}
    {write : α → ByteArray} {read : ByteArray → Option α} {value : α}
    (readBack : read (write value) = some value) {passphrase : Text}
    {aad : ByteArray} {salt : ByteVector 16} {nonce : ByteVector 12}
    {data : Text}
    (sealed :
      sealJson backend write value passphrase aad salt nonce = .ok data)
    (opens :
      ∀ ciphertext,
        backend.encrypt (deriveKey backend passphrase salt) nonce aad
            (write value) = some ciphertext →
        backend.decrypt (deriveKey backend passphrase salt) nonce aad
            ciphertext = some (write value)) :
    openJson backend read data passphrase aad = .ok value := by
  obtain ⟨ciphertext, encrypted, last⟩ := bind_eq_ok.mp sealed
  cases last
  have decrypted := opens ciphertext (context_eq_ok.mp encrypted)
  simp only [openJson, lossless.payload, context, ok_bind, ne_eq,
    not_true_eq_false, if_false, decodeExact_encode lossless,
    lossless.base64, decrypted, readBack]

theorem decryptSessionFromStr_encrypt (lossless : backend.Lossless)
    {session : RedactionSession} {passphrase : Text} {salt : ByteVector 16}
    {nonce : ByteVector 12} {data : Text}
    (sealed :
      encryptSessionToString backend session passphrase salt nonce =
        .ok data)
    (opens :
      ∀ ciphertext,
        backend.encrypt (deriveKey backend passphrase salt) nonce .empty
            (backend.writeSession session) = some ciphertext →
        backend.decrypt (deriveKey backend passphrase salt) nonce .empty
            ciphertext = some (backend.writeSession session)) :
    decryptSessionFromStr backend data passphrase = .ok session := by
  obtain ⟨ciphertext, encrypted, last⟩ := bind_eq_ok.mp sealed
  cases last
  have decrypted := opens ciphertext (context_eq_ok.mp encrypted)
  simp only [decryptSessionFromStr, lossless.file, EncryptedSessionFile.of,
    context, ok_bind, ne_eq, not_true_eq_false, if_false,
    decodeExact_encode lossless, lossless.base64, decrypted,
    lossless.session]

/-- Opening the output of a call, with the operation of its format. -/
def SealingCall.reopens (backend : CryptoBackend) (call : SealingCall)
    (data : Text) : Prop :=
  match call.value with
  | .session session =>
      decryptSessionFromStr backend data call.passphrase = .ok session
  | .stored session externalId =>
      decryptSessionFromStorage backend data call.passphrase externalId =
        .ok session
  | .permit permit =>
      decryptRestorePermit backend data call.passphrase = .ok permit

/-- The value is one that its format opens: a permit is of the version in
use. -/
def SealedValue.Supported : SealedValue → Prop
  | .permit original => original.version = permitVersion
  | _ => True

theorem reopens_iff (lossless : backend.Lossless)
    (ideal : backend.Ideal calls) {call : SealingCall} (made : call ∈ calls)
    {data : Text} (sealed : call.run backend = .ok data) :
    call.reopens backend data ↔ call.value.Supported := by
  obtain ⟨value, passphrase, salt, nonce⟩ := call
  have opens := ideal.opens _ made
  cases value with
  | session session =>
      exact iff_of_true (decryptSessionFromStr_encrypt lossless sealed opens)
        trivial
  | stored session externalId =>
      have opened :=
        openJson_sealJson lossless (lossless.session session) sealed opens
      exact iff_of_true (withContext_eq_ok.mpr opened) trivial
  | permit permit =>
      have opened :=
        openJson_sealJson lossless (lossless.permit permit) sealed opens
      have unsealed :
          withContext
              (fun inner =>
                lit "failed to decrypt restore permit: " ++ inner)
              (openJson backend backend.readPermit data passphrase
                (asBytes permitAad)) = .ok permit :=
        withContext_eq_ok.mpr opened
      unfold SealingCall.reopens SealedValue.Supported decryptRestorePermit
      simp only [unsealed, ok_bind, ite_error_eq_ok, not_not, and_true]

end Opening

/-- Whatever is opened, from any text at all, was sealed in the same format,
under the same passphrase and for the same identifier; and the output of every
call is opened again, except that of a permit of another version. -/
theorem opened_values_were_sealed (backend : CryptoBackend)
    (calls : Set SealingCall) (lossless : backend.Lossless)
    (apart : backend.KeysApart calls) (ideal : backend.Ideal calls) :
    (∀ data passphrase session,
      decryptSessionFromStr backend data passphrase = .ok session →
      ∃ call ∈ calls,
        call.passphrase = passphrase ∧ call.value = .session session) ∧
    (∀ data passphrase externalId session,
      decryptSessionFromStorage backend data passphrase externalId =
        .ok session →
      ∃ call ∈ calls,
        call.passphrase = passphrase ∧
          call.value = .stored session externalId) ∧
    (∀ data passphrase permit,
      decryptRestorePermit backend data passphrase = .ok permit →
      ∃ call ∈ calls,
        call.passphrase = passphrase ∧ call.value = .permit permit) ∧
    ∀ call ∈ calls, ∀ data, call.run backend = .ok data →
      (call.reopens backend data ↔ call.value.Supported) := by
  refine ⟨?_, ?_, ?_, ?_⟩
  · intro data passphrase session opened
    exact sealed_of_decryptSessionFromStr lossless apart ideal opened
  · intro data passphrase externalId session opened
    exact sealed_of_decryptSessionFromStorage lossless apart ideal opened
  · intro data passphrase permit opened
    exact sealed_of_decryptRestorePermit lossless apart ideal opened
  · intro call made data sealed
    exact reopens_iff lossless ideal made sealed

/-- A summary is that of a session that was sealed; the fields in the clear
have no part in it. -/
theorem inspected_was_sealed {backend : CryptoBackend}
    {calls : Set SealingCall} (lossless : backend.Lossless)
    (apart : backend.KeysApart calls) (ideal : backend.Ideal calls)
    {data passphrase : Text} {summary : SessionSummary}
    (inspected :
      inspectEncryptedSession backend data passphrase = .ok summary) :
    ∃ call ∈ calls, ∃ session,
      call.passphrase = passphrase ∧ call.value = .session session ∧
        summary = .ofSession session := by
  obtain ⟨session, opened, last⟩ := bind_eq_ok.mp inspected
  cases last
  obtain ⟨call, made, samePassphrase, isSession⟩ :=
    sealed_of_decryptSessionFromStr lossless apart ideal opened
  exact ⟨call, made, session, samePassphrase, isSession, rfl⟩

instance encodableChar : Encodable Char :=
  Encodable.ofLeftInverse Char.toNat Char.ofNat Char.ofNat_toNat

instance encodableText : Encodable Text :=
  inferInstanceAs (Encodable (List Char))

deriving instance Encodable for FindingKind, CustomStringMatch,
  CustomStringScope, RedactionRules, CustomStringRule, CustomFileRule

deriving instance Encodable for RedactionPolicy, RestorationEntry

deriving instance Encodable for RedactionSession, RestorePermit,
  OpaqueEncryptedPayload, SessionEntrySummary

deriving instance Encodable for EncryptedSessionFile

section Coding

variable {α : Type} [Encodable α]

/-- As many bytes as the code of the value says. -/
def codedBytes (value : α) : ByteArray :=
  ⟨Array.replicate (Encodable.encode value) 0⟩

def decodedBytes (bytes : ByteArray) : Option α :=
  Encodable.decode bytes.size

def codedText (value : α) : Text :=
  List.replicate (Encodable.encode value) '0'

def decodedText (text : Text) : Option α :=
  Encodable.decode text.length

theorem decodedBytes_codedBytes (value : α) :
    decodedBytes (codedBytes value) = some value := by
  simp [decodedBytes, codedBytes, ByteArray.size]

theorem decodedText_codedText (value : α) :
    decodedText (codedText value) = some value := by
  simp [decodedText, codedText]

attribute [irreducible] codedBytes decodedBytes codedText decodedText

end Coding

def sampleVector (size : Nat) (byte : UInt8) : ByteVector size :=
  ⟨⟨Array.replicate size byte⟩, by simp [ByteArray.size]⟩

def samplePassphrase : Text := lit "correct horse"

/-- Only the sample passphrase has the key of ones. -/
def sampleKdf (passphrase : ByteArray) : ByteVector 32 :=
  if passphrase = asBytes samplePassphrase then sampleVector 32 1
  else sampleVector 32 0

def sampleSealedPermit (version : Nat) : RestorePermit where
  version := version
  permitId := lit "p1"
  scopeId := lit "ab"
  externalId := none
  issuedTokens := []

def samplePermitCall (version : Nat) : SealingCall where
  value := .permit (sampleSealedPermit version)
  passphrase := samplePassphrase
  salt := sampleVector 16 0
  nonce := sampleVector 12 0

/-- Only a permit of the version was sealed, under the sample passphrase. -/
def sampleCryptoBackend (version : Nat) : CryptoBackend where
  pbkdf2 passphrase _ _ := sampleKdf passphrase
  encrypt _ _ _ plaintext := some plaintext
  decrypt key nonce aad ciphertext :=
    if key = sampleVector 32 1 ∧ nonce = sampleVector 12 0 ∧
        aad = asBytes permitAad ∧
        ciphertext = codedBytes (sampleSealedPermit version) then
      some ciphertext
    else
      none
  encodeBase64 bytes :=
    bytes.data.toList.map fun byte => Char.ofNat byte.toNat
  decodeBase64 text :=
    some ⟨(text.map fun head => UInt8.ofNat head.toNat).toArray⟩
  writeSession := codedBytes
  readSession := decodedBytes
  writePermit := codedBytes
  readPermit := decodedBytes
  writePayload := codedText
  readPayload := decodedText
  writeFile := codedText
  readFile := decodedText

theorem sampleVector_zero_ne_one : sampleVector 32 0 ≠ sampleVector 32 1 := by
  decide

theorem key_samplePermitCall (version : Nat) :
    (samplePermitCall version).key (sampleCryptoBackend version) =
      sampleVector 32 1 := by
  change sampleKdf (asBytes samplePassphrase) = sampleVector 32 1
  rw [sampleKdf, if_pos rfl]

theorem bytes_of_characters (bytes : List UInt8) :
    (bytes.map fun byte => Char.ofNat byte.toNat).map
      (fun head => UInt8.ofNat head.toNat) = bytes := by
  rw [List.map_map]
  refine (List.map_congr_left ?_).trans (List.map_id bytes)
  intro byte _
  have valid : byte.toNat.isValidChar := by
    have small := byte.toNat_lt
    left
    omega
  have kept : (Char.ofNat byte.toNat).toNat = byte.toNat := by
    unfold Char.ofNat
    rw [dif_pos valid]
    rfl
  simp [kept]

theorem sampleCryptoBackend_lossless (version : Nat) :
    (sampleCryptoBackend version).Lossless := by
  constructor
  · intro bytes
    unfold sampleCryptoBackend
    simp only [bytes_of_characters]
  · intro session
    exact decodedBytes_codedBytes session
  · intro permit
    exact decodedBytes_codedBytes permit
  · intro payload
    exact decodedText_codedText payload
  · intro file
    exact decodedText_codedText file

theorem sampleCryptoBackend_keysApart (version : Nat) :
    (sampleCryptoBackend version).KeysApart {samplePermitCall version} := by
  intro call made passphrase salt sameKey
  rw [Set.mem_singleton_iff] at made
  rw [made, key_samplePermitCall] at sameKey
  change sampleKdf (asBytes passphrase) = _ at sameKey
  rw [made]
  by_cases isSample : asBytes passphrase = asBytes samplePassphrase
  · exact asBytes_injective isSample
  · rw [sampleKdf, if_neg isSample] at sameKey
    exact absurd sameKey sampleVector_zero_ne_one

theorem sampleCryptoBackend_ideal (version : Nat) :
    (sampleCryptoBackend version).Ideal {samplePermitCall version} where
  authentic key nonce aad ciphertext plaintext opened := by
    simp only [sampleCryptoBackend, Option.ite_none_right_eq_some,
      Option.some.injEq] at opened
    obtain ⟨⟨sameKey, sameNonce, sameData, isPermit⟩, same⟩ := opened
    refine ⟨samplePermitCall version, rfl, ?_, sameNonce.symm, sameData.symm,
      ?_⟩
    · rw [key_samplePermitCall, sameKey]
    · rw [← same, isPermit]
      rfl
  opens call made ciphertext encrypted := by
    rw [Set.mem_singleton_iff] at made
    cases made
    cases encrypted
    exact if_pos ⟨key_samplePermitCall version, rfl, rfl, rfl⟩

/-- The sealed permit of the version in use is opened again. -/
theorem opened_values_were_sealed_permit :
    ∃ data,
      (samplePermitCall 1).run (sampleCryptoBackend 1) = .ok data ∧
        (samplePermitCall 1).reopens (sampleCryptoBackend 1) data := by
  have separated :=
    opened_values_were_sealed (sampleCryptoBackend 1) {samplePermitCall 1}
      (sampleCryptoBackend_lossless 1) (sampleCryptoBackend_keysApart 1)
      (sampleCryptoBackend_ideal 1)
  refine ⟨_, rfl, ?_⟩
  exact (separated.2.2.2 _ rfl _ rfl).mpr rfl

/-- A sealed permit of another version is not opened again. -/
theorem sealed_permit_refused :
    ¬ ∀ (backend : CryptoBackend) (calls : Set SealingCall),
      backend.Lossless → backend.KeysApart calls → backend.Ideal calls →
      ∀ call ∈ calls, ∀ data, call.run backend = .ok data →
        call.reopens backend data := by
  intro always
  have reopened :=
    always (sampleCryptoBackend 2) {samplePermitCall 2}
      (sampleCryptoBackend_lossless 2) (sampleCryptoBackend_keysApart 2)
      (sampleCryptoBackend_ideal 2) _ rfl _ rfl
  have supported :=
    (reopens_iff (sampleCryptoBackend_lossless 2)
      (sampleCryptoBackend_ideal 2) (Set.mem_singleton _) rfl).mp reopened
  exact absurd (show (2 : Nat) = permitVersion from supported) (by decide)

end Redactor
