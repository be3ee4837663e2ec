import Redactor.Library.Lines
import Redactor.Replace.History

/-!
# The session store

The store keeps one envelope for an external identifier: the latest session,
sealed, with its version.  A save names the version it has seen, and a script
that runs without interruption refuses it when another version is stored.
-/

namespace Redactor

open Utf8 Fallible

structure StoredSession where
  session : RedactionSession
  version : Text
  deriving DecidableEq, Repr

inductive SessionStoreError where
  | conflict
  | unavailable
  | corruptData
  | crypto
  deriving DecidableEq, Repr

/-- The external identifier of a stateful operation; the error is the
message. -/
def requireExternalId (externalId : Option Text) : Except Text Text :=
  match externalId.filter fun value => !(trim value).isEmpty with
  | none =>
      .error
        (lit "external_id is required for stateful session operations")
  | some value =>
      if 256 < byteLen value then
        .error (lit "external_id must not exceed 256 UTF-8 bytes")
      else
        .ok value

structure SessionEnvelope (σ : Type) where
  version : Nat
  encryptedSession : σ

/-- From here on the script host writes a number with an exponent. -/
def numberTextLimit : Nat := 0x5af3107a4000

/-- The cipher and the script host.  `draw` picks the random salt and nonce of
a sealing, and what was sealed can be opened again.  Numbers with up to
fourteen digits are written in full. -/
structure StoreBackend (σ : Type) where
  encrypt : Nat → RedactionSession → σ
  decrypt : σ → Option RedactionSession
  decrypt_encrypt :
    ∀ draw session, decrypt (encrypt draw session) = some session
  numberText : Nat → Text
  numberText_of_lt :
    ∀ version < numberTextLimit, numberText version = numeral version

section Operations

variable {σ : Type} (runtime : Runtime) (backend : StoreBackend σ)

def loadLatest (stored : Option (SessionEnvelope σ)) :
    Except SessionStoreError (Option StoredSession) :=
  match stored with
  | none => .ok none
  | some envelope =>
      match backend.decrypt envelope.encryptedSession with
      | none => .error .crypto
      | some session =>
          .ok (some { session, version := numeral envelope.version })

/-- The script; it returns what is stored after it.  The time to live that a
stored session is given ends in a step of its own. -/
def saveScript (current : Option (SessionEnvelope σ))
    (payload : SessionEnvelope σ) (expected : Text) :
    Except SessionStoreError (SessionEnvelope σ) :=
  match current with
  | none =>
      if expected ≠ [] then .error .conflict else .ok payload
  | some decoded =>
      if backend.numberText decoded.version ≠ expected then
        .error .conflict
      else
        .ok payload

/-- The version that a save writes; there is no result when the addition
aborts. -/
def nextVersion (expectedVersion : Option Text) :
    Option (Except SessionStoreError Nat) :=
  match expectedVersion with
  | none => some (.ok 1)
  | some value =>
      match parseUnsigned unsignedMax value with
      | none => some (.error .corruptData)
      | some version => (increment runtime version).map .ok

/-- A save, with what is stored after it and the version it returns. -/
def saveLatest (current : Option (SessionEnvelope σ)) (draw : Nat)
    (session : RedactionSession) (expectedVersion : Option Text) :
    Option (Except SessionStoreError (SessionEnvelope σ × Text)) := do
  let next ← nextVersion runtime expectedVersion
  some do
    let version ← next
    let stored ←
      saveScript backend current
        { version, encryptedSession := backend.encrypt draw session }
        (expectedVersion.getD [])
    .ok (stored, numeral version)

end Operations

theorem numeral_injective {left right : Nat}
    (same : numeral left = numeral right) :
    left = right := by
  have readLeft :
      parseUnsigned (left + right) (numeral left) = some left :=
    parseUnsigned_numeral (Nat.le_add_right left right)
  have readRight :
      parseUnsigned (left + right) (numeral right) = some right :=
    parseUnsigned_numeral (Nat.le_add_left right left)
  rw [same, readRight] at readLeft
  exact (Option.some.inj readLeft).symm

section Specification

variable {σ : Type} {runtime : Runtime} {backend : StoreBackend σ}

/-- A script that succeeds over a stored version was given its numeral. -/
theorem version_eq_of_saveScript {decoded payload stored : SessionEnvelope σ}
    {version : Nat}
    (saved :
      saveScript backend (some decoded) payload (numeral version) =
        .ok stored)
    (below : decoded.version < numberTextLimit) :
    decoded.version = version ∧ stored = payload := by
  unfold saveScript at saved
  simp only [ite_error_eq_ok, not_not] at saved
  obtain ⟨same, kept⟩ := saved
  rw [backend.numberText_of_lt _ below] at same
  exact ⟨numeral_injective same, (Except.ok.inj kept).symm⟩

/-- A save of a session that was computed from nothing. -/
theorem saveLatest_none_eq {current : Option (SessionEnvelope σ)}
    {draw : Nat} {session : RedactionSession} {stored : SessionEnvelope σ}
    {version : Text}
    (saved :
      saveLatest runtime backend current draw session none =
        some (.ok (stored, version)))
    (below :
      ∀ decoded, current = some decoded →
        decoded.version < numberTextLimit) :
    current = none ∧ version = numeral 1 ∧
      stored =
        { version := 1
          encryptedSession := backend.encrypt draw session } := by
  have ran := Option.some.inj saved
  obtain ⟨written, isNext, rest⟩ := bind_eq_ok.mp ran
  obtain ⟨kept, accepted, result⟩ := bind_eq_ok.mp rest
  cases isNext
  cases result
  cases current with
  | none =>
      cases accepted
      exact ⟨rfl, rfl, rfl⟩
  | some decoded =>
      simp only [saveScript, ite_error_eq_ok, not_not] at accepted
      have written := accepted.1
      rw [backend.numberText_of_lt _ (below decoded rfl)] at written
      have digits : numeral decoded.version ≠ [] := by
        simp [numeral, Nat.toDigits_ne_nil]
      exact absurd written digits

/-- A save of a session that was computed from a stored one. -/
theorem saveLatest_some_eq {current : Option (SessionEnvelope σ)}
    {draw : Nat} {session : RedactionSession} {stored : SessionEnvelope σ}
    {version : Text} {seen : Nat}
    (saved :
      saveLatest runtime backend current draw session
          (some (numeral seen)) =
        some (.ok (stored, version)))
    (below :
      ∀ decoded, current = some decoded →
        decoded.version < numberTextLimit) :
    (∃ decoded, current = some decoded ∧ decoded.version = seen) ∧
      version = numeral (seen + 1) ∧
      stored =
        { version := seen + 1
          encryptedSession := backend.encrypt draw session } := by
  obtain ⟨next, parsed, script⟩ := Option.bind_eq_some_iff.mp saved
  have ran := Option.some.inj script
  obtain ⟨written, isNext, rest⟩ := bind_eq_ok.mp ran
  obtain ⟨kept, accepted, result⟩ := bind_eq_ok.mp rest
  cases isNext
  cases result
  cases current with
  | none =>
      simp only [saveScript, ite_error_eq_ok, not_not] at accepted
      have digits : numeral seen ≠ [] := by
        simp [numeral, Nat.toDigits_ne_nil]
      exact absurd accepted.1 digits
  | some decoded =>
      obtain ⟨same, shape⟩ :=
        version_eq_of_saveScript accepted (below decoded rfl)
      have small : seen < numberTextLimit := same ▸ below decoded rfl
      have fits : seen < unsignedMax :=
        Nat.lt_trans small (by decide)
      have read : parseUnsigned unsignedMax (numeral seen) = some seen :=
        parseUnsigned_numeral (Nat.le_of_lt fits)
      simp only [nextVersion, read, increment_of_lt fits,
        Option.map_some] at parsed
      cases parsed
      exact ⟨⟨decoded, rfl, same⟩, rfl, shape⟩

end Specification

end Redactor
