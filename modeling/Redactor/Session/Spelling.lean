import Redactor.Session.Validation

/-!
# The spellings of a token

A token is written with its counter padded to three digits.  It is read with
any spelling of the counter that the number parser takes: with a plus sign,
with fewer digits, or with more leading zeros than the padding has.  The
checksum does not tell the spellings apart, because it is computed from the
number that was read.
-/

namespace Redactor

open Utf8 Fallible

section Spelling

variable {runtime : Runtime} {candidate : Text} {parsed : ParsedToken}

/-- A token whose counter is spelled by the given text. -/
def spelledToken (runtime : Runtime) (parsed : ParsedToken)
    (counterRaw : Text) : Text :=
  tokenPrefix ++
    ([':'].intercalate
        [parsed.scopeId, parsed.kind.tokenLabel, counterRaw,
          tokenCheck runtime parsed.scopeId parsed.kind parsed.counter] ++
      tokenSuffix)

/-- The text is what is written for a scope, a kind and a counter that a token
may have. -/
def IsFormatted (runtime : Runtime) (candidate : Text)
    (parsed : ParsedToken) : Prop :=
  IsScope parsed.scopeId ∧ parsed.counter ≤ unsignedMax ∧
    candidate =
      formatToken runtime parsed.scopeId parsed.kind parsed.counter

/-- The text is a token up to its counter, which carries a plus sign, has
fewer than three digits, or has more than three and a leading zero. -/
def HasLooseCounter (runtime : Runtime) (candidate : Text) : Prop :=
  ∃ parsed counterRaw, IsScope parsed.scopeId ∧
    parseUnsigned unsignedMax counterRaw = some parsed.counter ∧
    candidate = spelledToken runtime parsed counterRaw ∧
    ¬ IsPadded 3 counterRaw

theorem formatToken_eq_spelledToken :
    formatToken runtime parsed.scopeId parsed.kind parsed.counter =
      spelledToken runtime parsed (paddedNumeral 3 parsed.counter) :=
  formatToken_shape

theorem fields_spelledToken {counterRaw : Text}
    (scope : IsScope parsed.scopeId)
    (read : parseUnsigned unsignedMax counterRaw = some parsed.counter) :
    ([':'].intercalate
        [parsed.scopeId, parsed.kind.tokenLabel, counterRaw,
          tokenCheck runtime parsed.scopeId parsed.kind
            parsed.counter]).splitOn ':' =
      [parsed.scopeId, parsed.kind.tokenLabel, counterRaw,
        tokenCheck runtime parsed.scopeId parsed.kind parsed.counter] := by
  apply List.splitOn_intercalate
  · intro field member colon
    rcases List.mem_cons.mp member with rfl | member
    · exact scope.2 colon
    · rcases List.mem_cons.mp member with rfl | member
      · have upper := parsed.kind.tokenLabel_isUpper ':' colon
        exact absurd upper (by decide)
      · rcases List.mem_cons.mp member with rfl | member
        · rcases isDigit_of_parseUnsigned read colon with plus | digit
          · exact absurd plus (by decide)
          · exact absurd digit (by decide)
        · rw [List.mem_singleton] at member
          rw [member] at colon
          exact absurd (tokenCheck_isHex colon) (by decide)
  · simp

theorem ne_nil_of_parseUnsigned {limit value : Nat} {text : Text}
    (read : parseUnsigned limit text = some value) : text ≠ [] := by
  rintro rfl
  cases read

/-- Reading takes exactly the spellings of tokens with a proper scope. -/
theorem parseToken_eq_ok_iff_spelled :
    parseToken runtime candidate = .ok parsed ↔
      IsScope parsed.scopeId ∧
        ∃ counterRaw,
          parseUnsigned unsignedMax counterRaw = some parsed.counter ∧
            candidate = spelledToken runtime parsed counterRaw := by
  constructor
  · intro read
    obtain ⟨scope, _, _⟩ := of_parseToken_eq_ok read
    obtain ⟨kindLabel, counterRaw, split, kindRead, counterRead⟩ :=
      parseToken_eq_ok.mp read
    obtain ⟨inner, shape, fields, _⟩ := splitToken_eq_ok.mp split
    have joined : [':'].intercalate (inner.splitOn ':') = inner :=
      List.intercalate_splitOn ':'
    refine ⟨scope, counterRaw, counterRead, ?_⟩
    rw [shape, spelledToken, ← joined, fields,
      FindingKind.eq_tokenLabel_of_fromTokenLabel kindRead]
  · rintro ⟨scope, counterRaw, counterRead, rfl⟩
    apply parseToken_eq_ok.mpr
    refine ⟨parsed.kind.tokenLabel, counterRaw, ?_,
      FindingKind.fromTokenLabel_tokenLabel parsed.kind, counterRead⟩
    apply splitToken_eq_ok.mpr
    exact ⟨_, rfl, fields_spelledToken scope counterRead, scope.1,
      parsed.kind.tokenLabel_ne_nil, ne_nil_of_parseUnsigned counterRead,
      tokenCheck_ne_nil⟩

/-- A token is spelled in one way by one text. -/
theorem counterRaw_unique {first second : Text}
    (scope : IsScope parsed.scopeId)
    (firstRead : parseUnsigned unsignedMax first = some parsed.counter)
    (secondRead : parseUnsigned unsignedMax second = some parsed.counter)
    (same :
      spelledToken runtime parsed first =
        spelledToken runtime parsed second) :
    first = second := by
  rw [spelledToken, spelledToken, List.append_cancel_left_eq,
    List.append_cancel_right_eq] at same
  have fields := @fields_spelledToken runtime _ _ scope firstRead
  rw [same, fields_spelledToken scope secondRead] at fields
  simpa using fields.symm

theorem isFormatted_iff :
    IsFormatted runtime candidate parsed ↔
      IsScope parsed.scopeId ∧
        ∃ counterRaw,
          parseUnsigned unsignedMax counterRaw = some parsed.counter ∧
            candidate = spelledToken runtime parsed counterRaw ∧
            IsPadded 3 counterRaw := by
  constructor
  · rintro ⟨scope, fits, rfl⟩
    exact ⟨scope, paddedNumeral 3 parsed.counter,
      parseUnsigned_paddedNumeral fits, formatToken_eq_spelledToken,
      isPadded_paddedNumeral (by decide)⟩
  · rintro ⟨scope, counterRaw, read, rfl, padded⟩
    refine ⟨scope, le_of_parseUnsigned read, ?_⟩
    rw [formatToken_eq_spelledToken,
      (eq_paddedNumeral_iff (by decide) read).mpr padded]

/-- Reading takes exactly what is written if and only if the counter of the
text is not spelled loosely. -/
theorem parses_formatted_iff (runtime : Runtime) (candidate : Text) :
    (∀ parsed, parseToken runtime candidate = .ok parsed ↔
        IsFormatted runtime candidate parsed) ↔
      ¬ HasLooseCounter runtime candidate := by
  constructor
  · rintro exactly ⟨parsed, counterRaw, scope, read, rfl, loose⟩
    have parses :
        parseToken runtime (spelledToken runtime parsed counterRaw) =
          .ok parsed :=
      parseToken_eq_ok_iff_spelled.mpr ⟨scope, counterRaw, read, rfl⟩
    have formatted := (exactly parsed).mp parses
    obtain ⟨_, other, otherRead, same, padded⟩ := isFormatted_iff.mp formatted
    apply loose
    rw [counterRaw_unique scope read otherRead same]
    exact padded
  · intro strict parsed
    rw [parseToken_eq_ok_iff_spelled, isFormatted_iff]
    constructor
    · rintro ⟨scope, counterRaw, read, shape⟩
      refine ⟨scope, counterRaw, read, shape, ?_⟩
      by_contra loose
      exact strict ⟨parsed, counterRaw, scope, read, shape, loose⟩
    · rintro ⟨scope, counterRaw, read, shape, _⟩
      exact ⟨scope, counterRaw, read, shape⟩

end Spelling

/-- The first address token of the scope `ab`, without its padding. -/
def sampleSpelling : Text := lit "[[RDX:v2:ab:EMAIL:1:5393acba]]"

/-- A session that gives the first address token two originals, one for each
of two spellings. -/
def sampleRespelled : RedactionSession where
  version := sessionVersion
  sessionId := lit "s1"
  scopeId := lit "ab"
  externalId := none
  fingerprint := []
  redactedFingerprint := []
  redactedText := []
  policy := {}
  entries :=
    [⟨sampleToken 1, .email, lit "a@a.fr", none, 1⟩,
      ⟨sampleSpelling, .email, lit "b@b.fr", none, 1⟩]
  issuedTokens := [sampleToken 1]

/-- A spelling that is not written is read, and the check for duplicates does
not see that it is a known token. -/
theorem loose_spelling_is_read :
    (¬ ∀ parsed, parseToken sampleRuntime sampleSpelling = .ok parsed ↔
        IsFormatted sampleRuntime sampleSpelling parsed) ∧
      parseToken sampleRuntime sampleSpelling =
        parseToken sampleRuntime (sampleToken 1) ∧
      validateSession sampleRuntime sampleRespelled = .ok () := by
  have parses :
      parseToken sampleRuntime sampleSpelling =
        .ok ⟨lit "ab", .email, 1⟩ := by
    decide +kernel
  refine ⟨?_, by decide +kernel, by decide +kernel⟩
  intro exactly
  obtain ⟨_, _, written⟩ := (exactly _).mp parses
  exact absurd written (by decide +kernel)

end Redactor
