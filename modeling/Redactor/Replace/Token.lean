import Redactor.Replace.Hints
import Redactor.Library.Fallible

/-!
# Structured tokens

A token is the marker `[[RDX:v2:`, four fields separated by colons and the
closing brackets.  `parseToken` splits the fields again and recomputes the
checksum; `scanTokenLikeRanges` finds the stretches of a text that look like
tokens, whether or not they parse.
-/

namespace Redactor

open Utf8 Fallible

def tokenPrefix : Text := lit "[[RDX:v2:"

def tokenSuffix : Text := lit "]]"

def maxTokenCandidateBytes : Nat := 4096

def checkLen : Nat := 8

structure ParsedToken where
  scopeId : Text
  kind : FindingKind
  counter : Nat
  deriving DecidableEq, Repr

/-- The message between a pair of backticks is text taken from the input. -/
def quoted (text : Text) : Text := lit "`" ++ text ++ lit "`"

section Fields

variable (runtime : Runtime)

def tokenCheck (scopeId : Text) (kind : FindingKind) (counter : Nat) :
    Text :=
  (runtime.sha256Hex
    (lit "v2:" ++ scopeId ++ lit ":" ++ kind.tokenLabel ++ lit ":" ++
      numeral counter)).take checkLen

/-- The four fields of a token, between the marker and the suffix. -/
def tokenFields (scopeId : Text) (kind : FindingKind) (counter : Nat) :
    List Text :=
  [scopeId, kind.tokenLabel, paddedNumeral 3 counter,
    tokenCheck runtime scopeId kind counter]

def formatToken (scopeId : Text) (kind : FindingKind) (counter : Nat) :
    Text :=
  tokenPrefix ++
    [':'].intercalate (tokenFields runtime scopeId kind counter) ++
    tokenSuffix

/-- `parts.next()` followed by the test that the field is not empty. -/
def nextField (missing : Text) :
    List Text → Except Text (Text × List Text)
  | [] => .error missing
  | head :: tail =>
      if head = [] then .error missing else .ok (head, tail)

/-- The fields of a candidate, before any of them is read. -/
def splitToken (candidate : Text) :
    Except Text (Text × Text × Text × Text) := do
  let some inner :=
    (candidate.dropPrefix? tokenPrefix).bind (·.dropSuffix? tokenSuffix)
    | .error (lit "token does not match v2 marker format")
  let parts := inner.splitOn ':'
  let (scopeId, parts) ← nextField (lit "token scope is missing") parts
  let (kindLabel, parts) ← nextField (lit "token kind is missing") parts
  let (counterRaw, parts) ← nextField (lit "token counter is missing") parts
  let (check, parts) ← nextField (lit "token checksum is missing") parts
  match parts with
  | [] => .ok (scopeId, kindLabel, counterRaw, check)
  | _ :: _ => .error (lit "token contains unexpected trailing fields")

def parseToken (candidate : Text) : Except Text ParsedToken := do
  let (scopeId, kindLabel, counterRaw, check) ← splitToken candidate
  let some kind := FindingKind.fromTokenLabel kindLabel
    | .error (lit "unknown token kind " ++ quoted kindLabel)
  let some counter := parseUnsigned unsignedMax counterRaw
    | .error (lit "invalid token counter " ++ quoted counterRaw)
  let expected := tokenCheck runtime scopeId kind counter
  if check = expected then
    .ok ⟨scopeId, kind, counter⟩
  else
    .error
      (lit "invalid token checksum " ++ quoted check ++ lit ", expected " ++
        quoted expected)

end Fields

/-- The loop of the scanner at byte `index`, with the text from there on.  A
candidate ends at the first suffix after its marker; without one it ends at
the byte limit, moved back to a character boundary.  The next search starts
where the candidate ended, which is never before the end of the marker. -/
def scanLoop : Nat → Nat → Text → List (Nat × Nat)
  | 0, _, _ => []
  | fuel + 1, index, rest =>
      match rest.dropInfix? tokenPrefix with
      | none => []
      | some (before, after) =>
          let start := index + byteLen before
          let searchStart := start + byteLen tokenPrefix
          match after.dropInfix? tokenSuffix with
          | some (body, remaining) =>
              let finish := searchStart + byteLen body + byteLen tokenSuffix
              (start, finish) :: scanLoop fuel finish remaining
          | none =>
              let parts := splitWithin maxTokenCandidateBytes after
              let finish := searchStart + byteLen parts.1
              (start, finish) :: scanLoop fuel finish parts.2

/-- The ranges that the scanner visits, in order.  Every round consumes a
marker, so one round more than there are characters is enough. -/
def scanTokenLikeRanges (text : Text) : List (Nat × Nat) :=
  scanLoop (text.length + 1) 0 text

/-- The scan of the text from byte `index` on. -/
def scanFrom (index : Nat) (rest : Text) : List (Nat × Nat) :=
  scanLoop (rest.length + 1) index rest

/-- How the scanner sees a text: no marker, or a leftmost marker whose
candidate is closed, or one that is never closed. -/
inductive ScanShape : Text → Prop
  | absent {text : Text} :
      text.dropInfix? tokenPrefix = none → ScanShape text
  | closed (before body remaining : Text) :
      NotBefore tokenPrefix
        (before ++ (tokenPrefix ++ (body ++ (tokenSuffix ++ remaining))))
        before.length →
      NotBefore tokenSuffix (body ++ (tokenSuffix ++ remaining))
        body.length →
      ScanShape
        (before ++ (tokenPrefix ++ (body ++ (tokenSuffix ++ remaining))))
  | unclosed (before after : Text) :
      NotBefore tokenPrefix (before ++ (tokenPrefix ++ after))
        before.length →
      ¬ tokenSuffix <:+: after →
      ScanShape (before ++ (tokenPrefix ++ after))

theorem scanShape (text : Text) : ScanShape text := by
  cases marker : text.dropInfix? tokenPrefix with
  | none =>
      exact .absent marker
  | some parts =>
      obtain ⟨before, after⟩ := parts
      obtain ⟨rfl, first⟩ := dropInfix?_eq_some_iff_notBefore.mp marker
      cases closing : after.dropInfix? tokenSuffix with
      | none =>
          exact .unclosed before after first
            (dropInfix?_eq_none_iff.mp closing)
      | some parts =>
          obtain ⟨body, remaining⟩ := parts
          obtain ⟨rfl, firstClosing⟩ :=
            dropInfix?_eq_some_iff_notBefore.mp closing
          exact .closed before body remaining first firstClosing

theorem dropInfix?_of_notBefore {needle before after : Text}
    (first : NotBefore needle (before ++ (needle ++ after)) before.length) :
    (before ++ (needle ++ after)).dropInfix? needle =
      some (before, after) :=
  dropInfix?_eq_some_iff_notBefore.mpr ⟨rfl, first⟩

theorem scanLoop_eq_scanFrom {fuel index : Nat} {rest : Text}
    (enough : rest.length < fuel) :
    scanLoop fuel index rest = scanFrom index rest := by
  induction fuel using Nat.strongRecOn generalizing index rest with
  | ind fuel inductionHypothesis =>
      cases fuel with
      | zero =>
          omega
      | succ fuel =>
          -- both runs continue on a shorter rest, with fuel to spare
          have shorter :
              ∀ (index : Nat) (later : Text), later.length < rest.length →
                scanLoop fuel index later =
                  scanLoop rest.length index later := by
            intro index later less
            rw [inductionHypothesis fuel (by omega) (by omega)]
            rcases Nat.lt_or_ge rest.length (fuel + 1) with small | large
            · rw [inductionHypothesis rest.length small less]
            · omega
          rw [scanFrom, scanLoop, scanLoop]
          cases scanShape rest with
          | absent absent =>
              simp only [absent]
          | closed before body remaining first firstClosing =>
              simp only [dropInfix?_of_notBefore first,
                dropInfix?_of_notBefore firstClosing]
              rw [shorter]
              simp [tokenPrefix, lit]
              omega
          | unclosed before after first neverClosed =>
              simp only [dropInfix?_of_notBefore first,
                dropInfix?_eq_none_iff.mpr neverClosed]
              rw [shorter]
              have total :=
                congrArg List.length
                  (splitWithin_append maxTokenCandidateBytes after)
              simp only [List.length_append] at total
              simp [tokenPrefix, lit]
              omega

theorem scanFrom_absent {index : Nat} {rest : Text}
    (absent : rest.dropInfix? tokenPrefix = none) :
    scanFrom index rest = [] := by
  rw [scanFrom, scanLoop]
  simp only [absent]

/-- A closed candidate is visited whole, and the scan goes on behind it. -/
theorem scanFrom_closed {index : Nat} {before body remaining : Text}
    (first :
      NotBefore tokenPrefix
        (before ++ (tokenPrefix ++ (body ++ (tokenSuffix ++ remaining))))
        before.length)
    (firstClosing :
      NotBefore tokenSuffix (body ++ (tokenSuffix ++ remaining))
        body.length) :
    scanFrom index
        (before ++ (tokenPrefix ++ (body ++ (tokenSuffix ++ remaining)))) =
      (index + byteLen before,
          index + byteLen before +
            byteLen (tokenPrefix ++ (body ++ tokenSuffix))) ::
        scanFrom
          (index + byteLen before +
            byteLen (tokenPrefix ++ (body ++ tokenSuffix)))
          remaining := by
  have size :
      index + byteLen before +
          byteLen (tokenPrefix ++ (body ++ tokenSuffix)) =
        index + byteLen before + byteLen tokenPrefix + byteLen body +
          byteLen tokenSuffix := by
    simp only [byteLen_append]
    omega
  rw [scanFrom, scanLoop]
  simp only [dropInfix?_of_notBefore first,
    dropInfix?_of_notBefore firstClosing, size]
  rw [scanLoop_eq_scanFrom]
  simp [tokenPrefix, lit]
  omega

/-- A candidate that is never closed is cut at the byte limit. -/
theorem scanFrom_unclosed {index : Nat} {before after : Text}
    (first :
      NotBefore tokenPrefix (before ++ (tokenPrefix ++ after))
        before.length)
    (neverClosed : ¬ tokenSuffix <:+: after) :
    scanFrom index (before ++ (tokenPrefix ++ after)) =
      (index + byteLen before,
          index + byteLen before +
            byteLen (tokenPrefix ++
              (splitWithin maxTokenCandidateBytes after).1)) ::
        scanFrom
          (index + byteLen before +
            byteLen (tokenPrefix ++
              (splitWithin maxTokenCandidateBytes after).1))
          (splitWithin maxTokenCandidateBytes after).2 := by
  rw [scanFrom, scanLoop]
  simp only [dropInfix?_of_notBefore first,
    dropInfix?_eq_none_iff.mpr neverClosed, byteLen_append, ← Nat.add_assoc]
  rw [scanLoop_eq_scanFrom]
  have total :=
    congrArg List.length (splitWithin_append maxTokenCandidateBytes after)
  simp only [List.length_append] at total
  simp [tokenPrefix, lit]
  omega

/-- A stretch where no marker starts is passed over. -/
theorem scanFrom_skip {index : Nat} {before rest : Text}
    (noMarker : NotBefore tokenPrefix (before ++ rest) before.length) :
    scanFrom index (before ++ rest) =
      scanFrom (index + byteLen before) rest := by
  cases scanShape rest with
  | absent absent =>
      rw [scanFrom_absent absent,
        scanFrom_absent (dropInfix?_append_eq_none noMarker absent)]
  | closed gap body remaining first firstClosing =>
      have firstHere := noMarker.append first
      rw [← List.length_append, ← List.append_assoc] at firstHere
      rw [← List.append_assoc, scanFrom_closed firstHere firstClosing,
        scanFrom_closed first firstClosing, byteLen_append before gap,
        ← Nat.add_assoc index]
  | unclosed gap after first neverClosed =>
      have firstHere := noMarker.append first
      rw [← List.length_append, ← List.append_assoc] at firstHere
      rw [← List.append_assoc, scanFrom_unclosed firstHere neverClosed,
        scanFrom_unclosed first neverClosed, byteLen_append before gap,
        ← Nat.add_assoc index]

/-- The visited ranges move with the place of the text. -/
theorem scanFrom_shift (offset index : Nat) (rest : Text) :
    scanFrom (offset + index) rest =
      (scanFrom index rest).map
        fun range => (offset + range.1, offset + range.2) := by
  induction size : rest.length using Nat.strongRecOn generalizing index rest
  with
  | ind size inductionHypothesis =>
      subst size
      cases scanShape rest with
      | absent absent =>
          rw [scanFrom_absent absent, scanFrom_absent absent]
          rfl
      | closed gap body remaining first firstClosing =>
          rw [scanFrom_closed first firstClosing,
            scanFrom_closed first firstClosing, List.map_cons,
            ← inductionHypothesis remaining.length _ _ _ rfl]
          · simp only [Nat.add_assoc]
          · simp [tokenPrefix, lit]
            omega
      | unclosed gap after first neverClosed =>
          have total :=
            congrArg List.length
              (splitWithin_append maxTokenCandidateBytes after)
          rw [List.length_append] at total
          rw [scanFrom_unclosed first neverClosed,
            scanFrom_unclosed first neverClosed, List.map_cons,
            ← inductionHypothesis _ _ _ _ rfl]
          · simp only [Nat.add_assoc]
          · simp [tokenPrefix, lit]
            omega

/-- An identifier as the random generators make it: a non-empty text of
lowercase hexadecimal digits. -/
def IsHexId (id : Text) : Prop :=
  id ≠ [] ∧ ∀ head ∈ id, head ∈ lit "0123456789abcdef"

instance (id : Text) : Decidable (IsHexId id) :=
  decidable_of_iff
    (id ≠ [] ∧ id.all (fun head => head ∈ lit "0123456789abcdef") = true)
    (by simp [IsHexId])

/-- A scope that survives being split at the field separator. -/
def IsScope (scopeId : Text) : Prop :=
  scopeId ≠ [] ∧ ':' ∉ scopeId

instance (scopeId : Text) : Decidable (IsScope scopeId) :=
  inferInstanceAs (Decidable (_ ∧ _))

theorem IsHexId.isScope {id : Text} (hex : IsHexId id) : IsScope id := by
  refine ⟨hex.1, fun member => ?_⟩
  exact absurd (hex.2 ':' member) (by decide)

/-! ## Writing and reading a token -/

section RoundTrip

variable {runtime : Runtime} {scopeId : Text} {kind : FindingKind}
  {counter : Nat}

theorem length_tokenCheck :
    (tokenCheck runtime scopeId kind counter).length = checkLen := by
  simp [tokenCheck, runtime.sha256Hex_length, checkLen]

theorem tokenCheck_isHex {head : Char}
    (member : head ∈ tokenCheck runtime scopeId kind counter) :
    head ∈ lit "0123456789abcdef" :=
  runtime.sha256Hex_isHex _ head (List.mem_of_mem_take member)

theorem tokenCheck_ne_nil : tokenCheck runtime scopeId kind counter ≠ [] := by
  intro empty
  have size :
      (tokenCheck runtime scopeId kind counter).length = checkLen :=
    length_tokenCheck
  rw [empty] at size
  exact absurd size (by decide)

/-- The fields after the scope contain neither a separator nor a bracket. -/
theorem clean_of_mem_tokenFields {field : Text} {head : Char}
    (member :
      field ∈ [kind.tokenLabel, paddedNumeral 3 counter,
        tokenCheck runtime scopeId kind counter])
    (inside : head ∈ field) :
    head ≠ ':' ∧ head ≠ '[' ∧ head ≠ ']' := by
  simp only [List.mem_cons, List.not_mem_nil, or_false] at member
  rcases member with rfl | rfl | rfl
  · have upper := kind.tokenLabel_isUpper head inside
    refine ⟨?_, ?_, ?_⟩ <;> rintro rfl <;> exact absurd upper (by decide)
  · have digit := isDigit_of_mem_paddedNumeral inside
    refine ⟨?_, ?_, ?_⟩ <;> rintro rfl <;> exact absurd digit (by decide)
  · have hex := tokenCheck_isHex inside
    refine ⟨?_, ?_, ?_⟩ <;> rintro rfl <;> exact absurd hex (by decide)

theorem formatToken_shape :
    formatToken runtime scopeId kind counter =
      tokenPrefix ++
        ([':'].intercalate (tokenFields runtime scopeId kind counter) ++
          tokenSuffix) := by
  rw [formatToken, List.append_assoc]

/-- The marker and the suffix come off again. -/
theorem inner_formatToken (inner : Text) :
    ((tokenPrefix ++ (inner ++ tokenSuffix)).dropPrefix? tokenPrefix).bind
        (·.dropSuffix? tokenSuffix) = some inner := by
  have front :
      (tokenPrefix ++ (inner ++ tokenSuffix)).dropPrefix? tokenPrefix =
        some (inner ++ tokenSuffix) :=
    List.dropPrefix?_eq_some_iff.mpr ⟨tokenPrefix, rfl, beq_self_eq_true _⟩
  have back : (inner ++ tokenSuffix).dropSuffix? tokenSuffix = some inner :=
    List.dropSuffix?_eq_some_iff.mpr ⟨tokenSuffix, rfl, beq_self_eq_true _⟩
  rw [front, Option.bind_some, back]

/-- What is read as a token is one: marker, fields, suffix. -/
theorem inner_eq_some {candidate inner : Text}
    (read :
      (candidate.dropPrefix? tokenPrefix).bind (·.dropSuffix? tokenSuffix) =
        some inner) :
    candidate = tokenPrefix ++ (inner ++ tokenSuffix) := by
  obtain ⟨rest, front, back⟩ := Option.bind_eq_some_iff.mp read
  obtain ⟨marker, rfl, same⟩ := List.dropPrefix?_eq_some_iff.mp front
  obtain ⟨closing, rfl, sameClosing⟩ := List.dropSuffix?_eq_some_iff.mp back
  rw [eq_of_beq same, eq_of_beq sameClosing]

theorem nextField_eq_ok {missing field : Text} {fields rest : List Text}
    (read : nextField missing fields = .ok (field, rest)) :
    fields = field :: rest ∧ field ≠ [] := by
  cases fields with
  | nil =>
      cases read
  | cons head tail =>
      rw [nextField] at read
      split at read
      · cases read
      · cases read
        exact ⟨rfl, ‹_›⟩

/-- The split of a candidate into four non-empty fields. -/
theorem splitToken_eq_ok {candidate scope kindLabel counterRaw check : Text} :
    splitToken candidate = .ok (scope, kindLabel, counterRaw, check) ↔
      ∃ inner, candidate = tokenPrefix ++ (inner ++ tokenSuffix) ∧
        inner.splitOn ':' = [scope, kindLabel, counterRaw, check] ∧
        scope ≠ [] ∧ kindLabel ≠ [] ∧ counterRaw ≠ [] ∧ check ≠ [] := by
  constructor
  · intro split
    unfold splitToken at split
    split at split
    · rename_i inner read
      obtain ⟨⟨first, rest₁⟩, read₁, split⟩ := bind_eq_ok.mp split
      obtain ⟨⟨second, rest₂⟩, read₂, split⟩ := bind_eq_ok.mp split
      obtain ⟨⟨third, rest₃⟩, read₃, split⟩ := bind_eq_ok.mp split
      obtain ⟨⟨fourth, rest₄⟩, read₄, split⟩ := bind_eq_ok.mp split
      obtain ⟨shape₁, nonempty₁⟩ := nextField_eq_ok read₁
      obtain ⟨shape₂, nonempty₂⟩ := nextField_eq_ok read₂
      obtain ⟨shape₃, nonempty₃⟩ := nextField_eq_ok read₃
      obtain ⟨shape₄, nonempty₄⟩ := nextField_eq_ok read₄
      cases rest₄ with
      | nil =>
          cases split
          refine ⟨inner, inner_eq_some read, ?_, nonempty₁, nonempty₂,
            nonempty₃, nonempty₄⟩
          rw [shape₁, shape₂, shape₃, shape₄]
      | cons _ _ =>
          cases split
    · cases split
  · rintro ⟨inner, rfl, fields, nonempty₁, nonempty₂, nonempty₃, nonempty₄⟩
    simp [splitToken, inner_formatToken, fields, nextField, nonempty₁,
      nonempty₂, nonempty₃, nonempty₄]

theorem parseToken_eq_ok {candidate : Text} {parsed : ParsedToken} :
    parseToken runtime candidate = .ok parsed ↔
      ∃ kindLabel counterRaw,
        splitToken candidate =
            .ok (parsed.scopeId, kindLabel, counterRaw,
              tokenCheck runtime parsed.scopeId parsed.kind parsed.counter) ∧
          FindingKind.fromTokenLabel kindLabel = some parsed.kind ∧
          parseUnsigned unsignedMax counterRaw = some parsed.counter := by
  constructor
  · intro read
    obtain ⟨⟨scope, kindLabel, counterRaw, check⟩, split, read⟩ :=
      bind_eq_ok.mp read
    simp only at read
    split at read
    · rename_i kindRead
      split at read
      · rename_i counterRead
        split at read
        · rename_i same
          cases read
          subst same
          exact ⟨kindLabel, counterRaw, split, kindRead, counterRead⟩
        · cases read
      · cases read
    · cases read
  · rintro ⟨kindLabel, counterRaw, split, kindRead, counterRead⟩
    simp [parseToken, split, kindRead, counterRead]

/-- Whatever parses has a non-empty scope without a separator, and a counter
that fits its type. -/
theorem of_parseToken_eq_ok {candidate : Text} {parsed : ParsedToken}
    (read : parseToken runtime candidate = .ok parsed) :
    IsScope parsed.scopeId ∧ parsed.counter ≤ unsignedMax ∧
      ∃ inner, candidate = tokenPrefix ++ (inner ++ tokenSuffix) := by
  obtain ⟨kindLabel, counterRaw, split, _, counterRead⟩ :=
    parseToken_eq_ok.mp read
  obtain ⟨inner, shape, fields, nonempty, _⟩ := splitToken_eq_ok.mp split
  have scopeField : parsed.scopeId ∈ inner.splitOn ':' := by
    rw [fields]
    simp
  have noColon : ':' ∉ parsed.scopeId := not_mem_of_mem_splitOn scopeField
  exact ⟨⟨nonempty, noColon⟩, le_of_parseUnsigned counterRead, inner, shape⟩

/-- A character that stands in no field behind the scope. -/
def IsForeign (head : Char) : Prop :=
  head ≠ ':' ∧ head ≠ '+' ∧ head.isUpper = false ∧ head.isDigit = false ∧
    head ∉ lit "0123456789abcdef"

instance (head : Char) : Decidable (IsForeign head) :=
  inferInstanceAs (Decidable (_ ∧ _))

/-- What parses is a scope with three fields behind it, which have no foreign
character, and of which the first is a label. -/
theorem fields_of_parseToken {candidate : Text} {parsed : ParsedToken}
    (read : parseToken runtime candidate = .ok parsed) :
    ∃ fields,
      candidate =
          tokenPrefix ++
            ((parsed.scopeId ++ ':' :: fields) ++ tokenSuffix) ∧
        (fields.splitOn ':').length = 3 ∧
        (∀ head, IsForeign head → head ∉ fields) ∧
        ¬ lit "v2:" <+: fields := by
  obtain ⟨scope, _, _⟩ := of_parseToken_eq_ok read
  obtain ⟨kindLabel, counterRaw, split, kindRead, counterRead⟩ :=
    parseToken_eq_ok.mp read
  obtain ⟨inner, shape, parts, _⟩ := splitToken_eq_ok.mp split
  let check :=
    tokenCheck runtime parsed.scopeId parsed.kind parsed.counter
  let fields := [':'].intercalate [kindLabel, counterRaw, check]
  have isLabel := FindingKind.eq_tokenLabel_of_fromTokenLabel kindRead
  have joined : [':'].intercalate (inner.splitOn ':') = inner :=
    List.intercalate_splitOn ':'
  have isInner : inner = parsed.scopeId ++ ':' :: fields := by
    rw [← joined, parts]
    simp [fields, check, List.intercalate, List.intersperse]
  refine ⟨fields, by rw [shape, isInner], ?_, ?_, ?_⟩
  · have counted := congrArg List.length parts
    rw [isInner, List.splitOn_append_cons_self,
      List.splitOn_eq_singleton scope.2] at counted
    simpa using counted
  · intro head foreign
    obtain ⟨notColon, notPlus, notUpper, notDigit, notHex⟩ := foreign
    have label : head ∉ kindLabel := by
      rw [isLabel]
      intro member
      rw [parsed.kind.tokenLabel_isUpper head member] at notUpper
      cases notUpper
    have number : head ∉ counterRaw := by
      intro member
      rcases isDigit_of_parseUnsigned counterRead member with plus | digit
      · exact notPlus plus
      · rw [digit] at notDigit
        cases notDigit
    have checked : head ∉ check := fun member =>
      notHex (tokenCheck_isHex member)
    simp [fields, List.intercalate, List.intersperse, notColon, label,
      number, checked]
  · intro version
    have first : 'v' ∈ kindLabel ∨ kindLabel = [] := by
      cases kindLabel with
      | nil =>
          exact Or.inr rfl
      | cons head tail =>
          obtain ⟨rest, starts⟩ := version
          have same := congrArg List.head? starts
          simp [fields, lit, List.intercalate, List.intersperse] at same
          exact Or.inl (by rw [same]; exact List.mem_cons_self)
    rcases first with member | empty
    · rw [isLabel] at member
      have upper := parsed.kind.tokenLabel_isUpper 'v' member
      exact absurd upper (by decide)
    · exact parsed.kind.tokenLabel_ne_nil (isLabel.symm.trans empty)

/-- What parses has four fields, and foreign characters in the scope only. -/
theorem inner_of_parseToken {candidate : Text} {parsed : ParsedToken}
    (read : parseToken runtime candidate = .ok parsed) :
    ∃ inner, candidate = tokenPrefix ++ (inner ++ tokenSuffix) ∧
      (inner.splitOn ':').length = 4 ∧
      ∀ head, IsForeign head → head ∉ parsed.scopeId → head ∉ inner := by
  obtain ⟨scope, _, _⟩ := of_parseToken_eq_ok read
  obtain ⟨fields, shape, counted, clean, _⟩ := fields_of_parseToken read
  refine ⟨_, shape, ?_, ?_⟩
  · rw [List.splitOn_append_cons_self, List.splitOn_eq_singleton scope.2,
      List.length_append, counted]
    rfl
  · intro head foreign notInScope
    simp [notInScope, foreign.1, clean head foreign]

/-- A token with a proper scope is read back as it was written. -/
theorem parseToken_formatToken
    (scope : IsScope scopeId) (fits : counter ≤ unsignedMax) :
    parseToken runtime (formatToken runtime scopeId kind counter) =
      .ok ⟨scopeId, kind, counter⟩ := by
  refine parseToken_eq_ok.mpr
    ⟨kind.tokenLabel, paddedNumeral 3 counter, ?_,
      FindingKind.fromTokenLabel_tokenLabel kind,
      parseUnsigned_paddedNumeral fits⟩
  refine splitToken_eq_ok.mpr ⟨_, formatToken_shape, ?_, scope.1,
    kind.tokenLabel_ne_nil, paddedNumeral_ne_nil 3 counter,
    tokenCheck_ne_nil⟩
  refine List.splitOn_intercalate ':' ?_ (by simp [tokenFields])
  intro field member colon
  rcases List.mem_cons.mp member with rfl | member
  · exact scope.2 colon
  · exact (clean_of_mem_tokenFields member colon).1 rfl

/-- Different scopes, kinds or counters give different tokens. -/
theorem formatToken_injective {otherScope : Text} {otherKind : FindingKind}
    {otherCounter : Nat}
    (scope : IsScope scopeId) (fits : counter ≤ unsignedMax)
    (otherIsScope : IsScope otherScope)
    (otherFits : otherCounter ≤ unsignedMax)
    (same :
      formatToken runtime scopeId kind counter =
        formatToken runtime otherScope otherKind otherCounter) :
    scopeId = otherScope ∧ kind = otherKind ∧ counter = otherCounter := by
  have read :
      parseToken runtime (formatToken runtime scopeId kind counter) =
        .ok ⟨scopeId, kind, counter⟩ :=
    parseToken_formatToken scope fits
  rw [same, parseToken_formatToken otherIsScope otherFits] at read
  cases read
  exact ⟨rfl, rfl, rfl⟩

end RoundTrip

/-- Digests of the token texts of addresses in the scopes `ab` and `a:b`. -/
def sampleDigests : List (Text × Text) :=
  [(lit "v2:ab:EMAIL:1",
      lit "5393acba881f0f6bcc1aecf4e521505a" ++
        lit "766c72259f2185afddb3d1ba241d73b9"),
    (lit "v2:ab:EMAIL:2",
      lit "3f5c4109ed950050e6fe7268eb2375a6" ++
        lit "d599810ea929a12144cf71e7b0441753"),
    (lit "v2:ab:EMAIL:3",
      lit "326696a68c9f348e3fbb1e4acc6be3bc" ++
        lit "1dbadff7e9ecb8ec7874a9667fa6784c"),
    (lit "v2:a:b:EMAIL:1",
      lit "e6deaab2d1e2a26b384dc401d5074763" ++
        lit "0c5cbe31f73140f0b12626c3174439a9")]

/-- A runtime whose digests are those of the table, and which knows no URL and
no address block. -/
def sampleRuntime : Runtime where
  sha256Hex text :=
    (sampleDigests.lookup text).getD (List.replicate 64 '0')
  sha256Hex_length := by
    intro text
    cases found : sampleDigests.lookup text with
    | none =>
        simp
    | some digest =>
        have sizes : ∀ row ∈ sampleDigests, row.2.length = 64 := by
          decide +kernel
        obtain ⟨before, after, shape, _⟩ := List.lookup_eq_some_iff.mp found
        exact sizes (text, digest) (by simp [shape])
  sha256Hex_isHex := by
    intro text head inside
    cases found : sampleDigests.lookup text with
    | none =>
        rw [found, Option.getD_none] at inside
        rw [List.eq_of_mem_replicate inside]
        decide
    | some digest =>
        have digits :
            ∀ row ∈ sampleDigests,
              row.2.all (fun head => head ∈ lit "0123456789abcdef") =
                true := by
          decide +kernel
        obtain ⟨before, after, shape, _⟩ := List.lookup_eq_some_iff.mp found
        rw [found, Option.getD_some] at inside
        have all := digits (text, digest) (by simp [shape])
        simpa using List.all_eq_true.mp all head inside
  urlHost? _ := none
  urlWithHost? _ _ := none
  ipNet? _ := none
  overflowChecks := true

/-- A runtime with the digest of one more text. -/
def Runtime.withDigest (runtime : Runtime) (known digest : Text)
    (size : digest.length = 64)
    (digits :
      digest.all (fun head => head ∈ lit "0123456789abcdef") = true) :
    Runtime :=
  { runtime with
    sha256Hex := fun text =>
      if text = known then digest else runtime.sha256Hex text
    sha256Hex_length := by
      intro text
      by_cases here : text = known
      · rw [if_pos here, size]
      · rw [if_neg here, runtime.sha256Hex_length]
    sha256Hex_isHex := by
      intro text head inside
      by_cases here : text = known
      · rw [if_pos here] at inside
        simpa using List.all_eq_true.mp digits head inside
      · rw [if_neg here] at inside
        exact runtime.sha256Hex_isHex text head inside }

end Redactor
