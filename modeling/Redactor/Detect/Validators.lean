import Redactor.Detect.Engine
import Redactor.Library.IpAddress
import Redactor.Library.Numerals
import Redactor.Replace.Hints

/-!
# Validators

The checks that a candidate must pass, and the form under which equal values
are recognised.
-/

namespace Redactor

open Utf8

def normalize (kind : FindingKind) (value : Text) : Text :=
  match kind with
  | .domain => asciiLowercase (trimMatches (· == '.') (trim value))
  | .email => asciiLowercase (trim value)
  | .url => trim value
  | .ip | .cidr | .phone | .secret => trim value
  | .person | .organization =>
      List.intercalate [' '] (splitWhitespace value)
  | .customString | .customFile => trim value

def trimWrapped (value : Text) : Text :=
  trimMatches (· == '\'') (trimMatches (· == '"') (trim value))

def looksLikeSecret (value : Text) : Bool :=
  if value.length < 20 || 128 < value.length then
    false
  else
    let hasUpper := value.any isAsciiUppercase
    let hasLower := value.any isAsciiLowercase
    let hasDigit := value.any isAsciiDigit
    let allowed :=
      value.all fun head =>
        isAsciiAlphanumeric head || head == '_' || head == '-' ||
          head == '/' || head == '+'
    allowed && hasDigit && (hasUpper || hasLower) &&
      !(value.contains '.' || value.contains ':')

def isEmailLocal (head : Char) : Bool :=
  isAsciiAlphanumeric head || head == '.' || head == '_' || head == '%' ||
    head == '+' || head == '-'

def isEmailDomain (head : Char) : Bool :=
  isAsciiAlphanumeric head || head == '.' || head == '-'

def privateHostSuffixes : List Text :=
  [lit "internal", lit "lan", lit "local", lit "localhost"]

def hasKnownHostSuffix (engine : Engine) (value : Text) : Bool :=
  let normalized :=
    asciiLowercase (trimEndMatches (· == '.') (trim value))
  if normalized.isEmpty then
    false
  else if engine.hasKnownSuffix normalized then
    true
  else
    match (normalized.splitOn '.').getLast? with
    | none => false
    | some suffix => privateHostSuffixes.contains suffix

/-- What makes a label of a domain name. -/
def isHostLabel (label : Text) : Bool :=
  !label.isEmpty && decide (byteLen label ≤ 63) &&
    label.all (fun head => isAsciiAlphanumeric head || head == '-') &&
    !startsWith label ['-'] && !endsWith label ['-']

/-- The part of `is_valid_domain` behind its first guard. -/
def hasHostLabels (engine : Engine) (value : Text) : Bool :=
  let normalized := trimEndMatches (· == '.') (trim value)
  let labels := normalized.splitOn '.'
  if labels.length < 2 then
    false
  else
    labels.all isHostLabel && hasKnownHostSuffix engine normalized

/-- `is_valid_email`, which calls `is_valid_domain` for the part after the
separator. -/
def isValidEmailWith (validDomain : Text → Bool) (value : Text) : Bool :=
  match splitOnce '@' value with
  | none => false
  | some (localPart, domain) =>
      if localPart.isEmpty || domain.isEmpty || endsWith domain ['.'] then
        false
      else if !localPart.all isEmailLocal then
        false
      else
        validDomain domain

/-- `is_valid_domain`, which calls `is_valid_email` for its own argument;
`fuel` bounds the calls.  They never run out in `isValidDomain`, see
`eq_isValidDomain_of_calls`. -/
def isValidDomainWithin (engine : Engine) : Nat → Text → Bool
  | 0, _ => false
  | fuel + 1, value =>
      if isValidEmailWith (isValidDomainWithin engine fuel) value ||
          contains value (lit "://") || (parseIpAddress value).isSome then
        false
      else
        hasHostLabels engine value

def isValidDomain (engine : Engine) (value : Text) : Bool :=
  isValidDomainWithin engine (value.length + 1) value

def isValidEmail (engine : Engine) (value : Text) : Bool :=
  isValidEmailWith (isValidDomain engine) value

def isValidCidr (runtime : Runtime) (value : Text) : Bool :=
  (runtime.ipNet? value).isSome

def isSubstantialIpv6 (value : Text) : Bool :=
  if value.contains '.' then
    true
  else
    decide
      (4 ≤ ((value.splitOn ':').filter fun part => !part.isEmpty).length)

def isValidIp (value : Text) : Bool :=
  match parseIpAddress value with
  | some (.v4 octets) => !(IpAddress.v4 octets).isUnspecified
  | some (.v6 segments) =>
      !(IpAddress.v6 segments).isUnspecified && isSubstantialIpv6 value
  | none => false

def fileExtensions : List Text :=
  [lit "c", lit "cc", lit "conf", lit "config", lit "cpp", lit "csv",
    lit "env", lit "go", lit "gradle", lit "h", lit "hpp", lit "ini",
    lit "java", lit "js", lit "json", lit "jsx", lit "kt", lit "lock",
    lit "md", lit "php", lit "properties", lit "py", lit "rb", lit "rs",
    lit "scss", lit "sh", lit "sql", lit "swift", lit "tf", lit "toml",
    lit "ts", lit "tsx", lit "txt", lit "xml", lit "yaml", lit "yml"]

def looksLikeFileName (value : Text) : Bool :=
  match rsplitOnce '.' value with
  | none => false
  | some (name, extension) =>
      if name.isEmpty || extension.isEmpty then
        false
      else
        fileExtensions.contains (asciiLowercase extension)

def looksLikeMemberAccessChain (value : Text) : Bool :=
  let parts := value.splitOn '.'
  if parts.length < 2 then
    false
  else
    parts.all fun part =>
      match part with
      | [] => false
      | head :: tail =>
          (isAsciiLetter head || head == '_') &&
            tail.all fun other => isAsciiAlphanumeric other || other == '_'

def isLikelyCodeExpression (engine : Engine) (value : Text) : Bool :=
  let trimmed := trim value
  if trimmed.isEmpty then
    false
  else if contains trimmed (lit "::") || contains trimmed (lit "->") ||
      trimmed.contains '&' || trimmed.contains '(' ||
      trimmed.contains ')' || trimmed.contains '{' ||
      trimmed.contains '}' || trimmed.contains '[' ||
      trimmed.contains ']' || endsWith trimmed [','] ||
      endsWith trimmed [';'] then
    true
  else if trimmed.any isWhitespace &&
      trimmed.any fun head =>
        head == '=' || head == '+' || head == '*' || head == '%' ||
          head == '|' || head == '&' then
    true
  else
    looksLikeMemberAccessChain trimmed &&
      !hasKnownHostSuffix engine trimmed

def isPlainConfigValue (engine : Engine) (value : Text) : Bool :=
  let trimmed := trim value
  if trimmed.isEmpty || isLikelyCodeExpression engine trimmed then
    false
  else
    let inner := trimWrapped trimmed
    !inner.isEmpty && !inner.any isWhitespace

/-- The start of the line in which byte `start` lies. -/
def lineStart (text : Text) (start : Nat) : Nat :=
  ((rfind? (slice text 0 start) '\n').map (· + 1)).getD 0

/-- The end of the line in which byte `finish` lies. -/
def lineEnd (text : Text) (finish : Nat) : Nat :=
  ((find? (slice text finish (byteLen text)) ['\n']).map (finish + ·)).getD
    (byteLen text)

def isWrappedInQuotes (line : Text) (start finish : Nat) : Bool :=
  let previous := (trimEnd (slice line 0 start)).getLast?
  let next := (trimStart (slice line finish (byteLen line))).head?
  (previous == some '"' && next == some '"') ||
    (previous == some '\'' && next == some '\'')

def codeKeywords : List Text :=
  [lit "let ", lit "const ", lit "var ", lit "fn ", lit "for ", lit "if ",
    lit "while ", lit "match ", lit "return ", lit "impl ", lit "struct "]

def isCodeLikeDomainContext (text : Text) (start finish : Nat) : Bool :=
  let lineStart := lineStart text start
  let line := slice text lineStart (lineEnd text finish)
  let relativeStart := start - lineStart
  let relativeEnd := finish - lineStart
  if isWrappedInQuotes line relativeStart relativeEnd then
    false
  else
    let before := trimEnd (slice line 0 relativeStart)
    let after := trimStart (slice line relativeEnd (byteLen line))
    let hasCodeKeywords := codeKeywords.any (contains line)
    let hasCodeTokens :=
      contains line (lit "::") || contains line (lit "->") ||
        line.contains '&' || line.contains '(' || line.contains ')' ||
        line.contains '{' || line.contains '}' || line.contains '[' ||
        line.contains ']' || line.contains ';'
    let bareExpressionPosition :=
      endsWith before ['='] || endsWith before [':'] ||
        endsWith before [','] || endsWith before ['('] ||
        endsWith before ['['] || endsWith before ['{']
    let loopExpressionPosition := endsWith before (lit " in")
    let methodCallPosition := startsWith after ['('] || startsWith after ['[']
    let expressionTerminator :=
      after.isEmpty ||
        after.head?.any fun head =>
          head == ',' || head == ';' || head == ')' || head == ']' ||
            head == '}'
    (hasCodeKeywords || hasCodeTokens) &&
      ((bareExpressionPosition && expressionTerminator) ||
        loopExpressionPosition || methodCallPosition)

def isValidDomainMatch (engine : Engine) (text : Text)
    (start finish : Nat) : Bool :=
  let value := slice text start finish
  if !isValidDomain engine value then
    false
  else
    let previous := (slice text 0 start).getLast?
    let next := (slice text finish (byteLen text)).head?
    if previous == some '/' || previous == some '\\' || next == some '/' ||
        next == some '\\' then
      false
    else
      !looksLikeFileName value && !isCodeLikeDomainContext text start finish

def parseBoundedU8 (value : Text) (least greatest : Nat) : Option Nat :=
  if value.isEmpty || !value.all isAsciiDigit then
    none
  else
    (parseUnsigned 255 value).filter fun parsed =>
      least ≤ parsed && parsed ≤ greatest

def isTimeLike (value : Text) : Bool :=
  let trimmed := trim value
  if trimmed.isEmpty then
    false
  else if trimmed.all isAsciiDigit then
    (parseBoundedU8 trimmed 0 23).isSome
  else
    match trimmed.splitOn ':' with
    | [hour, minute] =>
        (parseBoundedU8 hour 0 23).isSome &&
          (parseBoundedU8 minute 0 59).isSome
    | [hour, minute, second] =>
        (parseBoundedU8 hour 0 23).isSome &&
          (parseBoundedU8 minute 0 59).isSome &&
          (parseBoundedU8 second 0 59).isSome
    | _ => false

def isDateLikeWith (delimiter : Char) (value : Text) : Bool :=
  match value.splitOn delimiter with
  | [year, month, day] =>
      byteLen year == 4 && year.all isAsciiDigit &&
        (parseBoundedU8 month 1 12).isSome &&
        (parseBoundedU8 day 1 31).isSome
  | _ => false

def isDateLike (value : Text) : Bool :=
  if value.contains '-' then
    isDateLikeWith '-' value
  else if value.contains '/' then
    isDateLikeWith '/' value
  else
    false

/-- The date, and the time when there is one. -/
def splitDateTime (value : Text) : Text × Option Text :=
  match splitOnce 'T' value with
  | some (datePart, timePart) => (trim datePart, some (trim timePart))
  | none =>
      match splitOnce ' ' value with
      | some (datePart, timePart) => (trim datePart, some (trim timePart))
      | none => (trim value, none)

def looksLikeDateTime (value : Text) : Bool :=
  let (datePart, timePart) := splitDateTime value
  isDateLike datePart && (timePart.all isTimeLike)

def isValidPhone (value : Text) : Bool :=
  let trimmed := trim value
  if trimmed.isEmpty || looksLikeDateTime trimmed then
    false
  else
    let digits := (trimmed.filter isAsciiDigit).length
    if digits < 7 || 15 < digits then
      false
    else
      !trimmed.all isAsciiDigit || decide (digits ≤ 11)

/-! ## The recursion between domains and addresses -/

/-- The two validators call each other on shorter texts only. -/
theorem isValidDomainWithin_eq (engine : Engine) {fuel other : Nat}
    {value : Text} (enough : value.length < fuel)
    (enoughOther : value.length < other) :
    isValidDomainWithin engine fuel value =
      isValidDomainWithin engine other value := by
  induction fuel generalizing other value with
  | zero =>
      omega
  | succ fuel inductionHypothesis =>
      cases other with
      | zero =>
          omega
      | succ other =>
          have sameEmail :
              isValidEmailWith (isValidDomainWithin engine fuel) value =
                isValidEmailWith (isValidDomainWithin engine other)
                  value := by
            unfold isValidEmailWith
            cases split : splitOnce '@' value with
            | none =>
                rfl
            | some parts =>
                have shorter := length_lt_of_splitOnce split
                have sameDomain :
                    isValidDomainWithin engine fuel parts.2 =
                      isValidDomainWithin engine other parts.2 := by
                  apply inductionHypothesis <;> omega
                simp only [sameDomain]
          simp only [isValidDomainWithin, sameEmail]

/-- `is_valid_domain` as the source has it. -/
theorem isValidDomain_eq (engine : Engine) (value : Text) :
    isValidDomain engine value =
      if isValidEmail engine value || contains value (lit "://") ||
          (parseIpAddress value).isSome then
        false
      else
        hasHostLabels engine value := by
  have sameEmail :
      isValidEmailWith (isValidDomainWithin engine value.length) value =
        isValidEmail engine value := by
    unfold isValidEmail isValidEmailWith
    cases split : splitOnce '@' value with
    | none =>
        rfl
    | some parts =>
        have shorter := length_lt_of_splitOnce split
        have sameDomain :
            isValidDomainWithin engine value.length parts.2 =
              isValidDomain engine parts.2 :=
          isValidDomainWithin_eq engine shorter (Nat.lt_succ_self _)
        simp only [sameDomain]
  rw [isValidDomain, isValidDomainWithin, sameEmail]

/-- The calls leave no choice: whatever answers them as the source does is
`isValidDomain`, so what stands for a lack of fuel does not matter. -/
theorem eq_isValidDomain_of_calls (engine : Engine)
    {validDomain : Text → Bool}
    (calls :
      ∀ value,
        validDomain value =
          if isValidEmailWith validDomain value ||
              contains value (lit "://") || (parseIpAddress value).isSome then
            false
          else
            hasHostLabels engine value) :
    validDomain = isValidDomain engine := by
  funext value
  induction isLength : value.length using Nat.strongRecOn
    generalizing value with
  | ind length inductionHypothesis =>
      have sameEmail :
          isValidEmailWith validDomain value = isValidEmail engine value := by
        unfold isValidEmail isValidEmailWith
        cases split : splitOnce '@' value with
        | none =>
            rfl
        | some parts =>
            have shorter := length_lt_of_splitOnce split
            rw [isLength] at shorter
            simp only [inductionHypothesis _ shorter parts.2 rfl]
      rw [calls, isValidDomain_eq, sameEmail]

theorem separator_not_mem {localPart : Text}
    (accepted : localPart.all isEmailLocal = true) : '@' ∉ localPart := by
  intro member
  exact absurd (List.all_eq_true.mp accepted '@' member) (by decide)

/-- An address is split at its only separator. -/
theorem isValidEmailWith_append {validDomain : Text → Bool}
    {localPart domain : Text}
    (accepted : localPart.all isEmailLocal = true) :
    isValidEmailWith validDomain (localPart ++ '@' :: domain) = true ↔
      localPart ≠ [] ∧ domain ≠ [] ∧ endsWith domain ['.'] = false ∧
        validDomain domain = true := by
  have split :
      splitOnce '@' (localPart ++ '@' :: domain) =
        some (localPart, domain) := by
    apply dropInfix?_eq_some_iff_notBefore.mpr
    exact ⟨rfl, notBefore_of_not_mem (separator_not_mem accepted)⟩
  simp only [isValidEmailWith, split]
  by_cases noLocal : localPart = []
  · simp [noLocal]
  · by_cases noDomain : domain = []
    · simp [noDomain]
    · simp [noLocal, noDomain, accepted]

theorem isValidEmailWith_iff {validDomain : Text → Bool} {value : Text} :
    isValidEmailWith validDomain value = true ↔
      ∃ localPart domain, value = localPart ++ '@' :: domain ∧
        localPart.all isEmailLocal = true ∧ localPart ≠ [] ∧
        domain ≠ [] ∧ endsWith domain ['.'] = false ∧
        validDomain domain = true := by
  constructor
  · intro valid
    cases split : splitOnce '@' value with
    | none =>
        simp [isValidEmailWith, split] at valid
    | some parts =>
        obtain ⟨localPart, domain⟩ := parts
        have accepted : localPart.all isEmailLocal = true := by
          by_contra refused
          rw [Bool.not_eq_true] at refused
          simp only [isValidEmailWith, split, refused, Bool.not_false,
            if_true, ite_self, Bool.false_eq_true] at valid
        obtain ⟨rfl, _⟩ := dropInfix?_eq_some_iff_notBefore.mp split
        exact ⟨localPart, domain, rfl, accepted,
          (isValidEmailWith_append accepted).mp valid⟩
  · rintro ⟨localPart, domain, rfl, accepted, parts⟩
    exact (isValidEmailWith_append accepted).mpr parts

end Redactor
