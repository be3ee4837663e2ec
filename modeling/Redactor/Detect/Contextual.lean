import Redactor.Detect.Scanners

/-!
# Values in context

Assignments whose key says what the value is, and the repetitions of the
secrets that were found so.
-/

namespace Redactor

open Utf8

def contextualSecretKind (engine : Engine) (value rawValue : Text)
    (separator : Char) : Option FindingKind :=
  if looksLikeSecret value then
    some .secret
  else if separator == ':' &&
      (isLikelyCodeExpression engine rawValue ||
        !isPlainConfigValue engine rawValue) then
    none
  else if separator == '=' && isPlainConfigValue engine rawValue &&
      !isLikelyCodeExpression engine rawValue then
    some .secret
  else
    none

/-- The words in a key that announce a secret. -/
def secretKeyWords : List Text :=
  [lit "secret", lit "token", lit "password", lit "passwd", lit "api_key",
    lit "apikey", lit "private_key"]

def contextualKind (engine : Engine) (key value rawValue : Text)
    (separator : Char) (rules : RedactionRules) : Option FindingKind :=
  let lower := asciiLowercase key
  if rules.secret && secretKeyWords.any (contains lower) then
    contextualSecretKind engine value rawValue separator
  else if rules.email && contains lower (lit "email") &&
      isValidEmail engine value then
    some .email
  else if rules.domain &&
      (contains lower (lit "domain") || contains lower (lit "host")) &&
      isPlainConfigValue engine rawValue && isValidDomain engine value then
    some .domain
  else if rules.url && contains lower (lit "url") &&
      engine.isMatch urlPattern value then
    some .url
  else if rules.phone && contains lower (lit "phone") &&
      isValidPhone value then
    some .phone
  else if rules.person && contains lower (lit "name") &&
      decide (2 ≤ (splitWhitespace value).length) then
    some .person
  else if rules.secret && looksLikeSecret value then
    some .secret
  else
    none

/-- The finding of one assignment in the line at byte `offset`. -/
def assignmentFinding (engine : Engine) (rules : RedactionRules)
    (offset : Nat) (line : Text) (captures : Text → Option RegexMatch) :
    Option Finding := do
  let keyMatch ← captures (lit "key")
  let valueMatch ← captures (lit "value")
  let separatorMatch ← captures (lit "separator")
  let key := keyMatch.asText line
  let rawValue := trim (valueMatch.asText line)
  let value := trimWrapped rawValue
  if value.isEmpty then
    none
  else
    let separator := (separatorMatch.asText line).headD '='
    let kind ← contextualKind engine key value rawValue separator rules
    let valueStart :=
      valueMatch.start + (find? (valueMatch.asText line) value).getD 0
    let valueEnd := valueStart + byteLen value
    some (ruleFinding kind value (normalize kind value) 99
      (offset + valueStart) (offset + valueEnd))

/-- The loop over the lines, the first at byte `offset`. -/
def contextualAssignmentsFrom (engine : Engine) (rules : RedactionRules) :
    Nat → List Text → List Finding
  | _, [] => []
  | offset, line :: lines =>
      (engine.capturesIter assignmentPattern line).filterMap
          (assignmentFinding engine rules offset line) ++
        contextualAssignmentsFrom engine rules (offset + byteLen line) lines

def detectContextualAssignments (engine : Engine) (text : Text)
    (rules : RedactionRules) : List Finding :=
  contextualAssignmentsFrom engine rules 0 (splitInclusive '\n' text)

/-- The values of the secrets, each once, with the key of the first. -/
def repeatedSecrets : List Text → List Finding → List (Text × Text)
  | _, [] => []
  | seen, finding :: findings =>
      if finding.kind = .secret ∧ finding.matchText ∉ seen then
        (finding.matchText, finding.normalizedKey) ::
          repeatedSecrets (finding.matchText :: seen) findings
      else
        repeatedSecrets seen findings

/-- The ranges that are known, and the findings with those added. -/
structure Propagation where
  known : List (Nat × Nat)
  findings : List Finding

def Propagation.add (progress : Propagation) (matchText normalizedKey : Text)
    (start : Nat) : Propagation :=
  let finish := start + byteLen matchText
  if (start, finish) ∈ progress.known then
    progress
  else
    { known := (start, finish) :: progress.known
      findings :=
        progress.findings ++
          [ruleFinding .secret matchText normalizedKey 95 start finish] }

def propagateRepeatedSecrets (text : Text) (findings : List Finding) :
    List Finding :=
  let start : Propagation :=
    { known := findings.map fun finding => (finding.start, finding.finish)
      findings }
  ((repeatedSecrets [] findings).foldl
    (fun progress secret =>
      (matchIndices text secret.1).foldl
        (fun progress start => progress.add secret.1 secret.2 start)
        progress)
    start).findings

end Redactor
