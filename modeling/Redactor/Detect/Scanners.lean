import Redactor.Detect.Validators

/-!
# Scanners

The detectors that look for one form of value: by a pattern, or by scanning the
characters of the text.
-/

namespace Redactor

open Utf8

/-- A finding of the rules. -/
def ruleFinding (kind : FindingKind) (matchText normalizedKey : Text)
    (confidence start finish : Nat) : Finding where
  kind := kind
  source := .rule
  matchText := matchText
  normalizedKey := normalizedKey
  confidence := confidence
  start := start
  finish := finish

def detectPattern (engine : Engine) (text pattern : Text)
    (kind : FindingKind) (confidence : Nat) (validator : Text → Bool) :
    List Finding :=
  (engine.findIter pattern text).filterMap fun found =>
    let value := found.asText text
    if validator value then
      some (ruleFinding kind value (normalize kind value) confidence
        found.start found.finish)
    else
      none

/-- The loop of `expand_left` over the characters before `index`, the nearest
first. -/
def expandLeftOver (predicate : Char → Bool) : Nat → Text → Nat
  | index, [] => index
  | index, head :: tail =>
      if predicate head then
        expandLeftOver predicate (index - head.utf8Size) tail
      else
        index

def expandLeft (text : Text) (index : Nat) (predicate : Char → Bool) : Nat :=
  expandLeftOver predicate index (slice text 0 index).reverse

/-- The loop of `expand_right` over the characters from `index` on. -/
def expandRightOver (predicate : Char → Bool) : Nat → Text → Nat
  | index, [] => index
  | index, head :: tail =>
      if predicate head then
        expandRightOver predicate (index + head.utf8Size) tail
      else
        index

def expandRight (text : Text) (index : Nat) (predicate : Char → Bool) :
    Nat :=
  expandRightOver predicate index (slice text index (byteLen text))

/-- The address around the separator at byte `index`. -/
def emailAround (engine : Engine) (text : Text) (index : Nat) (head : Char) :
    Option Finding :=
  let start := expandLeft text index isEmailLocal
  let finish := expandRight text (index + head.utf8Size) isEmailDomain
  if finish ≤ start ∨ finish - start < 5 then
    none
  else
    let value := slice text start finish
    if isValidEmail engine value then
      some (ruleFinding .email value (normalize .email value) 98 start finish)
    else
      none

def detectEmails (engine : Engine) (text : Text) : List Finding :=
  (charIndices text).filterMap fun (index, head) =>
    if head == '@' then emailAround engine text index head else none

/-- The characters that a phone number may go on with, from the first one on:
the number of digits among them, and what follows them. -/
def phoneSegment : Bool → List (Nat × Char) → Nat × List (Nat × Char)
  | _, [] => (0, [])
  | first, (offset, current) :: rest =>
      if current == '+' && first then
        phoneSegment false rest
      else if isAsciiDigit current then
        let (digitCount, after) := phoneSegment false rest
        (digitCount + 1, after)
      else if current == ' ' || current == '\t' || current == '(' ||
          current == ')' || current == '.' || current == '-' then
        phoneSegment false rest
      else
        (0, (offset, current) :: rest)

/-- The phone number in a segment with enough digits. -/
def phoneIn (text : Text) (startByte endByte : Nat) : Option Finding :=
  let segment := slice text startByte endByte
  let value := trim segment
  if isValidPhone value then
    let leadingTrim := (find? segment value).getD 0
    let start := startByte + leadingTrim
    let finish := start + byteLen value
    let previous := (slice text 0 start).getLast?
    let next := (slice text finish (byteLen text)).head?
    if previous.any isAsciiAlphanumeric || next.any isAsciiAlphanumeric then
      none
    else
      some (ruleFinding .phone value (normalize .phone value) 80 start finish)
  else
    none

/-- The loop over the characters; a segment has at least the character that
opens it. -/
def detectPhonesFrom (text : Text) : Nat → List (Nat × Char) → List Finding
  | 0, _ => []
  | _, [] => []
  | fuel + 1, (startByte, head) :: rest =>
      if !isAsciiDigit head && head != '+' then
        detectPhonesFrom text fuel rest
      else
        let (digitCount, after) := phoneSegment true ((startByte, head) :: rest)
        let endByte := (after.head?.map Prod.fst).getD (byteLen text)
        let found :=
          if 7 ≤ digitCount then phoneIn text startByte endByte else none
        found.toList ++ detectPhonesFrom text fuel after

def detectPhones (text : Text) : List Finding :=
  detectPhonesFrom text text.length (charIndices text)

def detectDomains (engine : Engine) (text : Text) : List Finding :=
  (engine.findIter domainPattern text).filterMap fun found =>
    if isValidDomainMatch engine text found.start found.finish then
      let value := found.asText text
      some (ruleFinding .domain value (normalize .domain value) 76
        found.start found.finish)
    else
      none

end Redactor
