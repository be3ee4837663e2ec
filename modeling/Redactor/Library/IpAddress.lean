import Redactor.Library.Numerals

/-!
# Internet addresses in texts

Reading an address of either family.  A reader takes what it needs from the
front of a text and returns the rest.  Dotted groups are decimal, without
leading zeros; groups between colons are hexadecimal, with at most one `::` and
possibly a dotted address in the place of the last two groups.
-/

namespace Utf8

inductive IpAddress where
  | v4 (octets : Vector UInt8 4)
  | v6 (segments : Vector UInt16 8)
  deriving DecidableEq, Repr

namespace IpAddress

/-- The address whose bits are all zero. -/
def isUnspecified : IpAddress → Bool
  | .v4 octets => octets == Vector.replicate 4 0
  | .v6 segments => segments == Vector.replicate 8 0

end IpAddress

/-- Value of a digit in bases up to sixteen. -/
def digitValue? (radix : Nat) (head : Char) : Option Nat :=
  let value :=
    if '0' ≤ head && head ≤ '9' then some (head.toNat - '0'.toNat)
    else if 'a' ≤ head && head ≤ 'f' then
      some (head.toNat - 'a'.toNat + 10)
    else if 'A' ≤ head && head ≤ 'F' then
      some (head.toNat - 'A'.toNat + 10)
    else none
  value.filter fun digit => digit < radix

/-- Read a number of one to `maxDigits` digits that is below `bound`. -/
def readNumber (radix maxDigits bound : Nat) (allowZeroPrefix : Bool)
    (text : Text) : Option (Nat × Text) :=
  let digits := text.takeWhile fun head => (digitValue? radix head).isSome
  let value :=
    (digits.filterMap (digitValue? radix)).foldl
      (fun value digit => value * radix + digit) 0
  if digits = [] ∨ maxDigits < digits.length then
    none
  else if allowZeroPrefix = false ∧ text.head? = some '0' ∧
      1 < digits.length then
    none
  else if value < bound then
    some (value, text.drop digits.length)
  else
    none

/-- Every group but the first follows a separator. -/
def readSeparator (separator : Char) (index : Nat) (text : Text) :
    Option Text :=
  if index = 0 then
    some text
  else
    match text with
    | [] => none
    | head :: tail => if head = separator then some tail else none

/-- Read the `count` dotted groups from group `index` on. -/
def readOctets (index : Nat) : Nat → Text → Option (List Nat × Text)
  | 0, text => some ([], text)
  | count + 1, text => do
      let text ← readSeparator '.' index text
      let (octet, text) ← readNumber 10 3 256 false text
      let (octets, text) ← readOctets (index + 1) count text
      pure (octet :: octets, text)

def readIpv4Addr (text : Text) : Option (List Nat × Text) :=
  readOctets 0 4 text

/-- Read groups between colons, as many as there are up to `limit` in all; the
flag says that the last two came from a dotted address. -/
def readGroups (index : Nat) : Nat → Text → List Nat × Bool × Text
  | 0, text => ([], false, text)
  | remaining + 1, text =>
      -- a dotted address takes the place of two groups
      let dotted :=
        if remaining = 0 then none
        else (readSeparator ':' index text).bind readIpv4Addr
      match dotted with
      | some ([first, second, third, fourth], text) =>
          ([first * 256 + second, third * 256 + fourth], true, text)
      | _ =>
          match
            (readSeparator ':' index text).bind
              (readNumber 16 4 65536 true)
          with
          | none => ([], false, text)
          | some (group, text) =>
              let rest := readGroups (index + 1) remaining text
              (group :: rest.1, rest.2)

def readIpv6Addr (text : Text) : Option (List Nat × Text) := do
  let (front, dotted, text) := readGroups 0 8 text
  if front.length = 8 then
    pure (front, text)
  else if dotted then
    none
  else
    match text with
    | ':' :: ':' :: text =>
        let (back, _, text) := readGroups 0 (7 - front.length) text
        let zeros := List.replicate (8 - front.length - back.length) 0
        pure (front ++ zeros ++ back, text)
    | _ => none

/-- The list as a vector, when it has the right length. -/
def vectorOfList? {α : Type} (length : Nat) (items : List α) :
    Option (Vector α length) :=
  if fits : items.length = length then
    some ⟨items.toArray, by simpa using fits⟩
  else
    none

/-- An address, with nothing left over. -/
def parseIpAddress (text : Text) : Option IpAddress :=
  match readIpv4Addr text with
  | some (octets, []) =>
      (vectorOfList? 4 (octets.map UInt8.ofNat)).map .v4
  | some _ => none
  | none =>
      match readIpv6Addr text with
      | some (segments, []) =>
          (vectorOfList? 8 (segments.map UInt16.ofNat)).map .v6
      | _ => none

example :
    parseIpAddress (lit "::ffff:1.2.3.4") =
      some (.v6 #v[0, 0, 0, 0, 0, 0xffff, 0x102, 0x304]) := by
  decide

end Utf8
