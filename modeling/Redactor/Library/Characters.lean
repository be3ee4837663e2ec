import Redactor.Library.Utf8
import Mathlib.Data.List.DropRight

/-!
# Character classes and trimming

The classes of characters that text processing asks for, with the ASCII case
mapping, and trimming at both ends.
-/

namespace Utf8

def isAsciiLetter (head : Char) : Bool :=
  ('a' ≤ head && head ≤ 'z') || ('A' ≤ head && head ≤ 'Z')

def isAsciiDigit (head : Char) : Bool :=
  '0' ≤ head && head ≤ '9'

def isAsciiAlphanumeric (head : Char) : Bool :=
  isAsciiLetter head || isAsciiDigit head

def toAsciiLower (head : Char) : Char :=
  if 'A' ≤ head && head ≤ 'Z' then Char.ofNat (head.toNat + 32) else head

def asciiLowercase (text : Text) : Text :=
  text.map toAsciiLower

/-- The characters with the Unicode property `White_Space`. -/
def isWhitespace (head : Char) : Bool :=
  let point := head.toNat
  (0x09 ≤ point && point ≤ 0x0d) || point == 0x20 || point == 0x85 ||
    point == 0xa0 || point == 0x1680 ||
    (0x2000 ≤ point && point ≤ 0x200a) || point == 0x2028 ||
    point == 0x2029 || point == 0x202f || point == 0x205f || point == 0x3000

def trimStartMatches (matching : Char → Bool) (text : Text) : Text :=
  text.dropWhile matching

def trimEndMatches (matching : Char → Bool) (text : Text) : Text :=
  text.rdropWhile matching

def trimMatches (matching : Char → Bool) (text : Text) : Text :=
  trimEndMatches matching (trimStartMatches matching text)

def trim (text : Text) : Text :=
  trimMatches isWhitespace text

end Utf8
