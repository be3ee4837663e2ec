import Redactor.Types
import Redactor.Library.Characters
import Redactor.Library.IpAddress

/-!
# Display hints

The hint that stands beside a token for a reader of the redacted text: an
alias of the same form as the original, or the name of its kind.
-/

namespace Redactor

open Utf8

/-- What the crate takes from outside: the SHA-256 digest written in
hexadecimal, the readers of URLs and of address blocks, and whether the build
checks integer overflow. -/
structure Runtime where
  sha256Hex : Text → Text
  sha256Hex_length : ∀ text, (sha256Hex text).length = 64
  sha256Hex_isHex :
    ∀ text, ∀ head ∈ sha256Hex text, head ∈ lit "0123456789abcdef"
  /-- The host of a URL, when the text is one and has a host. -/
  urlHost? : Text → Option Text
  /-- The URL with another host. -/
  urlWithHost? : Text → Text → Option Text
  /-- Network address and prefix length of an address block. -/
  ipNet? : Text → Option (IpAddress × Nat)
  overflowChecks : Bool

section Aliases

variable (runtime : Runtime)

def stableDomainAlias (value : Text) : Text :=
  match value.splitOn '.' with
  | first :: _ :: _ :: _ => first ++ lit ".example.com"
  | [_, _] => lit "example.com"
  | _ => lit "example.invalid"

def sanitizeLabel (value : Text) : Text :=
  asciiLowercase
    (trimMatches (· == '-')
      (value.map fun head =>
        if isAsciiAlphanumeric head || head == '.' || head == '_' ||
            head == '-' then
          head
        else
          '-'))

def stableEmailAlias (value : Text) : Text :=
  let label := sanitizeLabel ((value.splitOn '@').headD (lit "user"))
  if label = [] then
    lit "user@example.com"
  else
    label ++ lit "@example.com"

/-- The first six bytes of the digest. -/
def shortDigest (value : Text) : Text :=
  (runtime.sha256Hex value).take 12

def stableUrlAlias (value : Text) : Text :=
  match
    (runtime.urlHost? value).bind fun host =>
      runtime.urlWithHost? value (stableDomainAlias host)
  with
  | some url => url
  | none => lit "https://example.com/redacted/" ++ shortDigest runtime value

/-- Hexadecimal digits without leading zeros. -/
def hexNumeral (value : Nat) : Text := Nat.toDigits 16 value

def stableIpAlias (value : Text) : Text :=
  match runtime.ipNet? value with
  | some (.v4 octets, prefixLength) =>
      lit "198.51.100." ++ numeral (octets[3].toNat % 200 + 1) ++ lit "/" ++
        numeral prefixLength
  | some (.v6 segments, prefixLength) =>
      lit "2001:db8::" ++ hexNumeral segments[7].toNat ++ lit "/" ++
        numeral prefixLength
  | none =>
      match parseIpAddress value with
      | some (.v4 octets) =>
          lit "198.51.100." ++ numeral (octets[3].toNat % 200 + 1)
      | some (.v6 segments) =>
          -- a run of zero groups up to the end is not followed by a group
          if segments[7] = 0 then
            lit "2001:db8::"
          else
            lit "2001:db8::" ++ hexNumeral segments[7].toNat
      | none =>
          let first := ((shortDigest runtime value).headD '0').toNat
          lit "198.51.100." ++ numeral (first % 200 + 1)

def stablePhoneAlias (value : Text) : Text :=
  let digits := (value.filter isAsciiDigit).length
  if 11 ≤ digits then lit "15500000000"
  else if 7 ≤ digits then lit "555-0000"
  else lit "000-0000"

def displayHint (finding : Finding) : Option Text :=
  let named := lit "<" ++ finding.kind.label ++ lit ">"
  some
    (match finding.kind with
    | .secret | .person | .organization => named
    | .domain => stableDomainAlias finding.matchText
    | .email => stableEmailAlias finding.matchText
    | .url => stableUrlAlias runtime finding.matchText
    | .ip | .cidr => stableIpAlias runtime finding.matchText
    | .phone => stablePhoneAlias finding.matchText
    | .customString => named
    | .customFile => named)

end Aliases

end Redactor
