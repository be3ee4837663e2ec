import Redactor.Library.Scanning

/-!
# What detection takes from outside

Regular expressions and the list of public suffixes.  An expression is named by
its pattern.  The laws are those that the regular expression library documents:
matches come from the left, do not overlap and lie on character boundaries, and
a set matches with an expression when the expression matches alone.
-/

namespace Redactor

open Utf8

/-- Byte offsets of a match. -/
structure RegexMatch where
  start : Nat
  finish : Nat
  deriving DecidableEq, Repr

/-- The text of a match. -/
def RegexMatch.asText (found : RegexMatch) (text : Text) : Text :=
  slice text found.start found.finish

/-- A match in this text. -/
structure RegexMatch.Inside (found : RegexMatch) (text : Text) : Prop where
  ordered : found.start ≤ found.finish
  start : IsCharBoundary text found.start
  finish : IsCharBoundary text found.finish

structure Engine where
  /-- The message with which a pattern is refused. -/
  compileError : Text → Option Text
  /-- The message with which a set of patterns is refused. -/
  compileSetError : List Text → Option Text
  escape : Text → Text
  findIter : Text → Text → List RegexMatch
  findIter_inside :
    ∀ pattern text, ∀ found ∈ findIter pattern text, found.Inside text
  findIter_pairwise :
    ∀ pattern text,
      (findIter pattern text).Pairwise fun left right =>
        left.finish ≤ right.start
  /-- The named groups of every match. -/
  capturesIter : Text → Text → List (Text → Option RegexMatch)
  capturesIter_inside :
    ∀ pattern text, ∀ captures ∈ capturesIter pattern text,
      ∀ name, ∀ found ∈ captures name, found.Inside text
  /-- The positions in the set of the patterns that match. -/
  setMatches : List Text → Text → List Nat
  setMatches_eq :
    ∀ patterns text,
      setMatches patterns text =
        (List.range patterns.length).filter fun index =>
          !(findIter (patterns.getD index []) text).isEmpty
  /-- The text ends in a suffix of the public suffix list. -/
  hasKnownSuffix : Text → Bool

def Engine.isMatch (engine : Engine) (pattern text : Text) : Bool :=
  !(engine.findIter pattern text).isEmpty

def assignmentPattern : Text :=
  lit "^\\s*(?:-\\s*)?(?P<key>[A-Za-z_][A-Za-z0-9_.-]*)\\s*" ++
    lit "(?P<separator>[:=])\\s*(?P<value>[^\\n#]+?)\\s*$"

def urlPattern : Text :=
  lit "\\bhttps?://[^\\s'\"<>]+"

def cidrPattern : Text :=
  lit "\\b(?:\\d\x7b1,3\x7d\\.)\x7b3\x7d\\d\x7b1,3\x7d/\\d\x7b1,2\x7d\\b" ++
    lit "|\\b[0-9A-Fa-f:]+/[0-9]\x7b1,3\x7d\\b"

def ipPattern : Text :=
  lit "\\b(?:\\d\x7b1,3\x7d\\.)\x7b3\x7d\\d\x7b1,3\x7d\\b" ++
    lit "|\\b(?:[0-9A-Fa-f]\x7b0,4\x7d:)\x7b2,7\x7d[0-9A-Fa-f]\x7b0,4\x7d\\b"

def domainPattern : Text :=
  lit "\\b(?:[A-Za-z0-9](?:[A-Za-z0-9-]\x7b0,61\x7d[A-Za-z0-9])?\\.)+" ++
    lit "[A-Za-z]\x7b2,63\x7d\\b"

def secretPattern : Text :=
  lit "\\b[A-Za-z0-9_+\\-/]\x7b20,128\x7d\\b"

end Redactor
