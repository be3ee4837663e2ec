import Redactor.Library.Lines

/-!
# Searching and cutting texts

What string processing asks of a text beyond its lines: the characters with
their byte offsets, the parts around a separator, and the occurrences of a
needle.
-/

namespace Utf8

def isAsciiUppercase (head : Char) : Bool :=
  'A' ≤ head && head ≤ 'Z'

def isAsciiLowercase (head : Char) : Bool :=
  'a' ≤ head && head ≤ 'z'

def endsWith (text ending : Text) : Bool :=
  ending.isSuffixOf text

theorem endsWith_singleton {text : Text} {head : Char} :
    endsWith text [head] = true ↔ text.getLast? = some head := by
  rw [← List.head?_reverse]
  exact startsWith_singleton

def trimStart (text : Text) : Text :=
  trimStartMatches isWhitespace text

def trimEnd (text : Text) : Text :=
  trimEndMatches isWhitespace text

/-- The characters with their byte offsets, the first at `offset`. -/
def charIndicesFrom : Nat → Text → List (Nat × Char)
  | _, [] => []
  | offset, head :: tail =>
      (offset, head) :: charIndicesFrom (offset + head.utf8Size) tail

def charIndices (text : Text) : List (Nat × Char) :=
  charIndicesFrom 0 text

/-- The parts before and after the first separator. -/
def splitOnce (separator : Char) (text : Text) : Option (Text × Text) :=
  text.dropInfix? [separator]

/-- The parts before and after the last separator. -/
def rsplitOnce (separator : Char) (text : Text) : Option (Text × Text) :=
  (text.reverse.dropInfix? [separator]).map fun parts =>
    (parts.2.reverse, parts.1.reverse)

/-- Byte offset of the last separator. -/
def rfind? (text : Text) (separator : Char) : Option Nat :=
  (rsplitOnce separator text).map fun parts => byteLen parts.1

theorem rfind?_eq_some {text : Text} {separator : Char} {offset : Nat}
    (found : rfind? text separator = some offset) :
    ∃ before after, text = before ++ separator :: after ∧
      byteLen before = offset := by
  obtain ⟨parts, cut, size⟩ := Option.map_eq_some_iff.mp found
  obtain ⟨reversed, split, sides⟩ := Option.map_eq_some_iff.mp cut
  have shape := (dropInfix?_eq_some_iff_notBefore.mp split).1
  refine ⟨reversed.2.reverse, reversed.1.reverse, ?_, ?_⟩
  · have restored := congrArg List.reverse shape
    simpa using restored
  · rw [← size, ← sides]

theorem find?_eq_some {text needle : Text} {offset : Nat}
    (found : find? text needle = some offset) :
    ∃ before after, text = before ++ (needle ++ after) ∧
      byteLen before = offset := by
  obtain ⟨parts, cut, size⟩ := Option.map_eq_some_iff.mp found
  exact ⟨parts.1, parts.2, (dropInfix?_eq_some_iff_notBefore.mp cut).1, size⟩

theorem find?_self_append (needle rest : Text) :
    find? (needle ++ rest) needle = some 0 := by
  have cut : (needle ++ rest).dropInfix? needle = some ([], rest) :=
    dropInfix?_eq_some_iff_notBefore.mpr ⟨rfl, notBefore_zero _ _⟩
  rw [find?, cut]
  rfl

/-- Offsets of occurrences that do not overlap, from the left; `fuel` bounds
their number. -/
def matchIndicesFrom (needle : Text) : Nat → Nat → Text → List Nat
  | 0, _, _ => []
  | fuel + 1, offset, text =>
      match text.dropInfix? needle with
      | none => []
      | some (before, after) =>
          (offset + byteLen before) ::
            matchIndicesFrom needle fuel
              (offset + byteLen before + byteLen needle) after

def matchIndices (text needle : Text) : List Nat :=
  if needle = [] then
    (charIndices text).map Prod.fst ++ [byteLen text]
  else
    matchIndicesFrom needle text.length 0 text

theorem length_lt_of_splitOnce {separator : Char} {text before after : Text}
    (split : splitOnce separator text = some (before, after)) :
    after.length < text.length := by
  obtain ⟨shape, _⟩ := dropInfix?_eq_some_iff_notBefore.mp split
  rw [shape]
  simp
  omega

end Utf8
