import Redactor.Library.Slices

/-!
# Texts with some of their ranges replaced

Ranges of a text that follow one another can be replaced in a single pass: the
parts between them are copied, and each range makes way for the text that
replaces it.
-/

namespace Utf8

variable {text : Text} {cursor : Nat} {range : Nat × Nat}
  {ranges : List (Nat × Nat)}

/-- The text from byte `cursor` on, with every range replaced. -/
def replaceFrom (replace : Text → Text) (text : Text) :
    Nat → List (Nat × Nat) → Text
  | cursor, [] => slice text cursor (byteLen text)
  | cursor, range :: ranges =>
      slice text cursor range.1 ++
        (replace (slice text range.1 range.2) ++
          replaceFrom replace text range.2 ranges)

/-- The ranges from byte `cursor` on are not empty and follow one another at
character boundaries. -/
structure FollowFrom (text : Text) (cursor : Nat)
    (ranges : List (Nat × Nat)) : Prop where
  boundary : IsCharBoundary text cursor
  starts : ∀ range ∈ ranges, IsCharBoundary text range.1
  finishes : ∀ range ∈ ranges, IsCharBoundary text range.2
  proper : ∀ range ∈ ranges, range.1 < range.2
  begun : ∀ range ∈ ranges, cursor ≤ range.1
  follow : ranges.Pairwise fun left right => left.2 ≤ right.1

namespace FollowFrom

theorem tail (ordered : FollowFrom text cursor (range :: ranges)) :
    FollowFrom text range.2 ranges where
  boundary := ordered.finishes range List.mem_cons_self
  starts := fun other member =>
    ordered.starts other (List.mem_cons_of_mem range member)
  finishes := fun other member =>
    ordered.finishes other (List.mem_cons_of_mem range member)
  proper := fun other member =>
    ordered.proper other (List.mem_cons_of_mem range member)
  begun := (List.pairwise_cons.mp ordered.follow).1
  follow := (List.pairwise_cons.mp ordered.follow).2

/-- The ranges end inside the text. -/
theorem inside (ordered : FollowFrom text cursor ranges)
    (member : range ∈ ranges) : range.2 ≤ byteLen text :=
  (ordered.finishes range member).le_byteLen

end FollowFrom

end Utf8
