/-!
# Sets of characters

A set of characters is given by the ranges of its code points. The sets that a standard
defines are tables of this kind, and `Ranges.has` reads them.
-/

namespace Lox

/-- Ranges of code points, in ascending order, each with its first and its last. -/
abbrev Ranges := List (Nat × Nat)

/-- Whether a character lies in one of the ranges. -/
def Ranges.has (ranges : Ranges) (c : Char) : Bool :=
  ranges.any fun (first, last) => first ≤ c.toNat && c.toNat ≤ last

end Lox
