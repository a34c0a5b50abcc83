/-!
# Ranges of code points
-/

namespace Repoint.Unicode

/-- The first and the last code point of a range. -/
abbrev Range := Nat × Nat

/-- One of the ranges holds the character. -/
def holds (ranges : List Range) (c : Char) : Bool :=
  ranges.any fun (first, last) => first ≤ c.toNat && c.toNat ≤ last

end Repoint.Unicode
