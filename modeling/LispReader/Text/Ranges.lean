/-!
# Ranges of code points

A class of characters given as closed ranges, first and last code point.
-/

namespace LispReader.Text

def inRanges (ranges : List (Nat × Nat)) (c : Char) : Bool :=
  ranges.any fun (first, last) => first ≤ c.toNat && c.toNat ≤ last

end LispReader.Text
