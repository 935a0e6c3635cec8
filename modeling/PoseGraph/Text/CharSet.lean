/-!
Sets of characters, given by the code points at which membership changes.

The bounds are sorted: from the first to the second is inside, from the second to the third outside,
and so on. Tables of the Unicode character database have this form.
-/

namespace PoseGraph

/-- A set of characters. -/
structure CharSet where
  /-- The sorted code points at which membership changes, beginning with the first member. -/
  bounds : List Nat

namespace CharSet

/-- A character is inside when an odd number of bounds are not above it. -/
def contains (s : CharSet) (c : Char) : Bool :=
  (s.bounds.takeWhile (· ≤ c.toNat)).length % 2 == 1

/-- The characters of property `White_Space`. -/
def whiteSpace : CharSet where
  bounds := [9, 14, 32, 33, 133, 134, 160, 161, 5760, 5761, 8192, 8203, 8232, 8234, 8239, 8240,
    8287, 8288, 12288, 12289]

/-- The characters of property `Pattern_White_Space`. -/
def patternWhiteSpace : CharSet where
  bounds := [9, 14, 32, 33, 133, 134, 8206, 8208, 8232, 8234]

end CharSet

end PoseGraph
