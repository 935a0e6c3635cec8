/-!
Single-precision numbers, kept as their 32 bits.

Equality of `Scalar` is equality of bits: it tells `-0` from `0` and one NaN from another, and it
is what storing and loading must preserve. `Scalar.same` is the comparison of numbers: `-0` and `0`
are the same, and a NaN is the same as nothing.
-/

namespace PoseGraph

/-- A binary32 number: sign bit, eight exponent bits, twenty-three fraction bits. -/
structure Scalar where
  /-- The bits, sign first. -/
  bits : UInt32
  deriving DecidableEq, Inhabited

namespace Scalar

/-- Positive zero. -/
def zero : Scalar := ⟨0⟩

/-- The quiet NaN without payload. -/
def nan : Scalar := ⟨0x7fc00000⟩

/-- Positive infinity. -/
def infinity : Scalar := ⟨0x7f800000⟩

/-- The bits without the sign. -/
def magnitude (x : Scalar) : UInt32 := x.bits &&& 0x7fffffff

/-- Whether the sign bit is set. -/
def isNegative (x : Scalar) : Bool := x.bits != x.magnitude

/-- The same bits with the sign flipped. -/
def negate (x : Scalar) : Scalar := ⟨x.bits ^^^ 0x80000000⟩

/-- Whether the bits stand for no number. -/
def isNaN (x : Scalar) : Bool := 0x7f800000 < x.magnitude

/-- Whether the bits stand for either infinity. -/
def isInfinite (x : Scalar) : Bool := x.magnitude == 0x7f800000

/-- Whether two bit patterns stand for the same number. -/
def same (x y : Scalar) : Bool :=
  !x.isNaN && !y.isNaN && (x.bits == y.bits || (x.magnitude == 0 && y.magnitude == 0))

/-- The number in double precision, which holds every single. -/
def toDouble (x : Scalar) : Float := (Float32.ofBits x.bits).toFloat

/-- Half the sum, each of the two operations rounded. -/
def midpoint (x y : Scalar) : Scalar :=
  ⟨((Float32.ofBits x.bits + Float32.ofBits y.bits) * Float32.ofBits 0x3f000000).toBits⟩

end Scalar

end PoseGraph
