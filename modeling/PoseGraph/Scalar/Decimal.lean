import PoseGraph.Scalar

/-!
Single-precision numbers and decimals, in exact integer arithmetic.

`Scalar.nearest` rounds a decimal to the nearest single, a tie to the even one. `Scalar.shortest`
goes back: the decimal with the fewest digits that `nearest` reads as the given single, and of two
such decimals the nearer one, a tie upwards.
-/

namespace PoseGraph

/-- The number `coefficient * 10 ^ exponent`. -/
structure Decimal where
  /-- Significant digits, as one natural number. -/
  coefficient : Nat
  /-- Power of ten of the last digit. -/
  exponent : Int
  deriving DecidableEq

namespace Decimal

/-- How many decimal digits a natural number has; zero has one. -/
def digitCount (n : Nat) : Nat := (Nat.toDigits 10 n).length

/-- Numerator and denominator of the ratio that a decimal stands for. -/
def ratio (d : Decimal) : Nat × Nat :=
  if 0 ≤ d.exponent then (d.coefficient * Nat.pow 10 d.exponent.toNat, 1)
  else (d.coefficient, Nat.pow 10 (-d.exponent).toNat)

end Decimal

/-- The quotient rounded to the nearest integer, a tie to the even one. -/
def roundDivEven (num den : Nat) : Nat :=
  let quotient := num / den
  let twice := 2 * (num % den)
  if den < twice || (twice == den && quotient % 2 == 1) then quotient + 1 else quotient

namespace Scalar

/-- The ratio `num / den` divided by `2 ^ q`, as numerator and denominator. -/
def unscale (num den : Nat) (q : Int) : Nat × Nat :=
  if 0 ≤ q then (num, den * Nat.pow 2 q.toNat) else (num * Nat.pow 2 (-q).toNat, den)

/-- The power of two of the last place of the single nearest to a positive ratio: the quotient by
it has at most twenty-four bits, and it is never below the last place of the least numbers. -/
def lastPlace (num den : Nat) : Int :=
  let estimate := (Nat.log2 num : Int) - Nat.log2 den - 24
  let (n, d) := unscale num den estimate
  max (if n / d < Nat.pow 2 24 then estimate else estimate + 1) (-149)

/-- The single nearest to a ratio, a tie to the even one; beyond the greatest, infinity. -/
def nearestRatio (num den : Nat) : Scalar :=
  if num = 0 then zero
  else
    let q := lastPlace num den
    let (n, d) := unscale num den q
    let bits := (q + 149).toNat * Nat.pow 2 23 + roundDivEven n d
    if bits < 0x7f800000 then ⟨UInt32.ofNat bits⟩ else infinity

/-- The single nearest to a decimal. Decimals far outside the range are told by their digit
count alone, so that a great exponent costs nothing. -/
def nearest (d : Decimal) : Scalar :=
  let leading : Int := Decimal.digitCount d.coefficient + d.exponent
  if d.coefficient = 0 ∨ leading < -46 then zero
  else if 40 < leading then infinity
  else nearestRatio d.ratio.1 d.ratio.2

/-- Numerator and denominator of the magnitude of a finite single. -/
def ratio (x : Scalar) : Nat × Nat :=
  let field := (x.magnitude >>> 23).toNat
  let fraction := (x.magnitude &&& 0x7fffff).toNat
  let significand := if field = 0 then fraction else fraction + Nat.pow 2 23
  let q : Int := (max field 1 : Nat) - 150
  if 0 ≤ q then (significand * Nat.pow 2 q.toNat, 1) else (significand, Nat.pow 2 (-q).toNat)

/-- The power of ten of the first digit of a positive ratio that is not below `10 ^ (-50)`. -/
def leadingPlace (num den : Nat) : Int :=
  (Decimal.digitCount (num * Nat.pow 10 50 / den) : Int) - 51

/-- The ratio `num / den` divided by `10 ^ place`, as numerator and denominator. -/
def unscaleTen (num den : Nat) (place : Int) : Nat × Nat :=
  if 0 ≤ place then (num, den * Nat.pow 10 place.toNat)
  else (num * Nat.pow 10 (-place).toNat, den)

/-- The nearer one that reads back of the two decimals next to a ratio, given in units of a place on the
grid of `n` digits. Where the upper one is the next power of ten, it is written with one digit. -/
def neighbour? (reads : Decimal → Bool) (n : Nat) (place : Int) (ratio : Nat × Nat) : Option Decimal :=
  let (a, b) := ratio
  let below : Decimal := ⟨a / b, place⟩
  let above : Decimal := if a / b + 1 = Nat.pow 10 n then ⟨1, place + n⟩ else ⟨a / b + 1, place⟩
  if reads below && (2 * (a % b) < b || !reads above) then some below
  else if reads above then some above
  else none

/-- The decimal with `n` digits nearest to a single among those that read back as its magnitude,
if there is one. Only the two neighbours on the grid of `n` digits can be it. -/
def withDigits (x : Scalar) (n : Nat) : Option Decimal :=
  let (num, den) := x.ratio
  let place := leadingPlace num den - n + 1
  neighbour? (fun d => (nearest d).bits == x.magnitude) n place (unscaleTen num den place)

/-- All digits of the magnitude of a finite single. -/
def allDigits (x : Scalar) : Decimal :=
  let (num, den) := x.ratio
  ⟨num * Nat.pow 5 (Nat.log2 den), -(Nat.log2 den : Int)⟩

/-- The shortest decimal that reads back as the magnitude of a finite single. Nine digits always
do; the full expansion stands behind them. -/
def shortest (x : Scalar) : Decimal :=
  ((List.range' 1 9).findSome? x.withDigits).getD x.allDigits

instance : OfScientific Scalar where
  ofScientific m sign e := nearest ⟨m, if sign then -(e : Int) else e⟩

instance (n : Nat) : OfNat Scalar n := ⟨nearest ⟨n, 0⟩⟩

end Scalar

end PoseGraph
