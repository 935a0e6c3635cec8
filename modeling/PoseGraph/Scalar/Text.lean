import PoseGraph.Scalar.Decimal

/-!
The text of single-precision numbers.

Written: the shortest digits in positional notation, whatever the size, with `.0` behind a whole
number; `inf` and `NaN` by name; a sign in front where the sign bit is set. Read: an optional sign,
digits with at most one point among or around them, and an optional exponent.
-/

namespace PoseGraph.Scalar

/-- Digits of a decimal in positional notation, with at least one digit on both sides of the
point. -/
def positional (d : Decimal) : String :=
  let digits := Nat.toDigits 10 d.coefficient
  if 0 ≤ d.exponent then
    String.ofList (digits ++ List.replicate d.exponent.toNat '0') ++ ".0"
  else
    let places := (-d.exponent).toNat
    let padded := List.replicate (places + 1 - digits.length) '0' ++ digits
    let whole := padded.length - places
    String.ofList (padded.take whole ++ '.' :: padded.drop whole)

/-- The text of a number. -/
def toText (x : Scalar) : String :=
  let sign := if x.isNegative then "-" else ""
  if x.isNaN then sign ++ "NaN"
  else if x.isInfinite then sign ++ "inf"
  else if x.magnitude = 0 then sign ++ "0.0"
  else sign ++ positional x.shortest

/-- The value of a run of decimal digits. -/
def digitsValue (cs : List Char) : Nat :=
  cs.foldl (fun n c => 10 * n + (c.toNat - '0'.toNat)) 0

/-- An exponent: an optional sign and at least one digit. -/
def readExponent : List Char → Option Int
  | '+' :: cs => unsigned cs
  | '-' :: cs => (unsigned cs).map fun e => -e
  | cs => unsigned cs
where
  /-- At least one digit, and nothing else. -/
  unsigned (cs : List Char) : Option Int :=
    if cs.isEmpty || !cs.all Char.isDigit then none else some (digitsValue cs)

/-- A number without sign: digits around an optional point, at least one of them, then an
optional exponent. -/
def readUnsigned (cs : List Char) : Option Scalar :=
  let whole := cs.takeWhile Char.isDigit
  let afterWhole := cs.dropWhile Char.isDigit
  let (fraction, afterFraction) := match afterWhole with
    | '.' :: rest => (rest.takeWhile Char.isDigit, rest.dropWhile Char.isDigit)
    | rest => ([], rest)
  if whole.isEmpty && fraction.isEmpty then none
  else
    let decimal (e : Int) : Decimal :=
      ⟨digitsValue (whole ++ fraction), e - fraction.length⟩
    match afterFraction with
    | [] => some (nearest (decimal 0))
    | 'e' :: rest | 'E' :: rest => (readExponent rest).map fun e => nearest (decimal e)
    | _ => none

/-- Read a number written in digits. -/
def readDigits : List Char → Option Scalar
  | '+' :: cs => readUnsigned cs
  | '-' :: cs => (readUnsigned cs).map negate
  | cs => readUnsigned cs

end PoseGraph.Scalar
