import PoseGraph.Document.Quoted
import PoseGraph.Scalar.Text

/-!
Numbers in documents.

A whole number has an optional sign, an optional mark of its base, digits, and, behind decimal and
binary digits, an optional suffix that names its type. A fractional number has a sign, digits around a point, an exponent, and a
suffix; `inf` and `NaN` are numbers by name. Underscores may part digits.
-/

namespace PoseGraph.Document

/-- A type of whole numbers. -/
structure WholeType where
  /-- Whether numbers below zero belong to it. -/
  isSigned : Bool
  /-- Number of bits. -/
  width : Nat
  deriving DecidableEq

namespace WholeType

/-- Unsigned numbers of some bits. -/
def unsigned (width : Nat) : WholeType := ⟨false, width⟩

/-- Signed numbers of some bits. -/
def signed (width : Nat) : WholeType := ⟨true, width⟩

/-- All types that a suffix can name. -/
def all : List WholeType := [unsigned, signed].flatMap fun make => [8, 16, 32, 64].map make

/-- The suffix that names a type. -/
def suffix (t : WholeType) : List Char := (if t.isSigned then 'i' else 'u') :: Nat.toDigits 10 t.width

/-- Whether a number belongs to a type. -/
def contains (t : WholeType) (n : Int) : Bool :=
  if t.isSigned then -(Int.pow 2 (t.width - 1)) ≤ n && n < Int.pow 2 (t.width - 1)
  else 0 ≤ n && n < Int.pow 2 t.width

end WholeType

namespace Number

/-- Whether a character may stand among the digits of a whole number. -/
def isDigitLike (c : Char) : Bool := c == '_' || (Quotation.hexDigit? c).isSome

/-- Split off an optional sign: whether it is a minus, and the rest. -/
def splitSign : List Char → Bool × List Char
  | '+' :: cs => (false, cs)
  | '-' :: cs => (true, cs)
  | cs => (false, cs)

/-- Split off an optional mark of the base: the base, and the rest. -/
def splitBase : List Char → Nat × List Char
  | '0' :: 'x' :: cs => (16, cs)
  | '0' :: 'o' :: cs => (8, cs)
  | '0' :: 'b' :: cs => (2, cs)
  | cs => (10, cs)

/-- The value of digits in a base, between which underscores may stand. -/
def digitsIn? (base : Nat) (cs : List Char) : Option Nat :=
  if cs.head?.any (· == '_') || cs.isEmpty then none
  else (cs.filter (· != '_')).foldlM (fun n c =>
    match Quotation.hexDigit? c with
    | some d => if d < base then some (base * n + d) else none
    | none => none) 0

/-- Whether a suffix may stand behind digits in a base. -/
def allowsSuffix (base : Nat) : Bool := base == 10 || base == 2

/-- Read a whole number of a type. A suffix has to name that type. -/
def readWhole (t : WholeType) (lexeme : List Char) : Option Int :=
  let (isNegative, unsigned) := splitSign lexeme
  let (base, digits) := splitBase unsigned
  let suffix := digits.dropWhile isDigitLike
  if suffix = [] ∨ allowsSuffix base ∧ suffix = t.suffix then do
    let n ← digitsIn? base (digits.takeWhile isDigitLike)
    let value : Int := if isNegative then -n else n
    if t.contains value then return value else failure
  else none

/-- The suffix of numbers in single precision. -/
def singleSuffix : List Char := ['f', '3', '2']

/-- The suffix of numbers in double precision. -/
def doubleSuffix : List Char := ['f', '6', '4']

/-- Split off a suffix, if it is there. -/
def dropSuffix (suffix cs : List Char) : List Char :=
  if suffix.isSuffixOf cs then cs.take (cs.length - suffix.length) else cs

/-- Whether underscores stand only behind digits and marks of an exponent, though a sign may stand
between. -/
def underscoresFit : (allowed : Bool) → List Char → Bool
  | _, [] => true
  | allowed, c :: cs =>
    if c = '_' then allowed && underscoresFit allowed cs
    else if c.isDigit ∨ c = 'e' ∨ c = 'E' then underscoresFit true cs
    else if c = '.' then underscoresFit false cs
    else underscoresFit allowed cs

/-- Read a number that is given by name or by digits, without suffix. -/
def readUnsuffixed (cs : List Char) : Option Scalar :=
  match splitSign cs with
  | (isNegative, ['i', 'n', 'f']) =>
    some (if isNegative then Scalar.infinity.negate else Scalar.infinity)
  | (isNegative, ['N', 'a', 'N']) => some (if isNegative then Scalar.nan.negate else Scalar.nan)
  | _ =>
    if underscoresFit false cs then Scalar.readDigits (cs.filter (· != '_')) else none

/-- Read a number in single precision. -/
def readScalar (lexeme : List Char) : Option Scalar :=
  readUnsuffixed (dropSuffix singleSuffix lexeme)

/-- Whether a lexeme is a number of any type. Where no suffix names a type, a whole number has to fit
into 64 bits or to be readable as a fractional one. -/
def isNumber (lexeme : List Char) : Bool :=
  WholeType.all.any (fun t => (readWhole t lexeme).isSome)
    || (readScalar lexeme).isSome || (readUnsuffixed (dropSuffix doubleSuffix lexeme)).isSome

end Number

end PoseGraph.Document
