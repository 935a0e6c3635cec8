/-!
Binary layouts, as lists of bytes.

Whole numbers stand in little-endian order with a fixed number of bytes; texts and lists are led by
their length in eight bytes. A reader takes what it needs from the front and leaves the rest, and
fails where bytes are missing or stand for nothing.
-/

namespace PoseGraph.Bytes

/-- The low bytes of a number, least significant first. -/
def littleEndian : Nat → Nat → List UInt8
  | 0, _ => []
  | count + 1, n => UInt8.ofNat n :: littleEndian count (n / 256)

/-- Number of bytes in front of a text or list that hold its length. -/
def lengthWidth : Nat := 8

/-- Number of bytes that tell alternatives apart. -/
def tagWidth : Nat := 4

/-- The length of a text or list. -/
def ofLength (n : Nat) : List UInt8 := littleEndian lengthWidth n

/-- The number of an alternative. -/
def ofTag (n : Nat) : List UInt8 := littleEndian tagWidth n

/-- A truth value in one byte. -/
def ofBool (b : Bool) : List UInt8 := [if b then 1 else 0]

/-- A text in UTF-8 behind its length. -/
def ofString (s : String) : List UInt8 :=
  ofLength s.utf8ByteSize ++ s.toUTF8.data.toList

/-- A list behind its length. -/
def ofList {α : Type} (bytes : α → List UInt8) (xs : List α) : List UInt8 :=
  ofLength xs.length ++ xs.flatMap bytes

/-- A reader: what it reads and the bytes behind, or nothing. -/
abbrev Reader := StateT (List UInt8) Option

namespace Reader

/-- One byte. -/
def byte : Reader UInt8
  | [] => none
  | b :: bs => some (b, bs)

/-- A number of some bytes. -/
def number : Nat → Reader Nat
  | 0 => pure 0
  | count + 1 => do
    let low ← byte
    let high ← number count
    return low.toNat + 256 * high

/-- The length of a text or list. -/
def length : Reader Nat := number lengthWidth

/-- The number of an alternative. -/
def tag : Reader Nat := number tagWidth

/-- A truth value: one byte, which is 0 or 1. -/
def bool : Reader Bool := do
  let b ← byte
  if b = 0 then return false else if b = 1 then return true else failure

/-- As many bytes as asked for. -/
def take (count : Nat) : Reader (List UInt8) := fun bs =>
  if count ≤ bs.length then some (bs.take count, bs.drop count) else none

/-- A text, which has to be well-formed. -/
def string : Reader String := do
  let bytes ← take (← length)
  match String.fromUTF8? ⟨bytes.toArray⟩ with
  | some s => return s
  | none => failure

/-- As many elements as asked for. -/
def many {α : Type} (element : Reader α) : Nat → Reader (List α)
  | 0 => pure []
  | count + 1 => do
    let x ← element
    let xs ← many element count
    return x :: xs

/-- A list. -/
def list {α : Type} (element : Reader α) : Reader (List α) := do
  many element (← length)

end Reader

end PoseGraph.Bytes
