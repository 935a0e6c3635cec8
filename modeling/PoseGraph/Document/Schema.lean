import PoseGraph.Document.Ignored
import PoseGraph.Enumerated
import PoseGraph.Identity

/-!
What the terms of a document describe.

Structures are records whose fields may come in any order. A field that the structure does not have
is ignored, one that it has may not come twice. Structures around a single value are tuples of one,
and alternatives without values are bare names. The dialect of a document loosens some of these
forms.

Decoders take levels as they go into a term: brackets take one, and each value in them another one.
What a document describes has to be reached before its levels are used up.
-/

namespace PoseGraph.Document

namespace Term

/-- A truth value. -/
def ofBool (b : Bool) : Term := word (if b then "true" else "false")

/-- A whole number. -/
def ofInt (n : Int) : Term := number (Int.repr n)

/-- A whole number that is not negative. -/
def ofNat (n : Nat) : Term := number (Nat.repr n)

/-- A number in single precision. The two that have a name without a sign are words. -/
def ofScalar (x : Scalar) : Term :=
  if (x.isNaN || x.isInfinite) && !x.isNegative then word x.toText else number x.toText

/-- A structure around a single value. -/
def newtype (t : Term) : Term := tuple none [t]

/-- An alternative with one value. -/
def alternative (name : String) (t : Term) : Term := tuple (some name) [t]

/-- An alternative without values. -/
def ofEnumerated {α : Type} [Enumerated α] (x : α) : Term := word (Enumerated.name x)

/-- A value that may be absent. -/
def ofOption : Option Term → Term
  | none => word "None"
  | some t => optional .single (newtype t)

/-- A color. -/
def ofColor (c : Color) : Term :=
  tuple none [ofNat c.red.toNat, ofNat c.green.toNat, ofNat c.blue.toNat]

/-- A point. -/
def ofPoint (p : Point) : Term := tuple none [ofScalar p.x, ofScalar p.y]

end Term

/-- The circumstances in which a term is read. -/
structure Scope where
  /-- The dialect of the document. -/
  dialect : Dialect
  /-- How many levels are left. -/
  levels : Nat

namespace Scope

/-- The circumstances behind a number of levels more, if so many are left. -/
def deeper? (s : Scope) (count : Nat) : Option Scope :=
  if count ≤ s.levels then some { s with levels := s.levels - count } else none

end Scope

/-- A way to read what terms describe. -/
abbrev Decoder (α : Type) := Scope → Term → Option α

/-- The fields of a record: those that its structure has, each at most once. -/
structure Fields where
  /-- The circumstances between the brackets of the record. -/
  scope : Scope
  /-- The fields, by their names. -/
  terms : List (String × Term)

namespace Fields

/-- The term of a field. -/
def get? (fields : Fields) (name : String) : Option Term :=
  (fields.terms.find? fun f => f.1 == name).map Prod.snd

/-- The value of a field. -/
def value? {α : Type} (fields : Fields) (name : String) (value : Decoder α) : Option α := do
  let t ← fields.get? name
  value (← fields.scope.deeper? 1) t

/-- The value of a field, or another one where the field is missing. -/
def valueOr {α : Type} (fields : Fields) (name : String) (value : Decoder α) (missing : α) :
    Option α :=
  match fields.get? name with
  | none => some missing
  | some _ => fields.value? name value

end Fields

namespace Dialect

/-- Whether a structure may have the given label, or none. -/
def accepts (d : Dialect) (name : String) : Option String → Bool
  | none => !d.demandsNames
  | some spelling => nameOf spelling == name

/-- The structure inside the brackets of an alternative. Where both pairs of brackets fall together,
the label is that of the alternative, and the structure counts as named. -/
def argument? (d : Dialect) (structureName : String) (t : Term) : Option Term :=
  if d.unwrapsVariants then
    match t with
    | .record _ fields => some (.record (some structureName) fields)
    | .tuple _ [] => some (.record (some structureName) [])
    | _ => none
  else
    match t with
    | .tuple _ [t] => some t
    | _ => none

end Dialect

namespace Decoder

/-- A truth value. -/
def bool : Decoder Bool
  | _, .word spelling =>
    if spelling = "true" then some true else if spelling = "false" then some false else none
  | _, _ => none

/-- A text. -/
def text : Decoder String
  | _, .text s => some s
  | _, _ => none

/-- A whole number of a type. -/
def whole (type : WholeType) : Decoder Int
  | _, .number lexeme => Number.readWhole type lexeme.toList
  | _, _ => none

/-- An unsigned whole number of some bits. -/
def nat (width : Nat) : Decoder Nat := fun s t => (whole (.unsigned width) s t).map Int.toNat

/-- A number in single precision. -/
def scalar : Decoder Scalar
  | _, .number lexeme => Number.readScalar lexeme.toList
  | _, .word spelling => Number.readScalar spelling.toList
  | _, _ => none

/-- Terms between brackets, read one by one. -/
def items {α : Type} (element : Decoder α) (s : Scope) (ts : List Term) : Option (List α) :=
  ts.mapM fun t => do element (← s.deeper? 1) t

/-- A list. -/
def list {α : Type} (element : Decoder α) : Decoder (List α)
  | s, .list ts => do items element (← s.deeper? 1) ts
  | _, _ => none

/-- The entries of a map. -/
def map {κ α : Type} (key : Decoder κ) (value : Decoder α) : Decoder (List (κ × α))
  | s, .map entries => do
    let inside ← s.deeper? 1
    entries.mapM fun (k, v) => do
      let s ← inside.deeper? 1
      return (← key s k, ← value s v)
  | _, _ => none

/-- An alternative without values. Its name takes a level as if it stood between brackets. -/
def enumerated {α : Type} [Enumerated α] : Decoder α
  | s, .word spelling => do
    let _ ← s.deeper? 2
    Enumerated.ofName? (nameOf spelling)
  | _, _ => none

/-- A color. -/
def color : Decoder Color
  | s, .tuple none ts => do
    match ← items (nat 8) (← s.deeper? 1) ts with
    | [r, g, b] => return ⟨UInt8.ofNat r, UInt8.ofNat g, UInt8.ofNat b⟩
    | _ => none
  | _, _ => none

/-- A point. -/
def point : Decoder Point
  | s, .tuple none ts => do
    match ← items scalar (← s.deeper? 1) ts with
    | [x, y] => return ⟨x, y⟩
    | _ => none
  | _, _ => none

/-- A structure around a single value. -/
def newtype {α : Type} (name : String) (value : Decoder α) : Decoder α := fun s t => do
  let inside ← s.deeper? 1
  if s.dialect.unwrapsNewtypes then value inside t
  else match t with
    | .tuple label [t] => if s.dialect.accepts name label then value inside t else none
    | _ => none

/-- The fields of a structure, by the names of the fields that it has. -/
def fields (name : String) (known : List String) : Decoder Fields := fun s t => do
  let inside ← s.deeper? 1
  let check (label : Option String) (terms : List (String × Term)) : Option Fields :=
    let (own, others) := terms.partition fun f => known.contains f.1
    if s.dialect.accepts name label && (own.map Prod.fst).Nodup
        && Term.fieldsIgnorable s.dialect inside.levels others then some ⟨inside, own⟩
    else none
  match t with
  | .record label terms => check label terms
  | .tuple label [] => check label []
  | .unit => check none []
  | _ => none

/-- A structure that may be absent. -/
def option {α : Type} (structureName : String) (value : Decoder α) : Decoder (Option α) := fun s t =>
  match t with
  | .word "None" => some none
  | _ => do
    let inside ← s.deeper? 1
    match t with
    | .present t => if s.dialect.impliesSome then (value inside t).map some else none
    | .optional _ brackets =>
      ((s.dialect.argument? structureName brackets).bind (value inside)).map some
    | _ => if s.dialect.impliesSome then (value inside t).map some else none

end Decoder

/-- The circumstances in which the whole of a document is read. -/
def scope (document : PoseGraph.Document) : Scope := ⟨document.dialect, Term.recursionLimit⟩

end PoseGraph.Document
