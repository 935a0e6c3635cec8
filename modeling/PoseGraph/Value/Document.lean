import PoseGraph.Document.Schema
import PoseGraph.Properties

/-!
Values and properties in documents.
-/

namespace PoseGraph

open Document

namespace Value

mutual

/-- The term of a value. -/
def toTerm : Value → Term
  | void => .word "Void"
  | bool b => .alternative "Bool" (.ofBool b)
  | int32 n => .alternative "Int32" (.ofInt n.toInt)
  | int64 n => .alternative "Int64" (.ofInt n.toInt)
  | float32 x => .alternative "Float32" (.ofScalar x)
  | string s => .alternative "String" (.text s)
  | vec3 x y z => .alternative "Vec3" (.tuple none [.ofScalar x, .ofScalar y, .ofScalar z])
  | array vs => .alternative "Array" (.list (elementTerms vs))
  | object className ms =>
    .alternative "Object"
      (.record none [("class_name", .text className), ("members", .map (memberTerms ms))])

/-- The terms of the elements of an array. -/
def elementTerms : List Value → List Term
  | [] => []
  | v :: vs => v.toTerm :: elementTerms vs

/-- The terms of the members of an object. -/
def memberTerms : List (String × Value) → List (Term × Term)
  | [] => []
  | (name, v) :: ms => (.text name, v.toTerm) :: memberTerms ms

end

/-- Three numbers between brackets. -/
def vec3? (s : Scope) (ts : List Term) : Option Value := do
  match ← Decoder.items Decoder.scalar (← s.deeper? 1) ts with
  | [x, y, z] => return vec3 x y z
  | _ => none

/-- An object, its members by a given decoder. Of members with one name the last one counts, in the
place of the first. -/
def object? (member : Decoder Value) : Decoder Value := fun s t => do
  let fields ← Decoder.fields "ObjectValue" ["class_name", "members"] s t
  let className ← fields.value? "class_name" Decoder.text
  let members ← fields.value? "members" (.map Decoder.text member)
  return object className (Entries.ofList members)

/-- The value that a term describes, with at most `nesting` values one inside the other. Each of them
takes two levels for itself. Where the brackets of alternatives fall together with those inside, three
numbers may have a comma behind them, and the alternative that they fill another one. -/
def ofTerm? : (nesting : Nat) → Decoder Value
  | 0, _, _ => none
  | nesting + 1, s, t => do
    let inside ← s.deeper? 2
    match t with
    | .word spelling => if nameOf spelling = "Void" then some void else none
    | .tuple (some spelling) items =>
      match nameOf spelling, items with
      | "Bool", [t] => (Decoder.bool inside t).map bool
      | "Int32", [t] => (Decoder.whole (.signed 32) inside t).map fun n => int32 (Int32.ofInt n)
      | "Int64", [t] => (Decoder.whole (.signed 64) inside t).map fun n => int64 (Int64.ofInt n)
      | "Float32", [t] => (Decoder.scalar inside t).map float32
      | "String", [t] => (Decoder.text inside t).map string
      | "Vec3", items =>
        if s.dialect.unwrapsVariants then vec3? inside items
        else match items with
          | [.tuple none items] => vec3? inside items
          | _ => none
      | "Array", [t] => (Decoder.list (ofTerm? nesting) inside t).map array
      | "Object", items =>
        (s.dialect.argument? "ObjectValue" (.tuple none items)).bind
          (object? (ofTerm? nesting) inside)
      | _, _ => none
    | .padded (some spelling) items =>
      if nameOf spelling = "Vec3" ∧ s.dialect.unwrapsVariants then vec3? inside items else none
    | .record (some spelling) fields =>
      if nameOf spelling = "Object" then
        (s.dialect.argument? "ObjectValue" (.record none fields)).bind
          (object? (ofTerm? nesting) inside)
      else none
    | _ => none

/-- The value that a term describes. The levels that are left bound how many values are one inside the
other. -/
def read? : Decoder Value := fun s t => ofTerm? (s.levels + 1) s t

end Value

namespace Properties

/-- The term of properties. -/
def toTerm (ps : Properties) : Term :=
  .record none [("values", .map (ps.entries.map fun (name, v) => (.text name, v.toTerm)))]

/-- The properties that a term describes. Of properties with one name the last one counts, in the
place of the first. -/
def ofTerm? : Decoder Properties := fun s t => do
  let fields ← Decoder.fields "PropertySet" ["values"] s t
  return Table.ofList (← fields.value? "values" (.map Decoder.text Value.read?))

end Properties

end PoseGraph
