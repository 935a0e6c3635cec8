import PoseGraph.Document.Reader

/-!
Terms that nothing is read from.

A structure ignores the fields that it does not have. Still their terms have to make sense, whatever
they describe, and must not nest deeper than the levels that are left.
-/

namespace PoseGraph.Document.Term

/-- Whether brackets may have a name, or none, in front. -/
def isLabel (name : Option String) : Bool := name.all fun spelling => !plainWords.contains spelling

mutual

/-- Whether a term makes sense and nests no deeper than `levels`: its numbers are numbers of some type,
plain words have no brackets, and those of an optional value hold what they seem to. Brackets take a
level, and each value in them another one. An optional value takes a level only, to which those of a
tuple or record come if it seems to be one. -/
def isIgnorable (d : Dialect) (levels : Nat) : Term → Bool
  | number lexeme => Number.isNumber lexeme.toList
  | word spelling => spelling != someWord
  | text _ => true
  | char _ => true
  | bytes => true
  | unit => true
  | present t => d.impliesSome && 1 ≤ levels && t.isIgnorable d (levels - 1)
  | optional .empty (tuple none []) => 1 ≤ levels
  | optional .single (tuple none [t]) => 1 ≤ levels && t.isIgnorable d (levels - 1)
  | optional .several (tuple none items) => 2 ≤ levels && areIgnorable d (levels - 2) items
  | optional .named (record none fields) => 2 ≤ levels && fieldsIgnorable d (levels - 2) fields
  | optional _ _ => false
  | tuple name items => isLabel name && 1 ≤ levels && areIgnorable d (levels - 1) items
  | padded _ _ => false
  | record name fields => isLabel name && 1 ≤ levels && fieldsIgnorable d (levels - 1) fields
  | list items => 1 ≤ levels && areIgnorable d (levels - 1) items
  | map entries => 1 ≤ levels && entriesIgnorable d (levels - 1) entries

/-- Whether all terms between brackets make sense. -/
def areIgnorable (d : Dialect) (levels : Nat) : List Term → Bool
  | [] => true
  | t :: ts => 1 ≤ levels && t.isIgnorable d (levels - 1) && areIgnorable d levels ts

/-- Whether all named terms between brackets make sense. -/
def fieldsIgnorable (d : Dialect) (levels : Nat) : List (String × Term) → Bool
  | [] => true
  | (_, t) :: fs => 1 ≤ levels && t.isIgnorable d (levels - 1) && fieldsIgnorable d levels fs

/-- Whether all pairs of terms between brackets make sense. -/
def entriesIgnorable (d : Dialect) (levels : Nat) : List (Term × Term) → Bool
  | [] => true
  | (k, v) :: es =>
    1 ≤ levels && k.isIgnorable d (levels - 1) && v.isIgnorable d (levels - 1)
      && entriesIgnorable d levels es

end

end PoseGraph.Document.Term
