import PoseGraph.Table
import PoseGraph.Text.Lowercase
import PoseGraph.Value

/-!
Named values of an asset: its inputs, outputs and local variables.
-/

namespace PoseGraph

/-- Which named values of an asset are meant. -/
inductive PropertyKind
  /-- Parameters supplied from outside. -/
  | input
  /-- Results computed by the graph. -/
  | output
  /-- Values shared by the nodes of a graph. -/
  | localVariable
  deriving DecidableEq

instance : Enumerated PropertyKind where
  all := [.input, .output, .localVariable]
  name
    | .input => "Input"
    | .output => "Output"
    | .localVariable => "LocalVariable"

namespace PropertyKind

/-- Category of the nodes that stand for properties of a kind. -/
def token : PropertyKind → String
  | input => "Input"
  | output => "Output"
  | localVariable => "Local Variable"

/-- Name from which the names of new properties are made. -/
def defaultName : PropertyKind → String
  | input => "New Input"
  | output => "New Output"
  | localVariable => "New Variable"

end PropertyKind

/-- Values under distinct names, in order. -/
abbrev Properties := Table String Value

namespace Properties

/-- Sort by name without regard to case; names that differ in case only keep their order. -/
def sorted (ps : Properties) : Properties := ps.sortBy fun a b => lowercase a ≤ lowercase b

/-- A name with a numeric suffix. -/
def suffixed (base : String) (k : Nat) : String := base ++ "_" ++ Nat.repr k

/-- A name that is not taken: `base`, or else `base` with the least suffix from 2 on that is free.
One of as many suffixes as there are properties always is, since `base` itself takes one. -/
def uniqueName (ps : Properties) (base : String) : String :=
  if ps.contains base then
    match (List.range' 2 ps.size).find? fun k => !ps.contains (suffixed base k) with
    | some k => suffixed base k
    | none => base
  else base

/-- Equality with numbers compared by value and names in any order. -/
def same (a b : Properties) : Bool := a.sameBy Value.same b

end Properties

end PoseGraph
