import PoseGraph.Properties
import PoseGraph.Prototype
import PoseGraph.SubGraph

/-!
Assets: properties and nested graphs.

Each graph of an asset is owned by a node, the top-level one by the root. The nesting is implicit:
a graph lies inside the one that has its owner among its nodes.
-/

namespace PoseGraph

/-- An animation graph. -/
structure Asset where
  id : NodeId
  name : String
  inputs : Properties
  outputs : Properties
  localVariables : Properties
  skeleton : AssetHandle
  /-- The graphs by owner. -/
  graphs : Table NodeId SubGraph
  /-- What the last successful compilation produced. -/
  prototype : Option Prototype

namespace Asset

/-- Name of an asset that was not given one. -/
def defaultName : String := "Untitled"

/-- An asset with an empty top-level graph. -/
def ofName (name : String) (id : NodeId) : Asset :=
  { id, name, inputs := .empty, outputs := .empty, localVariables := .empty, skeleton := 0
    graphs := Table.empty.insert .root .empty, prototype := none }

/-- The properties of a kind. -/
def properties (a : Asset) : PropertyKind → Properties
  | .input => a.inputs
  | .output => a.outputs
  | .localVariable => a.localVariables

/-- Replace the properties of a kind. -/
def withProperties (a : Asset) (kind : PropertyKind) (ps : Properties) : Asset :=
  match kind with
  | .input => { a with inputs := ps }
  | .output => { a with outputs := ps }
  | .localVariable => { a with localVariables := ps }

/-- The graph that a node owns. -/
def graph? (a : Asset) (owner : NodeId) : Option SubGraph := a.graphs.get? owner

/-- Whether a node owns a graph. -/
def hasGraph (a : Asset) (owner : NodeId) : Bool := a.graphs.contains owner

/-- Change the graph that a node owns, if it owns one. -/
def modifyGraph (a : Asset) (owner : NodeId) (f : SubGraph → SubGraph) : Asset :=
  { a with graphs := a.graphs.modify owner f }

/-- Give a node an empty graph, if it owns none. -/
def ensureGraph (a : Asset) (owner : NodeId) : Asset :=
  if a.hasGraph owner then a else { a with graphs := a.graphs.insert owner .empty }

/-- Drop the graph that a node owns. -/
def eraseGraph (a : Asset) (owner : NodeId) : Asset := { a with graphs := a.graphs.erase owner }

/-- The owners of graphs, in order. -/
def owners (a : Asset) : List NodeId := a.graphs.keys

/-- The node with an identity, in whatever graph. -/
def findNode? (a : Asset) (id : NodeId) : Option Node := a.graphs.values.findSome? (·.node? id)

/-- The node that owns the graph in which a node lies. -/
def parent? (a : Asset) (id : NodeId) : Option Node :=
  (a.graphs.entries.find? fun e => e.2.hasNode id).bind fun e => a.findNode? e.1

/-- Kind of the node that owns a graph; none for the top level. -/
def ownerKind? (a : Asset) (owner : NodeId) : Option NodeKind :=
  if owner.isRoot then none else (a.findNode? owner).map Node.kind

/-- The pin by which a node of the right shape names the property that it stands for. Nodes of
inputs have outputs only, nodes of outputs inputs only, nodes of local variables a single pin. -/
def propertyPin? (kind : PropertyKind) (n : Node) : Option Pin :=
  match kind with
  | .input => if n.inputs.isEmpty then n.outputs.head? else none
  | .output => if n.outputs.isEmpty then n.inputs.head? else none
  | .localVariable => if n.isLocalVariable then n.pins.head? else none

/-- Whether a node stands for the property of a given kind and name. -/
def standsFor (kind : PropertyKind) (n : Node) (name : String) : Bool :=
  n.category == kind.token && (propertyPin? kind n).any fun p => p.name == name

/-- Whether a node stands for an existing property of a kind. -/
def isPropertyNodeOf (a : Asset) (kind : PropertyKind) (n : Node) : Bool :=
  let pin := match kind with
    | .input => n.outputs.head?
    | .output => n.inputs.head?
    | .localVariable => n.pins.head?
  pin.any fun p => (a.properties kind).contains p.name && standsFor kind n p.name

/-- Whether a node stands for an existing property. -/
def isPropertyNode (a : Asset) (n : Node) : Bool :=
  [PropertyKind.input, .output, .localVariable].any fun kind => a.isPropertyNodeOf kind n

/-- The nodes that stand for a property, by the owner of the graph in which they are. -/
def propertyNodes (a : Asset) (kind : PropertyKind) (name : String) :
    List (NodeId × List NodeId) :=
  a.graphs.entries.filterMap fun (owner, g) =>
    let ids := (g.nodes.filter fun n => standsFor kind n name).map Node.id
    if ids.isEmpty then none else some (owner, ids)

/-- Equality with numbers compared by value and named things in any order. -/
def same (a b : Asset) : Bool :=
  a.id == b.id && a.name == b.name && a.inputs.same b.inputs && a.outputs.same b.outputs
    && a.localVariables.same b.localVariables && a.skeleton == b.skeleton
    && a.graphs.sameBy SubGraph.same b.graphs
    && (match a.prototype, b.prototype with
      | none, none => true
      | some p, some q => p.same q
      | _, _ => false)

end Asset

end PoseGraph
