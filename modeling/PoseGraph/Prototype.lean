import PoseGraph.Identifier
import PoseGraph.Identity
import PoseGraph.Value

/-!
The compiled form of a graph, as the runtime takes it.

A prototype nests as the graph does. Its literals are plain runtime values and its links are flat
connections between endpoints.
-/

namespace PoseGraph

/-- A named value: an input or output of a graph, or the literal of an input or a variable. -/
structure Endpoint where
  id : Identifier
  value : Value

/-- What a connection joins. -/
inductive ConnectionKind
  | nodeValueToNodeValue
  | nodeEventToNodeEvent
  | graphValueToNodeValue
  | graphEventToNodeEvent
  | nodeValueToGraphValue
  | nodeEventToGraphEvent
  | localVariableToNodeValue
  | graphValueToGraphValue
  | graphEventToGraphEvent
  | localVariableToGraphValue
  deriving DecidableEq

instance : Enumerated ConnectionKind where
  all := [.nodeValueToNodeValue, .nodeEventToNodeEvent, .graphValueToNodeValue,
    .graphEventToNodeEvent, .nodeValueToGraphValue, .nodeEventToGraphEvent,
    .localVariableToNodeValue, .graphValueToGraphValue, .graphEventToGraphEvent,
    .localVariableToGraphValue]
  name
    | .nodeValueToNodeValue => "NodeValueToNodeValue"
    | .nodeEventToNodeEvent => "NodeEventToNodeEvent"
    | .graphValueToNodeValue => "GraphValueToNodeValue"
    | .graphEventToNodeEvent => "GraphEventToNodeEvent"
    | .nodeValueToGraphValue => "NodeValueToGraphValue"
    | .nodeEventToGraphEvent => "NodeEventToGraphEvent"
    | .localVariableToNodeValue => "LocalVariableToNodeValue"
    | .graphValueToGraphValue => "GraphValueToGraphValue"
    | .graphEventToGraphEvent => "GraphEventToGraphEvent"
    | .localVariableToGraphValue => "LocalVariableToGraphValue"

/-- One side of a connection: a node, or the prototype's identity for its inputs and events, or the
root for its outputs. -/
structure ConnectionEnd where
  node : NodeId
  endpoint : Identifier
  deriving DecidableEq

/-- A flattened link. -/
structure Connection where
  /-- The producer. -/
  source : ConnectionEnd
  /-- The consumer. -/
  destination : ConnectionEnd
  kind : ConnectionKind
  deriving DecidableEq

/-- A node at run time, over the type of nested prototypes. -/
structure RuntimeNode (Sub : Type) where
  /-- Identifier of the node's type. -/
  type : Identifier
  /-- The node from which this one is compiled. -/
  id : NodeId
  /-- Literals of the inputs that no connection feeds. -/
  plugs : List Endpoint
  /-- The compiled graph that the node owns. -/
  subroutine : Option Sub

/-- A compiled graph. -/
structure Prototype where
  /-- Name for display. -/
  name : String
  /-- Identity of the asset at the top level, of the owner in nested graphs. -/
  id : NodeId
  skeleton : AssetHandle
  /-- Inputs of the graph, at the top level only. -/
  inputs : List Endpoint
  outputs : List Endpoint
  /-- Literals of local variables. -/
  variablePlugs : List Endpoint
  /-- Nodes in evaluation order. -/
  nodes : List (RuntimeNode Prototype)
  /-- Connections in the order of the links. -/
  connections : List Connection

namespace Endpoint

/-- Equality with numbers compared by value. -/
def same (a b : Endpoint) : Bool := a.id == b.id && a.value.same b.value

/-- Equality endpoint by endpoint. -/
def sameAll (as bs : List Endpoint) : Bool :=
  as.length == bs.length && (as.zip bs).all fun (a, b) => a.same b

end Endpoint

namespace Prototype

/-- The node compiled from a node of the graph. -/
def node? (p : Prototype) (id : NodeId) : Option (RuntimeNode Prototype) :=
  p.nodes.find? (·.id == id)

mutual

/-- Number of nodes, those of nested prototypes included. -/
def nodeCount : Prototype → Nat
  | ⟨_, _, _, _, _, _, nodes, _⟩ => countNodes nodes

/-- Number of nodes in a list and in the prototypes nested in it. -/
def countNodes : List (RuntimeNode Prototype) → Nat
  | [] => 0
  | ⟨_, _, _, none⟩ :: rest => 1 + countNodes rest
  | ⟨_, _, _, some sub⟩ :: rest => 1 + sub.nodeCount + countNodes rest

end

mutual

/-- Equality with numbers compared by value. -/
def same : Prototype → Prototype → Bool
  | ⟨name, id, skeleton, inputs, outputs, plugs, nodes, connections⟩, q =>
    name == q.name && id == q.id && skeleton == q.skeleton && Endpoint.sameAll inputs q.inputs
      && Endpoint.sameAll outputs q.outputs && Endpoint.sameAll plugs q.variablePlugs
      && sameNodes nodes q.nodes && connections == q.connections

/-- Equality node by node. -/
def sameNodes : List (RuntimeNode Prototype) → List (RuntimeNode Prototype) → Bool
  | [], [] => true
  | ⟨type, id, plugs, none⟩ :: ms, n :: ns =>
    type == n.type && id == n.id && Endpoint.sameAll plugs n.plugs && n.subroutine.isNone
      && sameNodes ms ns
  | ⟨type, id, plugs, some sub⟩ :: ms, n :: ns =>
    type == n.type && id == n.id && Endpoint.sameAll plugs n.plugs
      && (match n.subroutine with
        | some sub' => sub.same sub'
        | none => false)
      && sameNodes ms ns
  | _, _ => false

end

end Prototype

end PoseGraph
