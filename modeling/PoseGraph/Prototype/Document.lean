import PoseGraph.Prototype
import PoseGraph.Value.Document

/-!
Prototypes in documents.
-/

namespace PoseGraph

open Document

/-- The term of the identity of a node. -/
def NodeId.toTerm (id : NodeId) : Term := .newtype (.ofNat id.value)

/-- The identity of a node that a term describes. -/
def NodeId.ofTerm? : Decoder NodeId := fun s t =>
  (Decoder.newtype "NodeId" (.nat 64) s t).map NodeId.mk

/-- The term of an identifier. -/
def Identifier.toTerm (i : Identifier) : Term := .newtype (.ofNat i.hash.toNat)

/-- The identifier that a term describes. -/
def Identifier.ofTerm? : Decoder Identifier := fun s t =>
  (Decoder.newtype "Identifier" (.nat 32) s t).map fun n => ⟨UInt32.ofNat n⟩

/-- The term of an endpoint. -/
def Endpoint.toTerm (e : Endpoint) : Term :=
  .record none [("id", e.id.toTerm), ("default_value", e.value.toTerm)]

/-- The endpoint that a term describes. -/
def Endpoint.ofTerm? : Decoder Endpoint := fun s t => do
  let fields ← Decoder.fields "Endpoint" ["id", "default_value"] s t
  return {
    id := ← fields.value? "id" Identifier.ofTerm?
    value := ← fields.value? "default_value" Value.read? }

/-- The term of one side of a connection. -/
def ConnectionEnd.toTerm (e : ConnectionEnd) : Term :=
  .record none [("node_id", e.node.toTerm), ("endpoint_id", e.endpoint.toTerm)]

/-- The side of a connection that a term describes. -/
def ConnectionEnd.ofTerm? : Decoder ConnectionEnd := fun s t => do
  let fields ← Decoder.fields "ConnectionEndpoint" ["node_id", "endpoint_id"] s t
  return {
    node := ← fields.value? "node_id" NodeId.ofTerm?
    endpoint := ← fields.value? "endpoint_id" Identifier.ofTerm? }

/-- The term of a connection. -/
def Connection.toTerm (c : Connection) : Term :=
  .record none [("source", c.source.toTerm), ("destination", c.destination.toTerm),
    ("kind", .ofEnumerated c.kind)]

/-- The connection that a term describes. -/
def Connection.ofTerm? : Decoder Connection := fun s t => do
  let fields ← Decoder.fields "PrototypeConnection" ["source", "destination", "kind"] s t
  return {
    source := ← fields.value? "source" ConnectionEnd.ofTerm?
    destination := ← fields.value? "destination" ConnectionEnd.ofTerm?
    kind := ← fields.value? "kind" Decoder.enumerated }

namespace Prototype

mutual

/-- The term of a prototype. -/
def toTerm : Prototype → Term
  | ⟨name, id, skeleton, inputs, outputs, plugs, nodes, connections⟩ =>
    .record none [
      ("debug_name", .text name),
      ("id", id.toTerm),
      ("skeleton", .ofNat skeleton.toNat),
      ("inputs", .list (inputs.map Endpoint.toTerm)),
      ("outputs", .list (outputs.map Endpoint.toTerm)),
      ("local_variable_plugs", .list (plugs.map Endpoint.toTerm)),
      ("nodes", .list (nodeTerms nodes)),
      ("connections", .list (connections.map Connection.toTerm))]

/-- The terms of the nodes of a prototype. -/
def nodeTerms : List (RuntimeNode Prototype) → List Term
  | [] => []
  | ⟨type, id, plugs, none⟩ :: rest => nodeTerm type id plugs none :: nodeTerms rest
  | ⟨type, id, plugs, some sub⟩ :: rest =>
    nodeTerm type id plugs (some sub.toTerm) :: nodeTerms rest

/-- The term of a node, over the term of its subroutine. -/
def nodeTerm (type : Identifier) (id : NodeId) (plugs : List Endpoint) (subroutine : Option Term) :
    Term :=
  .record none [
    ("node_type_id", type.toTerm),
    ("id", id.toTerm),
    ("default_value_plugs", .list (plugs.map Endpoint.toTerm)),
    ("subroutine", .ofOption subroutine)]

end

/-- The node that a term describes, its subroutine by a given decoder. Without the field for it there is
none. -/
def runtimeNode? (subroutine : Decoder Prototype) : Decoder (RuntimeNode Prototype) := fun s t => do
  let fields ← Decoder.fields "PrototypeNode"
    ["node_type_id", "id", "default_value_plugs", "subroutine"] s t
  return {
    type := ← fields.value? "node_type_id" Identifier.ofTerm?
    id := ← fields.value? "id" NodeId.ofTerm?
    plugs := ← fields.value? "default_value_plugs" (.list Endpoint.ofTerm?)
    subroutine := ← fields.valueOr "subroutine" (.option "Prototype" subroutine) none }

/-- The prototype that a term describes, with at most `nesting` prototypes one inside the other. -/
def ofTerm? : (nesting : Nat) → Decoder Prototype
  | 0, _, _ => none
  | nesting + 1, s, t => do
    let fields ← Decoder.fields "Prototype"
      ["debug_name", "id", "skeleton", "inputs", "outputs", "local_variable_plugs", "nodes",
        "connections"] s t
    return {
      name := ← fields.value? "debug_name" Decoder.text
      id := ← fields.value? "id" NodeId.ofTerm?
      skeleton := UInt64.ofNat (← fields.value? "skeleton" (.nat 64))
      inputs := ← fields.value? "inputs" (.list Endpoint.ofTerm?)
      outputs := ← fields.value? "outputs" (.list Endpoint.ofTerm?)
      variablePlugs := ← fields.value? "local_variable_plugs" (.list Endpoint.ofTerm?)
      nodes := ← fields.value? "nodes" (.list (runtimeNode? (ofTerm? nesting)))
      connections := ← fields.value? "connections" (.list Connection.ofTerm?) }

/-- The prototype that a term describes. The levels that are left bound how many prototypes are one
inside the other. -/
def read? : Decoder Prototype := fun s t => ofTerm? (s.levels + 1) s t

end Prototype

end PoseGraph
