import PoseGraph.Bytes
import PoseGraph.Prototype

/-!
The binary form of prototypes, in which the runtime loads them.

Fields stand one behind the other in their order of declaration. Alternatives of values and of
connections are numbered in four bytes; an absent subroutine is a zero byte, and a present one stands
behind a one. A prototype is read from the front of the bytes and whatever follows it is ignored.

Nothing bounds the nesting of what is read but the bytes themselves: each level takes at least one,
so their number serves as the depth at which the reader gives up.
-/

namespace PoseGraph

/-- The number of bytes of an identity or a handle. -/
def identityWidth : Nat := 8

namespace Value

open Bytes

/-- A number in single precision, by its bits. -/
def scalarBytes (x : Scalar) : List UInt8 := littleEndian 4 x.bits.toNat

mutual

/-- The binary form of a value: the number of its constructor, then its fields. -/
def toBytes : Value → List UInt8
  | void => ofTag 0
  | bool b => ofTag 1 ++ ofBool b
  | int32 n => ofTag 2 ++ littleEndian 4 n.toUInt32.toNat
  | int64 n => ofTag 3 ++ littleEndian 8 n.toUInt64.toNat
  | float32 x => ofTag 4 ++ scalarBytes x
  | string s => ofTag 5 ++ ofString s
  | vec3 x y z => ofTag 6 ++ scalarBytes x ++ scalarBytes y ++ scalarBytes z
  | array vs => ofTag 7 ++ ofLength vs.length ++ elementBytes vs
  | object className ms =>
    ofTag 8 ++ ofString className ++ ofLength ms.length ++ memberBytes ms

/-- The elements of an array, one behind the other. -/
def elementBytes : List Value → List UInt8
  | [] => []
  | v :: vs => v.toBytes ++ elementBytes vs

/-- The members of an object, one behind the other: names with values. -/
def memberBytes : List (String × Value) → List UInt8
  | [] => []
  | (name, v) :: ms => ofString name ++ v.toBytes ++ memberBytes ms

end

/-- Read a number in single precision. -/
def readScalar : Reader Scalar := do
  return ⟨UInt32.ofNat (← Reader.number 4)⟩

/-- Read a value that nests no deeper than `depth`. Of members with one name the last one counts, in
the place of the first. -/
def readBytes : (depth : Nat) → Reader Value
  | 0 => failure
  | depth + 1 => do
    match ← Reader.tag with
    | 0 => return void
    | 1 => return bool (← Reader.bool)
    | 2 => return int32 (UInt32.ofNat (← Reader.number 4)).toInt32
    | 3 => return int64 (UInt64.ofNat (← Reader.number 8)).toInt64
    | 4 => return float32 (← readScalar)
    | 5 => return string (← Reader.string)
    | 6 => return vec3 (← readScalar) (← readScalar) (← readScalar)
    | 7 => return array (← Reader.list (readBytes depth))
    | 8 =>
      let className ← Reader.string
      let members ← Reader.list do
        let name ← Reader.string
        let v ← readBytes depth
        return (name, v)
      return object className (Entries.ofList members)
    | _ => failure

end Value

namespace ConnectionKind

/-- The number of a kind, its place among all kinds. -/
def number : ConnectionKind → Nat
  | nodeValueToNodeValue => 0
  | nodeEventToNodeEvent => 1
  | graphValueToNodeValue => 2
  | graphEventToNodeEvent => 3
  | nodeValueToGraphValue => 4
  | nodeEventToGraphEvent => 5
  | localVariableToNodeValue => 6
  | graphValueToGraphValue => 7
  | graphEventToGraphEvent => 8
  | localVariableToGraphValue => 9

theorem getElem?_number (k : ConnectionKind) :
    (Enumerated.all : List ConnectionKind)[k.number]? = some k := by
  cases k <;> rfl

end ConnectionKind

namespace Prototype

open Bytes

/-- The binary form of an identifier. -/
def identifierBytes (i : Identifier) : List UInt8 := littleEndian 4 i.hash.toNat

/-- The binary form of a node's identity. -/
def nodeIdBytes (id : NodeId) : List UInt8 := littleEndian identityWidth id.value

/-- The binary form of an endpoint. -/
def endpointBytes (e : Endpoint) : List UInt8 := identifierBytes e.id ++ e.value.toBytes

/-- The binary form of one side of a connection. -/
def connectionEndBytes (e : ConnectionEnd) : List UInt8 :=
  nodeIdBytes e.node ++ identifierBytes e.endpoint

/-- The binary form of a connection. -/
def connectionBytes (c : Connection) : List UInt8 :=
  connectionEndBytes c.source ++ connectionEndBytes c.destination ++ ofTag c.kind.number

mutual

/-- The binary form of a prototype. -/
def toBytes : Prototype → List UInt8
  | ⟨name, id, skeleton, inputs, outputs, plugs, nodes, connections⟩ =>
    ofString name ++ nodeIdBytes id ++ littleEndian identityWidth skeleton.toNat
      ++ ofList endpointBytes inputs ++ ofList endpointBytes outputs ++ ofList endpointBytes plugs
      ++ ofLength nodes.length ++ nodesBytes nodes ++ ofList connectionBytes connections

/-- The nodes of a prototype, one behind the other. -/
def nodesBytes : List (RuntimeNode Prototype) → List UInt8
  | [] => []
  | ⟨type, id, plugs, none⟩ :: rest =>
    identifierBytes type ++ nodeIdBytes id ++ ofList endpointBytes plugs ++ ofBool false
      ++ nodesBytes rest
  | ⟨type, id, plugs, some sub⟩ :: rest =>
    identifierBytes type ++ nodeIdBytes id ++ ofList endpointBytes plugs ++ ofBool true
      ++ sub.toBytes ++ nodesBytes rest

end

/-- Read an identifier. -/
def readIdentifier : Reader Identifier := do
  return ⟨UInt32.ofNat (← Reader.number 4)⟩

/-- Read the identity of a node. -/
def readNodeId : Reader NodeId := do
  return ⟨← Reader.number identityWidth⟩

/-- Read an endpoint whose value nests no deeper than `depth`. -/
def readEndpoint (depth : Nat) : Reader Endpoint := do
  return ⟨← readIdentifier, ← Value.readBytes depth⟩

/-- Read one side of a connection. -/
def readConnectionEnd : Reader ConnectionEnd := do
  return ⟨← readNodeId, ← readIdentifier⟩

/-- Read a connection. -/
def readConnection : Reader Connection := do
  let source ← readConnectionEnd
  let destination ← readConnectionEnd
  match (Enumerated.all : List ConnectionKind)[← Reader.tag]? with
  | some kind => return ⟨source, destination, kind⟩
  | none => failure

/-- Read a node, its subroutine by a given reader. -/
def readNode (depth : Nat) (subroutine : Reader Prototype) : Reader (RuntimeNode Prototype) := do
  let type ← readIdentifier
  let id ← readNodeId
  let plugs ← Reader.list (readEndpoint depth)
  if ← Reader.bool then
    return ⟨type, id, plugs, some (← subroutine)⟩
  else
    return ⟨type, id, plugs, none⟩

/-- Read a prototype that nests no deeper than `depth`. -/
def readBytes : (depth : Nat) → Reader Prototype
  | 0 => failure
  | depth + 1 => do
    let name ← Reader.string
    let id ← readNodeId
    let skeleton ← Reader.number identityWidth
    let inputs ← Reader.list (readEndpoint depth)
    let outputs ← Reader.list (readEndpoint depth)
    let plugs ← Reader.list (readEndpoint depth)
    let nodes ← Reader.list (readNode depth (readBytes depth))
    let connections ← Reader.list readConnection
    return ⟨name, id, UInt64.ofNat skeleton, inputs, outputs, plugs, nodes, connections⟩

/-- The prototype at the front of some bytes. -/
def ofBytes? (bs : List UInt8) : Option Prototype :=
  ((readBytes bs.length).run bs).map Prod.fst

end Prototype

end PoseGraph
