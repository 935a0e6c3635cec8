import PoseGraph.Asset
import PoseGraph.Document.Layout
import PoseGraph.Prototype.Document

/-!
Assets in documents, the form in which they are saved.
-/

namespace PoseGraph

open Document

/-- The term of the identity of a pin. -/
def PinId.toTerm (id : PinId) : Term := .newtype (.ofNat id.value)

/-- The identity of a pin that a term describes. -/
def PinId.ofTerm? : Decoder PinId := fun s t =>
  (Decoder.newtype "PinId" (.nat 64) s t).map PinId.mk

/-- The term of the identity of a link. -/
def LinkId.toTerm (id : LinkId) : Term := .newtype (.ofNat id.value)

/-- The identity of a link that a term describes. -/
def LinkId.ofTerm? : Decoder LinkId := fun s t =>
  (Decoder.newtype "LinkId" (.nat 64) s t).map LinkId.mk

/-- The term of a pin. -/
def Pin.toTerm (p : Pin) : Term :=
  .record none [
    ("id", p.id.toTerm),
    ("node_id", p.node.toTerm),
    ("name", .text p.name),
    ("value", p.value.toTerm),
    ("storage", .ofEnumerated p.storage),
    ("kind", .ofEnumerated p.kind),
    ("pin_type", .ofEnumerated p.type)]

/-- The pin that a term describes. -/
def Pin.ofTerm? : Decoder Pin := fun s t => do
  let fields ← Decoder.fields "Pin"
    ["id", "node_id", "name", "value", "storage", "kind", "pin_type"] s t
  return {
    id := ← fields.value? "id" PinId.ofTerm?
    node := ← fields.value? "node_id" NodeId.ofTerm?
    name := ← fields.value? "name" Decoder.text
    value := ← fields.value? "value" Value.read?
    storage := ← fields.value? "storage" Decoder.enumerated
    kind := ← fields.value? "kind" Decoder.enumerated
    type := ← fields.value? "pin_type" Decoder.enumerated }

/-- The term of a link. -/
def Link.toTerm (l : Link) : Term :=
  .record none [
    ("id", l.id.toTerm),
    ("start_pin_id", l.source.toTerm),
    ("end_pin_id", l.target.toTerm),
    ("color", .ofColor l.color)]

/-- The link that a term describes. -/
def Link.ofTerm? : Decoder Link := fun s t => do
  let fields ← Decoder.fields "Link" ["id", "start_pin_id", "end_pin_id", "color"] s t
  return {
    id := ← fields.value? "id" LinkId.ofTerm?
    source := ← fields.value? "start_pin_id" PinId.ofTerm?
    target := ← fields.value? "end_pin_id" PinId.ofTerm?
    color := ← fields.value? "color" Decoder.color }

/-- The term of a node. -/
def Node.toTerm (n : Node) : Term :=
  .record none [
    ("id", n.id.toTerm),
    ("category", .text n.category),
    ("name", .text n.name),
    ("description", .text n.description),
    ("inputs", .list (n.inputs.map Pin.toTerm)),
    ("outputs", .list (n.outputs.map Pin.toTerm)),
    ("color", .ofColor n.color),
    ("node_type", .ofEnumerated n.type),
    ("position", .ofPoint n.position),
    ("size", .ofPoint n.size),
    ("sort_index", .ofInt n.sortIndex),
    ("is_entry_state", .ofBool n.isEntry),
    ("offset", .ofPoint n.offset),
    ("lerp_seconds_per_unit", .ofPoint n.lerpSecondsPerUnit)]

/-- The node that a term describes. -/
def Node.ofTerm? : Decoder Node := fun s t => do
  let fields ← Decoder.fields "Node"
    ["id", "category", "name", "description", "inputs", "outputs", "color", "node_type", "position",
      "size", "sort_index", "is_entry_state", "offset", "lerp_seconds_per_unit"] s t
  return {
    id := ← fields.value? "id" NodeId.ofTerm?
    category := ← fields.value? "category" Decoder.text
    name := ← fields.value? "name" Decoder.text
    description := ← fields.value? "description" Decoder.text
    inputs := ← fields.value? "inputs" (.list Pin.ofTerm?)
    outputs := ← fields.value? "outputs" (.list Pin.ofTerm?)
    color := ← fields.value? "color" Decoder.color
    type := ← fields.value? "node_type" Decoder.enumerated
    position := ← fields.value? "position" Decoder.point
    size := ← fields.value? "size" Decoder.point
    sortIndex := ← fields.value? "sort_index" (.whole (.signed 32))
    isEntry := ← fields.value? "is_entry_state" Decoder.bool
    offset := ← fields.value? "offset" Decoder.point
    lerpSecondsPerUnit := ← fields.value? "lerp_seconds_per_unit" Decoder.point }

/-- The term of a graph. -/
def SubGraph.toTerm (g : SubGraph) : Term :=
  .record none [
    ("nodes", .list (g.nodes.map Node.toTerm)),
    ("links", .list (g.links.map Link.toTerm))]

/-- The graph that a term describes. -/
def SubGraph.ofTerm? : Decoder SubGraph := fun s t => do
  let fields ← Decoder.fields "SubGraph" ["nodes", "links"] s t
  return {
    nodes := ← fields.value? "nodes" (.list Node.ofTerm?)
    links := ← fields.value? "links" (.list Link.ofTerm?) }

namespace Asset

/-- The term of an asset. -/
def toTerm (a : Asset) : Term :=
  .record none [
    ("id", a.id.toTerm),
    ("name", .text a.name),
    ("inputs", a.inputs.toTerm),
    ("outputs", a.outputs.toTerm),
    ("local_variables", a.localVariables.toTerm),
    ("skeleton", .ofNat a.skeleton.toNat),
    ("graphs", .map (a.graphs.entries.map fun (owner, g) => (owner.toTerm, g.toTerm))),
    ("prototype", .ofOption (a.prototype.map Prototype.toTerm))]

/-- The asset that a term describes. Of graphs with one owner the last one counts, in the place of the
first. -/
def ofTerm? : Decoder Asset := fun s t => do
  let fields ← Decoder.fields "AnimationGraphAsset"
    ["id", "name", "inputs", "outputs", "local_variables", "skeleton", "graphs", "prototype"] s t
  return {
    id := ← fields.value? "id" NodeId.ofTerm?
    name := ← fields.value? "name" Decoder.text
    inputs := ← fields.value? "inputs" Properties.ofTerm?
    outputs := ← fields.value? "outputs" Properties.ofTerm?
    localVariables := ← fields.value? "local_variables" Properties.ofTerm?
    skeleton := UInt64.ofNat (← fields.value? "skeleton" (.nat 64))
    graphs := Table.ofList (← fields.value? "graphs" (.map NodeId.ofTerm? SubGraph.ofTerm?))
    prototype := ← fields.valueOr "prototype" (.option "Prototype" Prototype.read?) none }

/-- The text of an asset, which fails where values or prototypes nest too deep. -/
def write (a : Asset) : Option String := a.toTerm.write

/-- The asset that a text describes. -/
def read (s : String) : Option Asset := do
  let document ← Document.read s
  ofTerm? document.scope document.term

end Asset

end PoseGraph
