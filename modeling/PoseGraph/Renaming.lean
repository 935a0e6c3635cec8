import PoseGraph.Asset
import PoseGraph.Compilation

/-!
Renaming of identities.

Identities say which things belong together and nothing else, apart from their order. A renaming
replaces them wherever they occur: in the graphs of an asset, in its prototype, and in errors.
-/

namespace PoseGraph

/-- New identities for old ones. -/
structure Renaming where
  node : NodeId → NodeId
  pin : PinId → PinId
  link : LinkId → LinkId

/-- The renaming that changes nothing. -/
def Renaming.unchanged : Renaming := ⟨fun n => n, fun p => p, fun l => l⟩

/-- Rename a pin and its node. -/
def Pin.rename (r : Renaming) (p : Pin) : Pin := { p with id := r.pin p.id, node := r.node p.node }

/-- Rename a node and its pins. -/
def Node.rename (r : Renaming) (n : Node) : Node :=
  { n with
    id := r.node n.id
    inputs := n.inputs.map (Pin.rename r)
    outputs := n.outputs.map (Pin.rename r) }

/-- Rename a link and its pins. -/
def Link.rename (r : Renaming) (l : Link) : Link :=
  { l with id := r.link l.id, source := r.pin l.source, target := r.pin l.target }

/-- Rename the nodes and links of a graph. -/
def SubGraph.rename (r : Renaming) (g : SubGraph) : SubGraph :=
  ⟨g.nodes.map (Node.rename r), g.links.map (Link.rename r)⟩

/-- Rename the node of one side of a connection. -/
def ConnectionEnd.rename (r : Renaming) (e : ConnectionEnd) : ConnectionEnd :=
  { e with node := r.node e.node }

/-- Rename the nodes of a connection. -/
def Connection.rename (r : Renaming) (c : Connection) : Connection :=
  { c with source := c.source.rename r, destination := c.destination.rename r }

mutual

/-- Rename the nodes of a prototype. -/
def Prototype.rename (r : Renaming) : Prototype → Prototype
  | ⟨name, id, skeleton, inputs, outputs, plugs, nodes, connections⟩ =>
    ⟨name, r.node id, skeleton, inputs, outputs, plugs, Prototype.renameNodes r nodes,
      connections.map (Connection.rename r)⟩

/-- Rename the nodes in a list. -/
def Prototype.renameNodes (r : Renaming) :
    List (RuntimeNode Prototype) → List (RuntimeNode Prototype)
  | [] => []
  | ⟨type, id, plugs, none⟩ :: rest => ⟨type, r.node id, plugs, none⟩ :: renameNodes r rest
  | ⟨type, id, plugs, some sub⟩ :: rest =>
    ⟨type, r.node id, plugs, some (sub.rename r)⟩ :: renameNodes r rest

end

/-- Rename all that has an identity in an asset. -/
def Asset.rename (r : Renaming) (a : Asset) : Asset :=
  { a with
    id := r.node a.id
    graphs := Table.ofList (a.graphs.entries.map fun (owner, g) => (r.node owner, g.rename r))
    prototype := a.prototype.map (Prototype.rename r) }

/-- Rename what an error speaks of. -/
def ParseError.rename (r : Renaming) : ParseError → ParseError
  | missingSubGraph owner => missingSubGraph (r.node owner)
  | missingPin pin => missingPin (r.pin pin)
  | missingEventName node => missingEventName (r.node node)
  | unsupportedInputAction node => unsupportedInputAction (r.node node)
  | subroutine label cause => subroutine label (cause.rename r)

end PoseGraph
