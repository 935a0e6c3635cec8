import PoseGraph.Asset
import PoseGraph.Catalog
import PoseGraph.Palette.Standard
import PoseGraph.Settings

/-!
The editor: an asset with all that editing it needs.

The path leads from the top level down to the active graph, in which nodes and links are edited.
Every edit is a function from editors to editors; identities are drawn from `nextId`, which only
grows.
-/

namespace PoseGraph

/-- An asset being edited. -/
structure Editor where
  asset : Asset
  catalog : Catalog
  settings : Settings
  /-- Owners of the graphs from below the top level down to the active one. -/
  path : List NodeId
  /-- Whether the asset may differ from what was last compiled. -/
  isDirty : Bool
  /-- The next identity to be drawn. -/
  nextId : Nat

namespace Editor

/-- Record that the asset differs from what was compiled. -/
def invalidate (e : Editor) : Editor := { e with isDirty := true }

/-- Change the asset. -/
def modifyAsset (e : Editor) (f : Asset → Asset) : Editor := { e with asset := f e.asset }

/-- Change one graph of the asset. -/
def modifyGraph (e : Editor) (owner : NodeId) (f : SubGraph → SubGraph) : Editor :=
  e.modifyAsset (·.modifyGraph owner f)

/-- The owner of the active graph. -/
def activeOwner (e : Editor) : NodeId := e.path.getLast?.getD .root

/-- The active graph. -/
def activeGraph? (e : Editor) : Option SubGraph := e.asset.graph? e.activeOwner

/-- The node of the active graph with an identity. -/
def node? (e : Editor) (id : NodeId) : Option Node := e.activeGraph?.bind (·.node? id)

/-- The pin of the active graph with an identity. -/
def pin? (e : Editor) (id : PinId) : Option Pin := e.activeGraph?.bind (·.pin? id)

/-- What the graph of an owner is edited with. -/
def graphKind (e : Editor) (owner : NodeId) : GraphKind := .ofOwner (e.asset.ownerKind? owner)

/-- The palette of the graph of an owner. -/
def palette (e : Editor) (owner : NodeId) : Palette := .ofKind (e.graphKind owner)

/-- Index of a bone in the skeleton of the asset. The root has index 0, the bones of the skeleton
follow it, and unknown bones have the null index. -/
def boneIndex (e : Editor) (bone : String) : UInt32 :=
  if bone = "root" then 0
  else match e.catalog.findBone? e.asset.skeleton bone with
    | some i => i + 1
    | none => nullBoneIndex

/-- Copy a template of a palette, drawing the identities of the copy. -/
def spawn (e : Editor) (p : Palette) (category name : String) : Option (Node × Editor) :=
  (p.spawn category name e.nextId).map fun (n, next) => (n, { e with nextId := next })

/-- Draw identities that stay unused. -/
def spend (e : Editor) (count : Nat) : Editor := { e with nextId := e.nextId + count }

/-- Give a node built by hand its identities. Its pins have drawn some before, when they were made. -/
def adopt (e : Editor) (n : Node) : Node × Editor :=
  let (n, next) := n.withFreshIds (e.nextId + n.pins.length)
  (n, { e with nextId := next })

/-- Use other assets' skeleton to resolve bones. -/
def setSkeleton (e : Editor) (handle : AssetHandle) : Editor :=
  (e.modifyAsset fun a => { a with skeleton := handle }).invalidate

/-- Use other settings. -/
def setSettings (e : Editor) (settings : Settings) : Editor := { e with settings }

/-- Change a node of the active graph, to lay it out. The asset counts as changed even if there is
no such node. -/
def editNode (e : Editor) (id : NodeId) (f : Node → Node) : Editor :=
  (e.modifyGraph e.activeOwner (·.modifyNode id f)).invalidate

/-- The path after going to a node: back to it if it is on the path, else one level down. -/
def pathTo (path : List NodeId) (id : NodeId) : List NodeId :=
  match path.findIdx? (· == id) with
  | some i => path.take (i + 1)
  | none => path ++ [id]

/-- Make the graph of a node the active one; none, or the root, stands for the top level. -/
def setPath (e : Editor) (target : Option NodeId) : Editor :=
  match target with
  | none => { e with path := [] }
  | some id => { e with path := if id.isRoot then [] else pathTo e.path id }

/-- The node that a new graph of an owner of a given kind begins with. -/
def seed? (e : Editor) : NodeKind → Option (Node × Editor)
  | .transition => e.spawn .transition "Transition" "Output"
  | .stateMachine | .blendSpace => none
  | _ => e.spawn .animation "Animation" "Output"

/-- Give a node that owns a graph its graph, if it has none yet. -/
def ensureSubGraph (e : Editor) (id : NodeId) : Editor :=
  if id.isRoot || e.asset.hasGraph id then e
  else match e.asset.findNode? id with
    | none => e
    | some n =>
      if n.isSubroutine then
        match e.seed? n.kind with
        | some (output, e) => e.modifyAsset fun a => (a.ensureGraph id).modifyGraph id (·.addNode output)
        | none => e.modifyAsset (·.ensureGraph id)
      else e

/-- Go down into a node, giving it its graph if needed. -/
def enterNode (e : Editor) (id : NodeId) : Editor :=
  ((e.setPath (some id)).ensureSubGraph id).invalidate

end Editor

/-- Mark the first state of a state machine as its entry, if none is marked. -/
def SubGraph.ensureEntry (g : SubGraph) : SubGraph :=
  if g.nodes.any Node.isEntry then g
  else { g with nodes := Node.modifyFirst Node.isState (fun n => { n with isEntry := true }) g.nodes }

namespace Editor

/-- Mark an entry state in the graph of an owner. -/
def ensureEntryIn (e : Editor) (owner : NodeId) : Editor := e.modifyGraph owner (·.ensureEntry)

/-- Mark an entry state in the graph of an owner that is a state machine. -/
def ensureEntryOfMachine (e : Editor) (owner : NodeId) : Editor :=
  if e.asset.ownerKind? owner = some .stateMachine then e.ensureEntryIn owner else e

/-- Mark an entry state in the active graph. -/
def ensureEntry (e : Editor) : Editor := e.ensureEntryIn e.activeOwner

/-- Mark an entry state in every state machine. -/
def ensureEntries (e : Editor) : Editor :=
  (e.asset.owners.filter fun owner => e.asset.ownerKind? owner = some .stateMachine).foldl
    ensureEntryIn e

/-- An editor at the top level of an asset. The asset gets a top-level graph if it lacks one, and
its state machines get entry states. -/
def ofAsset (asset : Asset) (catalog : Catalog := .empty) (settings : Settings := .default)
    (nextId : Nat := firstFreshIdentity) : Editor :=
  ({ asset := asset.ensureGraph .root, catalog, settings, path := [], isDirty := true, nextId } :
    Editor).ensureEntries

end Editor

end PoseGraph
