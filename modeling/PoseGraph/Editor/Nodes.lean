import PoseGraph.Editor.Links

/-!
Creating and removing nodes, and setting the literals of pins.

Removing a node removes its links, the transitions that lose an end, and all graphs that no node
owns any more.
-/

namespace PoseGraph

namespace SubGraph

/-- The links that go with a node: those that touch it, and those with a missing end. -/
def deadLinks (g : SubGraph) (id : NodeId) : List Link :=
  g.links.filter fun l =>
    match g.nodeOfPin? l.source, g.nodeOfPin? l.target with
    | some s, some t => s.id == id || t.id == id
    | _, _ => true

/-- Whether an end of a transition is joined to a node. -/
def isJoined (g : SubGraph) (pin : Option Pin) : Bool :=
  pin.any fun p => (g.neighbour? p.id).isSome

/-- The transitions that lack a node at either end. -/
def danglingTransitions (g : SubGraph) : List NodeId :=
  (g.nodes.filter fun n =>
    n.kind == .transition && !(g.isJoined n.inputs.head? && g.isJoined n.outputs.head?)).map Node.id

end SubGraph

namespace Asset

/-- Drop the graphs whose owner is in no graph. -/
def dropOrphans (a : Asset) : Asset :=
  { a with graphs := a.graphs.filterKeys fun owner => owner.isRoot || (a.findNode? owner).isSome }

/-- Drop orphaned graphs until none is left. Each round but the last drops a graph. -/
def collectOrphans (a : Asset) : Asset := go a.graphs.size a
where
  /-- At most `n` rounds. -/
  go : Nat → Asset → Asset
    | 0, a => a
    | n + 1, a =>
      if a.dropOrphans.graphs.size = a.graphs.size then a else go n a.dropOrphans

end Asset

namespace Editor

/-- Add a node to the graph of an owner. It gets its own graph if it owns one, and the state machine
that it is added to gets an entry state. -/
def addNode (e : Editor) (owner : NodeId) (n : Node) : Editor :=
  let e := (e.modifyAsset fun a => (a.ensureGraph owner).modifyGraph owner (·.addNode n)).invalidate
  let e := if n.isSubroutine then e.ensureSubGraph n.id else e
  e.ensureEntryOfMachine owner

/-- Place a node in the active graph; none if the palette has no such node. -/
def createNode (e : Editor) (category name : String) : Editor × Option NodeId :=
  match e.spawn (e.palette e.activeOwner) category name with
  | none => (e, none)
  | some (n, e) => (e.addNode e.activeOwner n, some n.id)

/-- Remove the links that go with a node. -/
def removeDeadLinks (e : Editor) (owner : NodeId) (id : NodeId) : Editor :=
  match e.asset.graph? owner with
  | none => e
  | some g =>
    let dead := g.deadLinks id
    if dead.isEmpty then e else e.dropLinksIn owner g dead

/-- Remove nodes that the graph of an owner has, with their links. -/
def dropNodes (e : Editor) (owner : NodeId) (doomed : List NodeId) : Editor :=
  (doomed.foldl (fun e id => e.removeDeadLinks owner id) e).modifyGraph owner fun g =>
    { g with nodes := g.nodes.filter fun n => !doomed.contains n.id }

/-- Remove nodes from the graph of an owner, and then, round by round, the transitions that lose an
end by it. Each round removes a node, so that the number of nodes bounds the rounds. -/
def removeRounds (owner : NodeId) : Nat → Editor → List NodeId → Editor
  | 0, e, _ => e
  | rounds + 1, e, doomed =>
    let e := (e.dropNodes owner doomed).invalidate
    let dangling := ((e.asset.graph? owner).map SubGraph.danglingTransitions).getD []
    if dangling.isEmpty then
      (e.modifyAsset (·.collectOrphans)).ensureEntryOfMachine owner
    else removeRounds owner rounds e dangling

/-- Remove nodes from the graph of an owner; false if there is none of them. -/
def removeNodesIn (e : Editor) (owner : NodeId) (ids : List NodeId) : Editor × Bool :=
  match e.asset.graph? owner with
  | none => (e, false)
  | some g =>
    let doomed := ids.filter g.hasNode
    if doomed.isEmpty then (e, false)
    else (removeRounds owner (g.nodes.length + 1) e doomed, true)

/-- Remove nodes from the active graph; false if there is none of them. -/
def removeNodes (e : Editor) (ids : List NodeId) : Editor × Bool := e.removeNodesIn e.activeOwner ids

/-- Remove a node from the active graph; false if there is no such node. -/
def removeNode (e : Editor) (id : NodeId) : Editor × Bool := e.removeNodes [id]

/-- The label of a quick state: the name of its clip, or of its type while it has no valid clip. -/
def clipLabel (e : Editor) (n : Node) (pin : PinId) : String :=
  let handle? := ((n.pin? pin).bind fun p => p.value.asHandle?).filter e.catalog.isValid
  (handle?.bind e.catalog.nameOf?).getD n.name

/-- Set the literal of a pin of the active graph; false if there is no such pin. Quick states are
labelled after their clip. -/
def setPinValue (e : Editor) (pin : PinId) (v : Value) : Editor × Bool :=
  let owner := e.activeOwner
  match (e.asset.graph? owner).bind (·.pin? pin) with
  | none => (e, false)
  | some p =>
    let e := (e.modifyGraph owner (·.modifyPin pin (·.withValue v))).invalidate
    match (e.asset.graph? owner).bind (·.node? p.node) with
    | some n =>
      if n.kind = .quickState then
        let label := e.clipLabel n pin
        (e.modifyGraph owner (·.modifyNode p.node fun n => { n with description := label }), true)
      else (e, true)
    | none => (e, true)

end Editor

end PoseGraph
