import PoseGraph.Editor.Basic

/-!
Evaluation order of the nodes and links of a graph.

A dataflow graph is walked depth-first from its sinks, the nodes named `Output` or `Event`. What
feeds a node is walked before the node gets its index, so that an index exceeds those of all
feeders; on a cycle, only the link into a node that is being walked runs backwards. Consumers of
indexed nodes wait in a queue and are walked the same way once the walk before them has ended. Nodes
without a connection to a sink get no index.

All nodes of one local variable move as a unit: they are fed by what feeds the setter and share an
index. Variables without a setter come before everything else and have index 0.

State machines are no pipelines: the entry state gets 0 and every other node 1.
-/

namespace PoseGraph

/-- What the walk asks about the nodes of a graph. -/
structure Dependencies where
  /-- The nodes that are indexed together with a node, itself included. -/
  unit : NodeId → List NodeId
  /-- The nodes that feed the unit of a node. -/
  feeders : NodeId → List NodeId
  /-- The nodes that a node feeds. -/
  consumers : NodeId → List NodeId
  /-- Whether the unit of a node is a local variable that nothing can feed. -/
  isSetterless : NodeId → Bool

/-- Progress of the walk. -/
structure Walk where
  /-- The indices given so far, latest first. -/
  index : List (NodeId × Nat)
  /-- Consumers from which a walk is still to start. -/
  pending : List NodeId
  /-- The next index. -/
  next : Nat

namespace Walk

/-- The beginning of the walk. Index 0 is kept for variables without setter. -/
def start : Walk := ⟨[], [], 1⟩

/-- The index of a node. -/
def index? (w : Walk) (id : NodeId) : Option Nat := w.index.lookup id

/-- Whether the walk may enter a node: it has no index, and no node of its unit is being walked. -/
def canEnter (w : Walk) (d : Dependencies) (stack : List NodeId) (id : NodeId) : Bool :=
  (w.index? id).isNone && (d.unit id).all fun m => !stack.contains m

/-- Give an index to a node and queue its consumers. -/
def place (w : Walk) (d : Dependencies) (index : Nat) (id : NodeId) : Walk :=
  { w with index := (id, index) :: w.index, pending := w.pending ++ d.consumers id }

/-- Give the unit of a node the next index, or index 0 if nothing can feed it. -/
def placeUnit (w : Walk) (d : Dependencies) (id : NodeId) : Walk :=
  if d.isSetterless id then (d.unit id).foldl (fun acc m => acc.place d 0 m) w
  else (d.unit id).foldl (fun acc m => acc.place d w.next m) { w with next := w.next + 1 }

/-- Walk the feeders of a node that may be entered, then index its unit. `stack` holds the nodes
being walked. The first argument bounds the depth; each level puts at least one more node of the
graph on the stack. -/
def visit (d : Dependencies) : Nat → List NodeId → Walk → NodeId → Walk
  | 0, _, w, _ => w
  | depth + 1, stack, w, id =>
    let stack := d.unit id ++ stack
    let enter := fun w feeder => if w.canEnter d stack feeder then visit d depth stack w feeder else w
    ((d.feeders id).foldl enter w).placeUnit d id

/-- Walk from the queued nodes that have no index yet, in order. Each round indexes a unit, so that
the number of nodes bounds the rounds. -/
def drain (d : Dependencies) (depth : Nat) : Nat → Walk → Walk
  | 0, w => w
  | rounds + 1, w =>
    match w.pending.dropWhile fun id => !w.canEnter d [] id with
    | [] => { w with pending := [] }
    | id :: rest => drain d depth rounds (visit d depth [] { w with pending := rest } id)

/-- Walk from a sink, and then from the consumers of what is indexed on the way. -/
def fromSink (d : Dependencies) (size : Nat) (w : Walk) (sink : NodeId) : Walk :=
  drain d size (size + 1) { w with pending := w.pending ++ [sink] }

end Walk

/-- A link whose pins exist. -/
structure Edge where
  source : NodeId
  targetPin : PinId
  target : NodeId

/-- Identities in increasing order. -/
def sortIds (ids : List NodeId) : List NodeId := ids.mergeSort fun a b => a.value ≤ b.value

/-- A list without repetitions; the first occurrence of each element stays. -/
def keepFirst (ids : List NodeId) : List NodeId :=
  ids.foldl (fun kept id => if kept.contains id then kept else kept ++ [id]) []

namespace SubGraph

/-- The last node that has a pin. -/
def lastNodeOfPin? (g : SubGraph) (pin : PinId) : Option NodeId :=
  (g.nodes.reverse.find? (·.hasPin pin)).map Node.id

/-- The links whose pins exist. -/
def edges (g : SubGraph) : List Edge :=
  g.links.filterMap fun l =>
    match g.lastNodeOfPin? l.source, g.lastNodeOfPin? l.target with
    | some source, some target => some ⟨source, l.target, target⟩
    | _, _ => none

/-- The nodes that feed a node, by input and then by identity. -/
def feedersOf (g : SubGraph) (edges : List Edge) (id : NodeId) : List NodeId :=
  match g.nodes.reverse.find? (·.id == id) with
  | none => []
  | some n =>
    keepFirst <| n.inputs.flatMap fun p =>
      sortIds ((edges.filter fun e => e.targetPin == p.id).map Edge.source)

/-- The nodes that a node feeds, by identity. -/
def consumersOf (edges : List Edge) (id : NodeId) : List NodeId :=
  keepFirst (sortIds ((edges.filter fun e => e.source == id).map Edge.target))

/-- The local variable that a node stands for. -/
def variableOf? (g : SubGraph) (id : NodeId) : Option String :=
  g.nodes.reverse.findSome? fun n => if n.id = id then n.variableName? else none

/-- The nodes of a local variable, by identity. -/
def variableNodes (g : SubGraph) (name : String) : List NodeId :=
  sortIds ((g.nodes.filter fun n => n.variableName? == some name).map Node.id)

/-- The setter of a local variable with the least identity. -/
def leastSetter? (g : SubGraph) (name : String) : Option NodeId :=
  (sortIds ((g.nodes.filter fun n => n.isSetter && n.variableName? == some name).map Node.id)).head?

/-- What the walk asks about the nodes of a graph. -/
def dependencies (g : SubGraph) : Dependencies :=
  let edges := g.edges
  { unit := fun id =>
      match g.variableOf? id with
      | some name => g.variableNodes name
      | none => [id]
    feeders := fun id =>
      match g.variableOf? id with
      | some name => ((g.leastSetter? name).map (g.feedersOf edges)).getD []
      | none => g.feedersOf edges id
    consumers := consumersOf edges
    isSetterless := fun id =>
      match g.variableOf? id with
      | some name => (g.leastSetter? name).isNone
      | none => false }

/-- The nodes at which graphs end, by identity. -/
def sinks (g : SubGraph) : List NodeId :=
  sortIds <| (g.nodes.filter fun n =>
    !n.isComment && (n.name == "Output" || n.name == "Event")).map Node.id

/-- The walk of a whole graph. -/
def walk (g : SubGraph) : Walk :=
  g.sinks.foldl (Walk.fromSink g.dependencies g.nodes.length) .start

/-- Compare indices, nodes without one last. -/
def indexLe : Option Nat → Option Nat → Bool
  | some i, some j => i ≤ j
  | none, some _ => false
  | _, none => true

/-- A list without repetitions in a row. -/
def dropRepeats : List Nat → List Nat
  | [] => []
  | [i] => [i]
  | i :: j :: rest => if i = j then dropRepeats (j :: rest) else i :: dropRepeats (j :: rest)

/-- Order nodes by the indices of a walk and number them densely from 0. -/
def applyIndices (index? : NodeId → Option Nat) (nodes : List Node) : List Node :=
  let sorted := (nodes.map fun n => (index? n.id, n)).mergeSort fun a b => indexLe a.1 b.1
  let ranks := dropRepeats (sorted.filterMap Prod.fst)
  sorted.map fun (i, n) =>
    { n with sortIndex :=
        match i.bind fun i => ranks.findIdx? (· == i) with
        | some rank => rank
        | none => undefinedSortIndex }

/-- Position of the last node that has a pin. -/
def lastPosition? (nodes : List Node) (pin : PinId) : Option Nat :=
  (nodes.reverse.findIdx? (·.hasPin pin)).map fun i => nodes.length - 1 - i

/-- Order links by the positions of the nodes at both ends, missing pins last. -/
def sortLinks (nodes : List Node) (links : List Link) : List Link :=
  let keyed := links.map fun l => ((lastPosition? nodes l.source, lastPosition? nodes l.target), l)
  let le := fun (a b : (Option Nat × Option Nat) × Link) =>
    if a.1.1 = b.1.1 then indexLe a.1.2 b.1.2 else indexLe a.1.1 b.1.1
  (keyed.mergeSort le).map Prod.snd

/-- A dataflow graph in evaluation order. -/
def inEvaluationOrder (g : SubGraph) : SubGraph :=
  let nodes := applyIndices g.walk.index? g.nodes
  ⟨nodes, sortLinks nodes g.links⟩

/-- A state machine with its entry state first. -/
def entryFirst (g : SubGraph) : SubGraph :=
  let marked := g.nodes.map fun n => { n with sortIndex := if n.isEntry then 0 else 1 }
  { g with nodes := marked.mergeSort fun a b => a.sortIndex ≤ b.sortIndex }

end SubGraph

/-- Put one graph of an asset into order. -/
def Asset.sortGraph (a : Asset) (owner : NodeId) : Asset :=
  if a.ownerKind? owner = some .stateMachine then a.modifyGraph owner (·.entryFirst)
  else a.modifyGraph owner (·.inEvaluationOrder)

/-- Put all graphs of an asset into order. -/
def Asset.sorted (a : Asset) : Asset := a.owners.foldl Asset.sortGraph a

/-- Put all graphs into order. -/
def Editor.sort (e : Editor) : Editor := e.modifyAsset Asset.sorted

end PoseGraph
