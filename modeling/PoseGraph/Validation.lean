import PoseGraph.Editor.Basic
import PoseGraph.Triangulation

/-!
Checks made before compilation.

Every graph is checked and all problems are collected. Errors block compilation; warnings point at
what compiles but will probably misbehave.
-/

namespace PoseGraph

/-- The outcome of validation. -/
structure ValidationReport where
  /-- Problems that block compilation. -/
  errors : List String
  /-- Problems that are only reported. -/
  warnings : List String
  deriving DecidableEq

namespace ValidationReport

/-- The report without problems. -/
def empty : ValidationReport := ⟨[], []⟩

/-- Two reports one after the other. -/
def append (a b : ValidationReport) : ValidationReport :=
  ⟨a.errors ++ b.errors, a.warnings ++ b.warnings⟩

/-- A report of errors only. -/
def ofErrors (errors : List String) : ValidationReport := ⟨errors, []⟩

/-- Whether there is no error. -/
def isValid (r : ValidationReport) : Bool := r.errors.isEmpty

end ValidationReport

/-- A text in single quotes. -/
def quoted (s : String) : String := "'" ++ s ++ "'"

namespace Editor

/-- What is wrong with an input of a node, apart from its linkage. -/
def inputError? (e : Editor) (g : SubGraph) (p : Pin) : Option String :=
  match p.type with
  | .animationAsset =>
    let handle := match p.storage with
      | .array => 0
      | .value => p.value.asHandle?.getD 0
    if !e.catalog.isValid handle && (g.neighbour? p.id).isNone then
      some (p.name ++ " asset is not valid")
    else none
  | .pose =>
    if p.name = "Pose" ∧ (g.neighbour? p.id).isNone then
      some (p.name ++ " input is not connected")
    else none
  | .bone =>
    match p.value.asBoneName? with
    | some bone =>
      if e.boneIndex bone = nullBoneIndex then
        some (p.name ++ " " ++ quoted bone ++ " not found in skeleton")
      else none
    | none => none
  | _ => none

/-- What is wrong with an output of a node: where its first link leads. -/
def outputError? (g : SubGraph) (p : Pin) : Option String :=
  match g.links.find? (·.source == p.id) with
  | none => none
  | some l =>
    match g.pin? l.target with
    | none => some (p.name ++ " output is connected to a pin that does not exist")
    | some q =>
      if q.sameType p then none
      else some (p.name ++ " output is connected to a pin of different type")

/-- The first problem with the pins of a node. -/
def pinError? (e : Editor) (g : SubGraph) (n : Node) : Option String :=
  (n.inputs.findSome? (e.inputError? g)).or (n.outputs.findSome? (outputError? g))

/-- What a graph of a node lacks once its nodes are in order. -/
def bodyError? (n : Node) (g : SubGraph) : Option String :=
  match n.kind with
  | .state =>
    if (g.nodeNamed? "Output").isNone then
      some ("State " ++ quoted n.description ++ " graph has no 'Output' node")
    else none
  | .transition =>
    match g.nodeNamed? "Output" with
    | none => some "Transition graph has no 'Output' node"
    | some output =>
      match output.inputs.head? with
      | none => none
      | some condition =>
        if g.isLinked condition.id || condition.value.asBool? == some true then none
        else some "Transition will never occur."
  | _ => none

/-- The graph of a node that owns one, unless it is missing or has nothing but its first node. -/
def body? (e : Editor) (n : Node) : Option SubGraph :=
  (e.asset.graph? n.id).filter fun g => (if n.kind = .state then 1 else 0) < g.nodes.length

/-- The first problem with a node in the graph of an owner, looking at most `depth` levels down. A
node that owns a graph is checked through it. -/
def nodeErrorWithin (e : Editor) : Nat → NodeId → Node → Option String
  | 0, _, _ => none
  | depth + 1, owner, n =>
    if n.isSubroutine then
      match e.body? n with
      | none => some (n.name ++ " sub-graph has not been defined")
      | some g => (g.nodes.findSome? (e.nodeErrorWithin depth n.id)).or (bodyError? n g)
    else (e.asset.graph? owner).bind fun g => e.pinError? g n

/-- The first problem with a node in the graph of an owner. Graphs nest no deeper than there are
graphs. -/
def nodeError? (e : Editor) (owner : NodeId) (n : Node) : Option String :=
  e.nodeErrorWithin (e.asset.graphs.size + 1) owner n

/-- Names of nodes that are known without a template. -/
def structuralNames : List String := ["Output", "Input Action", "Event"]

/-- Whether validation knows what a node is. -/
def isKnown (e : Editor) (n : Node) : Bool :=
  structuralNames.contains n.name || e.asset.isPropertyNode n || Palette.isRuntimeType n.name

/-- The errors of a node in the graph of an owner. -/
def nodeErrors (e : Editor) (owner : NodeId) (g : SubGraph) (n : Node) : List String :=
  let unknown :=
    if e.isKnown n then []
    else ["Animation Graph Factory doesn't contain node with type ID " ++ quoted n.name]
  let unlinked := (n.inputs.filter fun p => p.value.isVoid && !g.isLinked p.id && !p.isFlow).map
    fun p => "Invalid linkage: node " ++ quoted n.name ++ ", pin " ++ quoted p.name
  let problem := (e.nodeError? owner n).toList.map fun error =>
    "Node " ++ quoted n.description ++ ": " ++ error
  unknown ++ unlinked ++ problem

/-- How messages call the graph of an owner with a given label. -/
def scopeOf (owner : NodeId) (label : String) : String :=
  if owner.isRoot then "Animation graph" else "Animation subgraph for " ++ quoted label

/-- Graphs have one output, except state machines and blend spaces, which may do without. -/
def outputErrors (owner : NodeId) (label : String) (kind : Option NodeKind) (g : SubGraph) :
    List String :=
  let outputs := (g.nodes.filter fun n => !n.isComment && n.name == "Output").length
  if 1 < outputs then [scopeOf owner label ++ " must have only one 'Output' node"]
  else if outputs = 0 ∧ kind ≠ some .stateMachine ∧ kind ≠ some .blendSpace then
    [scopeOf owner label ++ " must have an 'Output' node"]
  else []

/-- State machines have a state. -/
def machineErrors (label : String) (g : SubGraph) : List String :=
  if g.nodes.any Node.isState then []
  else ["Animation state machine " ++ quoted label ++ " must have at least one state"]

/-- Blend spaces have vertices at different places; thin triangles between them are reported. -/
def blendSpaceReport (e : Editor) (label : String) (g : SubGraph) : ValidationReport :=
  let points := (g.nodes.filter fun n => n.name == "Blend Space Vertex").map Node.offset
  if points.isEmpty then
    .ofErrors ["Animation blend space " ++ quoted label ++ " must have at least one vertex"]
  else if hasDuplicates points then
    .ofErrors ["Animation Blend Space " ++ quoted label ++ " has duplicate vertices!"]
  else
    let minArea := e.settings.minTriangleArea.toDouble
    let minExtent := e.settings.minTriangleExtent.toDouble
    if (triangulate points).any fun t => t.isDegenerate (vertices points) minArea minExtent then
      ⟨[], ["Animation Blend Space " ++ quoted label ++ " has degenerate triangles!"]⟩
    else .empty

/-- What the kind of its owner asks of a graph. -/
def containerReport (e : Editor) (label : String) (kind : Option NodeKind) (g : SubGraph) :
    ValidationReport :=
  match kind with
  | some .stateMachine => .ofErrors (machineErrors label g)
  | some .blendSpace => e.blendSpaceReport label g
  | _ => .empty

/-- Links join existing pins of one type. -/
def linkErrors (g : SubGraph) : List String :=
  (g.links.filter fun l =>
    match g.pin? l.source, g.pin? l.target with
    | some p, some q => !p.sameType q
    | _, _ => true).map fun _ => "Invalid linkage"

/-- The report on the graph of an owner. -/
def graphReport (e : Editor) (owner : NodeId) (g : SubGraph) : ValidationReport :=
  let ownerNode := if owner.isRoot then none else e.asset.findNode? owner
  let kind := ownerNode.map Node.kind
  let label := (ownerNode.map Node.description).getD ""
  let nodes := (g.nodes.filter fun n => !n.isComment).flatMap (e.nodeErrors owner g)
  ((ValidationReport.ofErrors (nodes ++ outputErrors owner label kind g)).append
    (e.containerReport label kind g)).append (.ofErrors (linkErrors g))

/-- The report on all graphs of the asset. -/
def validate (e : Editor) : ValidationReport :=
  e.asset.graphs.entries.foldl (fun r (owner, g) => r.append (e.graphReport owner g)) .empty

end Editor

end PoseGraph
