import PoseGraph.Editor.Basic

/-!
Creating and removing links.

An input that is linked holds no literal. When its link goes, the input gets back the literal that
its node's template declares, or else the default of its type; the pose of a graph's output falls
back to the bind pose.
-/

namespace PoseGraph

/-- Whether two pins can be linked, and if not, why. -/
inductive LinkVerdict
  | canConnect
  /-- The first pin does not exist. -/
  | invalidStartPin
  /-- The second pin does not exist. -/
  | invalidEndPin
  | samePin
  | sameNode
  /-- Both pins are inputs, or both are outputs. -/
  | incompatiblePinKind
  /-- One pin holds a single value and the other one an array. -/
  | incompatibleStorageKind
  | incompatibleType
  /-- The link would feed a local variable into itself. -/
  | causesLoop
  deriving DecidableEq

instance : Enumerated LinkVerdict where
  all := [.canConnect, .invalidStartPin, .invalidEndPin, .samePin, .sameNode,
    .incompatiblePinKind, .incompatibleStorageKind, .incompatibleType, .causesLoop]
  name
    | .canConnect => "CanConnect"
    | .invalidStartPin => "InvalidStartPin"
    | .invalidEndPin => "InvalidEndPin"
    | .samePin => "SamePin"
    | .sameNode => "SameNode"
    | .incompatiblePinKind => "IncompatiblePinKind"
    | .incompatibleStorageKind => "IncompatibleStorageKind"
    | .incompatibleType => "IncompatibleType"
    | .causesLoop => "CausesLoop"

/-- Whether a verdict allows the link. -/
def LinkVerdict.isOk (v : LinkVerdict) : Bool := v == .canConnect

/-- Whether two nodes stand for one local variable. -/
def Node.sameVariable (a b : Node) : Bool :=
  a.isLocalVariable && b.isLocalVariable && a.variableName? == b.variableName?

namespace SubGraph

/-- Whether two pins of a graph can be linked. -/
def linkVerdict (g : SubGraph) (start finish : PinId) : LinkVerdict :=
  match g.pin? start, g.pin? finish with
  | none, _ => .invalidStartPin
  | some _, none => .invalidEndPin
  | some p, some q =>
    if p.id = q.id then .samePin
    else if p.node = q.node then .sameNode
    else if p.kind = q.kind then .incompatiblePinKind
    else if p.storage ≠ q.storage then .incompatibleStorageKind
    else if p.type ≠ q.type then .incompatibleType
    else match g.node? p.node, g.node? q.node with
      | some a, some b => if a.sameVariable b then .causesLoop else .canConnect
      | _, _ => .canConnect

/-- The literal of a pin that nothing feeds, by the templates of a palette. -/
def restValue (palette : Palette) (n : Node) (p : Pin) : Value :=
  (palette.declaredValue? n p.name).getD p.fallbackValue

/-- Reset an input to the literal that it holds while nothing feeds it. -/
def resetPin (palette : Palette) (g : SubGraph) (pin : PinId) : SubGraph :=
  match g.nodeOfPin? pin with
  | none => g
  | some n =>
    match n.pin? pin with
    | none => g
    | some p =>
      if p.kind = .output then g
      else g.modifyPin pin (·.withValue (restValue palette n p))

/-- How many identities are drawn to find the literal to which an input is reset. -/
def resetCost (palette : Palette) (g : SubGraph) (pin : PinId) : Nat :=
  match g.nodeOfPin? pin with
  | none => 0
  | some n => if (n.pin? pin).any fun p => p.kind == .input then palette.lookupCost n else 0

/-- Reset the ends of some links, then drop the links. -/
def dropLinks (palette : Palette) (g : SubGraph) (dead : List Link) : SubGraph :=
  let g := (dead.map Link.target).foldl (resetPin palette) g
  { g with links := g.links.filter fun l => !dead.any fun d => d.id == l.id }

/-- Put the first input of the graph's output to the bind pose, if nothing is linked to it. -/
def restPose (g : SubGraph) : SubGraph :=
  match (g.nodeNamed? "Output").bind fun n => n.inputs.head? with
  | none => g
  | some p => if g.isLinked p.id then g else g.modifyPin p.id (·.withValue (.int64 0))

end SubGraph

namespace Editor

/-- Whether two pins of the active graph can be linked. -/
def linkVerdict (e : Editor) (start finish : PinId) : LinkVerdict :=
  match e.activeGraph? with
  | none => .invalidStartPin
  | some g => g.linkVerdict start finish

/-- What follows the removal of links: the output of the top level, and that of a state, rests at
the bind pose. -/
def afterUnlink (e : Editor) (owner : NodeId) : Editor :=
  if owner.isRoot || e.asset.ownerKind? owner = some .state then
    e.invalidate.modifyGraph owner (·.restPose)
  else e.invalidate

/-- Drop links of the graph of an owner, with what follows. -/
def dropLinksIn (e : Editor) (owner : NodeId) (g : SubGraph) (dead : List Link) : Editor :=
  let palette := e.palette owner
  let cost := dead.foldl (fun cost l => cost + g.resetCost palette l.target) 0
  ((e.spend cost).modifyGraph owner fun g => g.dropLinks palette dead).afterUnlink owner

/-- Remove links from the graph of an owner; false if there is none of them. -/
def removeLinksIn (e : Editor) (owner : NodeId) (ids : List LinkId) : Editor × Bool :=
  match e.asset.graph? owner with
  | none => (e, false)
  | some g =>
    let dead := g.links.filter fun l => ids.contains l.id
    if dead.isEmpty then (e, false)
    else (e.dropLinksIn owner g dead, true)

/-- Remove links from the active graph; false if there is none of them. -/
def removeLinks (e : Editor) (ids : List LinkId) : Editor × Bool := e.removeLinksIn e.activeOwner ids

/-- Remove a link from the active graph; false if there is no such link. -/
def removeLink (e : Editor) (id : LinkId) : Editor × Bool := e.removeLinks [id]

/-- Remove all links into a pin but one, which keeps the pin void. -/
def displaceLinks (e : Editor) (owner : NodeId) (pin : PinId) (kept : LinkId) : Editor :=
  match e.asset.graph? owner with
  | none => e
  | some g =>
    let displaced := g.links.filter fun l => l.target == pin && l.id != kept
    if displaced.isEmpty then e
    else
      (e.removeLinksIn owner (displaced.map Link.id)).1.modifyGraph owner
        (·.modifyPin pin (·.withValue .void))

/-- The two pins of a link in the order of the flow, with the type of the producer, if the graph has
them: a first pin that is an input is where the link ends. -/
def orientLink (g : SubGraph) (start finish : PinId) : Option (PinId × PinId × PinType) :=
  (g.pin? start).bind fun p =>
    let (source, target) := if p.kind = .input then (finish, start) else (start, finish)
    (g.pin? source).bind fun s => (g.pin? target).map fun _ => (source, target, s.type)

/-- Link two pins in the graph of an owner, in whichever order they are given. The input becomes
void and loses its other links. -/
def createLinkIn (e : Editor) (owner : NodeId) (start finish : PinId) : Editor × Option LinkId :=
  match (e.asset.graph? owner).bind fun g => orientLink g start finish with
  | none => (e, none)
  | some (source, target, type) =>
    let id : LinkId := ⟨e.nextId⟩
    let e := { e with nextId := e.nextId + 1 }
    let e := e.modifyGraph owner fun g =>
      (g.modifyPin target (·.withValue .void)).addLink { id, source, target, color := type.color }
    ((e.displaceLinks owner target id).invalidate, some id)

/-- Link two pins of the active graph. Whether they should be linked is for `linkVerdict` to say. -/
def createLink (e : Editor) (start finish : PinId) : Editor × Option LinkId :=
  e.createLinkIn e.activeOwner start finish

end Editor

end PoseGraph
