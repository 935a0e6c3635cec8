import PoseGraph.Editor.Nodes

/-!
Editing state machines: transitions between states, and states made from quick states.
-/

namespace PoseGraph

namespace SubGraph

/-- The node with an identity, if it is a state. -/
def state? (g : SubGraph) (id : NodeId) : Option Node := (g.node? id).filter Node.isState

/-- Drop the links with a missing end. -/
def dropStaleLinks (g : SubGraph) : SubGraph :=
  let stale := (g.links.filter fun l => (g.pin? l.source).isNone || (g.pin? l.target).isNone).map
    Link.id
  { g with links := g.links.filter fun l => !stale.contains l.id }

/-- Put another node in the place of the first one with an identity. -/
def replaceNode (g : SubGraph) (id : NodeId) (n : Node) : SubGraph := g.modifyNode id fun _ => n

/-- The first input of the graph's output. -/
def outputPin? (g : SubGraph) : Option PinId :=
  ((g.nodeNamed? "Output").bind fun n => n.inputs.head?).map Pin.id

end SubGraph

namespace Editor

/-- The owner of the active graph, if that is a state machine. -/
def activeMachine? (e : Editor) : Option NodeId :=
  if e.asset.ownerKind? e.activeOwner = some .stateMachine then some e.activeOwner else none

/-- Place a transition without ends in the active state machine; none elsewhere. -/
def createTransitionNode (e : Editor) : Editor × Option NodeId :=
  match e.activeMachine? with
  | none => (e, none)
  | some owner =>
    let (n, e) := e.adopt Template.transition
    (e.addNode owner n, some n.id)

/-- A trigger pin that joins a state and a transition. -/
def transitionPin (id : Nat) (node : NodeId) (kind : PinKind) : Pin :=
  { Pin.ofType "Transition" .flow kind with id := ⟨id⟩, node }

/-- Join a new transition to two states: an output of the first leads to it, and it leads to an
input of the second. -/
def joinTransition (e : Editor) (owner transition start finish : NodeId) (middle : Point) :
    Editor × Option NodeId :=
  let base := e.nextId
  let e := { e with nextId := base + 4 }
  let e := e.modifyGraph owner fun g =>
    let g := g.modifyNode start fun n =>
      { n with outputs := n.outputs ++ [transitionPin base start .output] }
    let g := g.modifyNode finish fun n =>
      { n with inputs := n.inputs ++ [transitionPin (base + 3) finish .input] }
    g.modifyNode transition fun n =>
      { n with
        inputs := n.inputs ++ [transitionPin (base + 1) transition .input]
        outputs := n.outputs ++ [transitionPin (base + 2) transition .output]
        position := middle }
  match e.createLinkIn owner ⟨base⟩ ⟨base + 1⟩ with
  | (e, none) => (e, none)
  | (e, some _) =>
    match e.createLinkIn owner ⟨base + 2⟩ ⟨base + 3⟩ with
    | (e, none) => (e, none)
    | (e, some _) => (e, some transition)

/-- Join two different states of the active state machine by a new transition, placed between
them. -/
def createTransition (e : Editor) (start finish : NodeId) : Editor × Option NodeId :=
  match e.activeMachine? with
  | none => (e, none)
  | some owner =>
    match e.asset.graph? owner with
    | none => (e, none)
    | some g =>
      match g.state? start, g.state? finish with
      | some a, some b =>
        if start = finish then (e, none)
        else
          match e.createTransitionNode with
          | (e, none) => (e, none)
          | (e, some transition) =>
            (e.ensureSubGraph transition).joinTransition owner transition start finish
              (a.position.midpoint b.position)
      | _, _ => (e, none)

/-- A state in place of a quick state: it takes over identity, place, entry mark and trigger pins. -/
def stateFromQuick (state quick : Node) : Node :=
  { state with
    position := quick.position
    isEntry := quick.isEntry
    inputs := quick.inputs.filter Pin.isFlow
    outputs := quick.outputs.filter Pin.isFlow }.withId quick.id

/-- Put a player of a clip into the graph of a state, and link it to the output. -/
def playClip (e : Editor) (owner : NodeId) (clip : Option Value) : Editor × Option NodeId :=
  match e.spawn .animation "Animation" "Animation Player" with
  | none => (e, none)
  | some (player, e) =>
    let player := match clip, player.inputs with
      | some v, p :: ps => { player with inputs := p.withValue v :: ps }
      | _, _ => player
    match player.outputNamed? "Pose", (e.asset.graph? owner).bind (·.outputPin?) with
    | some pose, some sink =>
      let e := e.modifyGraph owner (·.addNode player)
      match e.createLinkIn owner pose.id sink with
      | (e, some _) => (e.invalidate, some owner)
      | (e, none) => (e, none)
    | _, _ => (e, none)

/-- Turn a quick state of the active state machine into a state that plays the same clip. Its
transitions stay joined to it. -/
def promoteQuickState (e : Editor) (id : NodeId) : Editor × Option NodeId :=
  match e.activeMachine? with
  | none => (e, none)
  | some owner =>
    match (e.asset.graph? owner).bind (·.node? id) with
    | none => (e, none)
    | some quick =>
      if quick.kind ≠ .quickState then (e, none)
      else
        match e.spawn .stateMachine stateMachineCategory "State" with
        | none => (e, none)
        | some (state, e) =>
          let e := e.modifyGraph owner fun g =>
            (g.replaceNode id (stateFromQuick state quick)).dropStaleLinks
          (e.ensureSubGraph id).playClip id ((quick.inputNamed? "Animation").map Pin.value)

end Editor

end PoseGraph
