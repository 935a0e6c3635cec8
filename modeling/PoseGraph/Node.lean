import PoseGraph.Pin

/-!
Nodes of a graph.

`Node.kind` classifies a node by category and name. A node of category `Local Variable` with exactly
one pin stands for a local variable: it writes the variable if the pin is an input (a setter) and
reads it otherwise (a getter).
-/

namespace PoseGraph

/-- How a node behaves while editing. -/
inductive NodeType
  | simple
  /-- A node with a body of its own. -/
  | blueprint
  /-- An annotation, which is never compiled. -/
  | comment
  /-- The owner of a nested graph. -/
  | subroutine
  deriving DecidableEq

instance : Enumerated NodeType where
  all := [.simple, .blueprint, .comment, .subroutine]
  name
    | .simple => "Simple"
    | .blueprint => "Blueprint"
    | .comment => "Comment"
    | .subroutine => "Subroutine"

/-- What a node is to validation and compilation. -/
inductive NodeKind
  | animation
  | stateMachine
  /-- A state with a graph of its own. -/
  | state
  /-- A state that plays a single clip. -/
  | quickState
  | transition
  | blendSpace
  | conditionalBlend
  | oneShot
  deriving DecidableEq

instance : Enumerated NodeKind where
  all := [.animation, .stateMachine, .state, .quickState, .transition, .blendSpace,
    .conditionalBlend, .oneShot]
  name
    | .animation => "Animation"
    | .stateMachine => "StateMachine"
    | .state => "State"
    | .quickState => "QuickState"
    | .transition => "Transition"
    | .blendSpace => "BlendSpace"
    | .conditionalBlend => "ConditionalBlend"
    | .oneShot => "OneShot"

/-- A node. -/
structure Node where
  id : NodeId
  /-- Category under which the node is constructed. -/
  category : String
  /-- Name of the node's type within the category. -/
  name : String
  /-- Label given by the user. -/
  description : String
  inputs : List Pin
  outputs : List Pin
  color : Color
  type : NodeType
  position : Point
  size : Point
  /-- Place in the evaluation order, `undefinedSortIndex` for none. -/
  sortIndex : Int
  /-- Whether a state machine begins in this state. -/
  isEntry : Bool
  /-- Position inside a blend space. -/
  offset : Point
  /-- Blend time of a blend space per unit, along each axis. -/
  lerpSecondsPerUnit : Point

/-- Sort index of a node without a place in the evaluation order. -/
def undefinedSortIndex : Int := -1

/-- Category of the nodes that stand for local variables. -/
def localVariableCategory : String := "Local Variable"

/-- Category of the nodes of state machines. -/
def stateMachineCategory : String := "StateMachine"

namespace Node

/-- A node without pins and identity, labelled with its name. -/
def ofName (name : String) (color : Color) : Node :=
  { id := .root, category := "", name, description := name, inputs := [], outputs := [], color
    type := .simple, position := .zero, size := .zero, sortIndex := undefinedSortIndex
    isEntry := false, offset := .zero, lerpSecondsPerUnit := ⟨0.2, 0.2⟩ }

/-- The kind of a node: four names mean more inside the category of state machines, four names are
known in any category, and all others are plain animation nodes. -/
def kind (n : Node) : NodeKind :=
  if n.category = stateMachineCategory ∧ n.name = "State" then .state
  else if n.category = stateMachineCategory ∧ n.name = "Quick State" then .quickState
  else if n.category = stateMachineCategory ∧ n.name = "Transition" then .transition
  else if n.name = "State Machine" then .stateMachine
  else if n.name = "Blend Space" then .blendSpace
  else if n.name = "Conditional Blend" then .conditionalBlend
  else if n.name = "One Shot" then .oneShot
  else .animation

def isComment (n : Node) : Bool := n.type == .comment

def isSubroutine (n : Node) : Bool := n.type == .subroutine

/-- Whether the node has a place in the evaluation order. -/
def isSorted (n : Node) : Bool := n.sortIndex != undefinedSortIndex

/-- Whether the node can be a state of a state machine. -/
def isState (n : Node) : Bool := !n.isComment && n.kind != .transition

/-- All pins, inputs first. -/
def pins (n : Node) : List Pin := n.inputs ++ n.outputs

/-- Whether the node stands for a local variable. -/
def isLocalVariable (n : Node) : Bool :=
  n.category == localVariableCategory && n.pins.length == 1

/-- Whether the node writes a local variable. -/
def isSetter (n : Node) : Bool := n.isLocalVariable && n.inputs.length == 1

/-- Name of the local variable that the node stands for. -/
def variableName? (n : Node) : Option String :=
  if n.isLocalVariable then n.pins.head?.map Pin.name else none

/-- The pin with an identity. -/
def pin? (n : Node) (id : PinId) : Option Pin := n.pins.find? (·.id == id)

/-- Whether the node has a pin. -/
def hasPin (n : Node) (id : PinId) : Bool := n.pins.any (·.id == id)

/-- The first input with a name. -/
def inputNamed? (n : Node) (name : String) : Option Pin := n.inputs.find? (·.name == name)

/-- The first output with a name. -/
def outputNamed? (n : Node) (name : String) : Option Pin := n.outputs.find? (·.name == name)

/-- Change the first element that passes a test. -/
def modifyFirst {α : Type} (p : α → Bool) (f : α → α) : List α → List α
  | [] => []
  | x :: xs => if p x then f x :: xs else x :: modifyFirst p f xs

/-- Change the first pin with an identity, inputs before outputs. -/
def modifyPin (n : Node) (id : PinId) (f : Pin → Pin) : Node :=
  if n.inputs.any (·.id == id) then
    { n with inputs := modifyFirst (·.id == id) f n.inputs }
  else
    { n with outputs := modifyFirst (·.id == id) f n.outputs }

/-- Change all pins. -/
def mapPins (n : Node) (f : Pin → Pin) : Node :=
  { n with inputs := n.inputs.map f, outputs := n.outputs.map f }

/-- Number the pins upwards from `next`, inputs first, and bind them to the node. -/
def assignPinIds (n : Node) (next : Nat) : Node :=
  { n with
    inputs := Pin.bindFrom n.id .input next n.inputs
    outputs := Pin.bindFrom n.id .output (next + n.inputs.length) n.outputs }

/-- Give the node and its pins new identities, numbered upwards from `next`. The first identity
that is not used is returned too. -/
def withFreshIds (n : Node) (next : Nat) : Node × Nat :=
  ({ n with id := ⟨next⟩ }.assignPinIds (next + 1), next + 1 + n.pins.length)

/-- Give the node another identity; the pins keep theirs. -/
def withId (n : Node) (id : NodeId) : Node :=
  { n with id }.mapPins fun p => { p with node := id }

/-- Equality with numbers compared by value. -/
def same (a b : Node) : Bool :=
  a.id == b.id && a.category == b.category && a.name == b.name && a.description == b.description
    && samePins a.inputs b.inputs && samePins a.outputs b.outputs && a.color == b.color
    && a.type == b.type && a.position.same b.position && a.size.same b.size
    && a.sortIndex == b.sortIndex && a.isEntry == b.isEntry && a.offset.same b.offset
    && a.lerpSecondsPerUnit.same b.lerpSecondsPerUnit
where
  /-- Equality pin by pin. -/
  samePins (ps qs : List Pin) : Bool :=
    ps.length == qs.length && (ps.zip qs).all fun (p, q) => p.same q

end Node

end PoseGraph
