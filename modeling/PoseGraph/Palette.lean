import PoseGraph.Node
import PoseGraph.Table

/-!
Palettes: the nodes that can be placed in a graph.

What a graph can hold depends on its owner: state machines hold states and transitions, transitions
hold conditions, blend spaces hold vertices, and all other graphs hold animation nodes. A palette
keeps a template for each node by category and name; placing a node copies the template and gives
the copy new identities.
-/

namespace PoseGraph

/-- What a graph is edited with. -/
inductive GraphKind
  /-- The top level and the bodies of animation nodes. -/
  | animation
  | stateMachine
  | transition
  | blendSpace
  deriving DecidableEq

instance : Enumerated GraphKind where
  all := [.animation, .stateMachine, .transition, .blendSpace]
  name
    | .animation => "Animation"
    | .stateMachine => "StateMachine"
    | .transition => "Transition"
    | .blendSpace => "BlendSpace"

/-- The kind of a graph whose owner has a given kind; none stands for the top level. -/
def GraphKind.ofOwner : Option NodeKind → GraphKind
  | some .stateMachine => .stateMachine
  | some .transition => .transition
  | some .blendSpace => .blendSpace
  | _ => .animation

/-- Templates of nodes by category and name. -/
structure Palette where
  kind : GraphKind
  registry : Table String (Table String Node)

namespace Palette

/-- The palette without templates. -/
def empty (kind : GraphKind) : Palette := ⟨kind, .empty⟩

/-- Add a template, or replace the one of that category and name. -/
def register (p : Palette) (category name : String) (template : Node) : Palette :=
  let names := (p.registry.get? category).getD .empty
  { p with registry := p.registry.insert category (names.insert name template) }

/-- Add templates of one category under their own names. -/
def registerAll (p : Palette) (category : String) (templates : List Node) : Palette :=
  templates.foldl (fun p n => p.register category n.name n) p

/-- The template of a category and name. -/
def template? (p : Palette) (category name : String) : Option Node :=
  (p.registry.get? category).bind fun t => t.get? name

/-- Whether there is a template of a category and name. -/
def contains (p : Palette) (category name : String) : Bool := (p.template? category name).isSome

/-- Whether there is a template of a name in any category. -/
def containsType (p : Palette) (name : String) : Bool :=
  p.registry.values.any fun t => t.contains name

/-- The categories in order. -/
def categories (p : Palette) : List String := p.registry.keys

/-- The names of a category in order. -/
def names (p : Palette) (category : String) : List String :=
  ((p.registry.get? category).map Table.keys).getD []

/-- A copy of a template with new identities, drawn upwards from `next`; the first identity that is
left is returned too. The pins draw twice, when they are made and when they are bound to the node, and
what they draw first stays unused. -/
def spawn (p : Palette) (category name : String) (next : Nat) : Option (Node × Nat) :=
  (p.template? category name).map fun n =>
    { n with category }.withFreshIds (next + n.pins.length)

/-- The literal that a node's template has in the input of a name. -/
def declaredValue? (p : Palette) (n : Node) (pinName : String) : Option Value :=
  (p.template? n.category n.name).bind fun t => (t.inputNamed? pinName).map Pin.value

/-- How many identities it takes to look up a literal of a node's template: the template is made for
it, with a node and pins that stay unused. -/
def lookupCost (p : Palette) (n : Node) : Nat :=
  ((p.template? n.category n.name).map fun t => t.pins.length + 1).getD 0

end Palette

end PoseGraph
