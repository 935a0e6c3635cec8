import PoseGraph.Proofs.LinkOrder
import PoseGraph.Proofs.WalkInvariants

/-! Which nodes have a place in the evaluation order: those that are connected to a node at which
the graph ends, by links in whatever direction and by local variables. A walk never leaves what is
connected. It misses nothing of it, because a feeder that is passed over is being walked already and
every consumer of what is indexed is queued. -/
namespace PoseGraph.ConnectedNodes
open Relation GraphDependencies IndexRanks LinkOrder SubGraph WalkInvariants

variable {g : SubGraph} {m n a : Node} {x y z : NodeId}

/-- A link joins both nodes, whichever is its source, or they stand for one local variable. -/
def Adjacent (g : SubGraph) (x y : NodeId) : Prop := Feeds g x y ∨ Feeds g y x ∨ Twins g x y

/-- The second node is reached from the first by following links in either direction, where from a node
of a local variable one may also go to any other of its nodes. -/
def Connected (g : SubGraph) : NodeId → NodeId → Prop := ReflTransGen (Adjacent g)

instance : Decidable (Feeds g x y) := inferInstanceAs (Decidable (∃ l ∈ g.links, _))

instance : Decidable (Twins g x y) := inferInstanceAs (Decidable (∃ m ∈ g.nodes, _))

instance : Decidable (Adjacent g x y) := inferInstanceAs (Decidable (_ ∨ _))

theorem connected_unit (unique : UniqueIds g) (reached : Connected g z x) (inUnit : y ∈ g.dependencies.unit x) :
    Connected g z y := by
  rcases (mem_unit_iff unique.nodes).mp inUnit with rfl | twins
  · exact reached
  · exact reached.tail (.inr (.inr twins))

/-- What feeds a unit feeds one of its nodes, and so is two steps away at most. -/
theorem connected_feeder (unique : UniqueIds g) (reached : Connected g z x) (feeder : y ∈ g.dependencies.feeders x) :
    Connected g z y := by
  obtain ⟨c, feeds, inUnit⟩ := feeds_of_feeder unique feeder
  have fed : Connected g z c := by
    rcases (mem_unit_iff unique.nodes).mp inUnit with rfl | twins
    · exact reached
    · exact reached.tail (.inr (.inr (twins_symm twins)))
  exact fed.tail (.inr (.inl feeds))

theorem connected_consumer (unique : UniqueIds g) (reached : Connected g z x)
    (consumer : y ∈ g.dependencies.consumers x) : Connected g z y :=
  reached.tail (.inl ((mem_consumers_iff unique).mp consumer))

/-- The node is connected to an end of the graph. -/
def EndConnected (g : SubGraph) (x : NodeId) : Prop := ∃ s ∈ g.nodes, EndsGraph s ∧ Connected g s.id x

/-- A walk stays among the nodes that are connected to a sink. -/
theorem connected_of_indexed (unique : UniqueIds g) (indexed : g.walk.index? x ≠ none) : EndConnected g x := by
  have unit {x y : NodeId} (known : EndConnected g x) (inUnit : y ∈ g.dependencies.unit x) : EndConnected g y := by
    obtain ⟨s, member, ends, reached⟩ := known
    exact ⟨s, member, ends, connected_unit unique reached inUnit⟩
  have feeders {x y : NodeId} (known : EndConnected g x) (feeder : y ∈ g.dependencies.feeders x) :
      EndConnected g y := by
    obtain ⟨s, member, ends, reached⟩ := known
    exact ⟨s, member, ends, connected_feeder unique reached feeder⟩
  have consumers {x y : NodeId} (known : EndConnected g x) (consumer : y ∈ g.dependencies.consumers x) :
      EndConnected g y := by
    obtain ⟨s, member, ends, reached⟩ := known
    exact ⟨s, member, ends, connected_consumer unique reached consumer⟩
  have sinks : ∀ s ∈ g.sinks, EndConnected g s := by
    intro s sink
    obtain ⟨n, member, ends, rfl⟩ := mem_sinks_iff.mp sink
    exact ⟨n, member, ends, .refl⟩
  exact indexed_among unique unit feeders consumers sinks x indexed

theorem adjacent_indexed (unique : UniqueIds g) (inbound : Inbound g) (setters : OneSetter g)
    (adjacent : Adjacent g x y) : g.walk.index? x ≠ none ↔ g.walk.index? y ≠ none := by
  rcases adjacent with feeds | feeds | twins
  · exact feeds_indexed unique inbound setters feeds
  · exact (feeds_indexed unique inbound setters feeds).symm
  · rw [twins_index unique twins]

theorem indexed_of_connected (unique : UniqueIds g) (inbound : Inbound g) (setters : OneSetter g) (member : n ∈ g.nodes)
    (ends : EndsGraph n) (reached : Connected g n.id x) : g.walk.index? x ≠ none := by
  induction reached with
  | refl => exact (walk_resting unique).2.2 n.id (mem_sinks_iff.mpr ⟨n, member, ends, rfl⟩)
  | tail _ step ih => exact (adjacent_indexed unique inbound setters step).mp ih

/-- In a graph whose links end at inputs and whose variables have one setter each, exactly the nodes that
are connected to an end of the graph have a place in the evaluation order. -/
theorem sorted_iff_connected (unique : UniqueIds g) (inbound : Inbound g) (setters : OneSetter g)
    (member : a ∈ g.inEvaluationOrder.nodes) :
    a.isSorted = true ↔ ∃ s ∈ g.nodes, EndsGraph s ∧ Connected g s.id a.id := by
  obtain ⟨n, inside, rfl⟩ := mem_ordered_nodes.mp member
  rw [placed_isSorted inside]
  constructor
  · exact connected_of_indexed unique
  · rintro ⟨s, known, ends, reached⟩
    exact indexed_of_connected unique inbound setters known ends reached

/-- A step feeds itself, a variable, and through that a player, and is watched by a log. A loop runs on
its own. -/
def watched : SubGraph where
  nodes := [
    ({ Node.ofName "Loop" ⟨0, 0, 0⟩ with
      inputs := [.input "From" .float], outputs := [.output "To" .float] }.withFreshIds 10).1,
    ({ Node.ofName "Log" ⟨0, 0, 0⟩ with inputs := [.input "Value" .float] }.withFreshIds 20).1,
    ({ Node.ofName "Step" ⟨0, 0, 0⟩ with
      inputs := [.input "From" .float], outputs := [.output "To" .float] }.withFreshIds 30).1,
    ({ Node.ofName "Speed" ⟨0, 0, 0⟩ with
      category := localVariableCategory, inputs := [.input "Speed" .float] }.withFreshIds 40).1,
    ({ Node.ofName "Speed" ⟨0, 0, 0⟩ with
      category := localVariableCategory, outputs := [.output "Speed" .float] }.withFreshIds 50).1,
    ({ Node.ofName "Animation Player" ⟨0, 0, 0⟩ with
      inputs := [.input "Speed" .float], outputs := [.output "Pose" .pose] }.withFreshIds 60).1,
    ({ Node.ofName "Output" ⟨0, 0, 0⟩ with inputs := [.input "Pose" .pose] }.withFreshIds 70).1]
  links := [⟨⟨81⟩, ⟨12⟩, ⟨11⟩, ⟨0, 0, 0⟩⟩, ⟨⟨82⟩, ⟨32⟩, ⟨21⟩, ⟨0, 0, 0⟩⟩, ⟨⟨83⟩, ⟨32⟩, ⟨31⟩, ⟨0, 0, 0⟩⟩,
    ⟨⟨84⟩, ⟨32⟩, ⟨41⟩, ⟨0, 0, 0⟩⟩, ⟨⟨85⟩, ⟨51⟩, ⟨61⟩, ⟨0, 0, 0⟩⟩, ⟨⟨86⟩, ⟨62⟩, ⟨71⟩, ⟨0, 0, 0⟩⟩]

/-- The log has a place, being connected to the output through the step and the variable, and the loop
has none, and so is connected to no end of the graph. -/
theorem watched_log_sorted : (placed watched watched.nodes[1]).isSorted = true ∧
    ¬∃ s ∈ watched.nodes, EndsGraph s ∧ Connected watched s.id ⟨10⟩ := by
  have unique : UniqueIds watched := by decide
  have node (i : Nat) (bound : i < watched.nodes.length) :
      placed watched watched.nodes[i] ∈ watched.inEvaluationOrder.nodes :=
    mem_ordered_nodes.mpr ⟨_, List.getElem_mem bound, rfl⟩
  have exact (i : Nat) (bound : i < watched.nodes.length) :=
    sorted_iff_connected unique (by decide) (by decide) (node i bound)
  have player : Connected watched ⟨70⟩ ⟨60⟩ := .single (by decide)
  have getter := player.tail (by decide : Adjacent watched ⟨60⟩ ⟨50⟩)
  have setter := getter.tail (by decide : Adjacent watched ⟨50⟩ ⟨40⟩)
  have step := setter.tail (by decide : Adjacent watched ⟨40⟩ ⟨30⟩)
  have log := step.tail (by decide : Adjacent watched ⟨30⟩ ⟨20⟩)
  have idle : ∀ a ∈ watched.inEvaluationOrder.nodes, a.id = ⟨10⟩ → a.isSorted = false := by
    rw [orderByInsertion.2]
    decide +kernel
  have unsorted : (placed watched watched.nodes[0]).isSorted = false := idle _ (node 0 (by decide)) rfl
  have output : watched.nodes[6] ∈ watched.nodes := List.getElem_mem _
  refine ⟨(exact 1 (by decide)).mpr ⟨_, output, ⟨rfl, .inl rfl⟩, log⟩, ?_⟩
  intro reached
  have sorted := (exact 0 (by decide)).mpr reached
  rw [unsorted] at sorted
  cases sorted

end PoseGraph.ConnectedNodes
