import PoseGraph.Proofs.GraphDependencies
import PoseGraph.Proofs.IndexRanks

/-! How the evaluation order runs along links. A link joins two nodes that both
have a place or both have none, and it runs backwards only where it closes a
cycle; the nodes of one variable have one place. -/
namespace PoseGraph.LinkOrder
open Relation WalkRuns WalkSoundness GraphDependencies IndexRanks SubGraph

variable {g : SubGraph} {m n a b : Node} {x y : NodeId} {i j : Nat} {l : Link}

/-- No link leads to a node from which its own source is reached. -/
def Acyclic (g : SubGraph) : Prop := ∀ a b, Feeds g a b → ¬Downstream g b a

/-- A graph has no cycles if its nodes can be ranked so that links ascend. -/
theorem acyclic_of_ranks (rank : NodeId → Nat)
    (ascends : ∀ l ∈ g.links, ∀ m ∈ g.nodes, ∀ n ∈ g.nodes, m.hasPin l.source = true →
      n.hasPin l.target = true → rank m.id < rank n.id)
    (level : ∀ m ∈ g.nodes, ∀ n ∈ g.nodes, m.sameVariable n = true → rank m.id = rank n.id) :
    Acyclic g := by
  have step {a b : NodeId} (feeds : Feeds g a b) : rank a < rank b := by
    obtain ⟨l, link, m, inM, n, inN, starts, ends, rfl, rfl⟩ := feeds
    exact ascends l link m inM n inN starts ends
  have climb {a b : NodeId} (down : Downstream g a b) : rank a ≤ rank b := by
    induction down with
    | refl => exact Nat.le_refl _
    | tail _ last ih =>
      rcases last with feeds | ⟨m, inM, n, inN, same, rfl, rfl⟩
      · exact Nat.le_trans ih (Nat.le_of_lt (step feeds))
      · exact Nat.le_trans ih (Nat.le_of_eq (level m inM n inN same))
  intro a b feeds down
  have := step feeds
  have := climb down
  omega

/-! ## Indices -/

/-- Both ends of a link are walked, or neither is. -/
theorem feeds_indexed (unique : UniqueIds g) (inbound : Inbound g) (setters : OneSetter g)
    (feeds : Feeds g x y) : g.walk.index? x ≠ none ↔ g.walk.index? y ≠ none := by
  obtain ⟨resting, idle, -⟩ := walk_resting unique
  constructor
  · intro indexed
    rcases resting.queued x y indexed ((mem_consumers_iff unique).mpr feeds) with done | queued | waits
    · exact done
    · rw [idle] at queued
      cases queued
    · cases waits
  · intro indexed
    obtain ⟨j, value⟩ := Option.ne_none_iff_exists'.mp indexed
    rcases resting.fed y j x value (feeder_of_feeds unique inbound setters feeds) with known | onStack
    · obtain ⟨i, known, -⟩ := known
      simp [known]
    · cases onStack.1

/-- A link that does not close a cycle leads to a greater index. -/
theorem feeds_ascends (unique : UniqueIds g) (inbound : Inbound g) (setters : OneSetter g)
    (feeds : Feeds g x y) (first : g.walk.index? x = some i) (second : g.walk.index? y = some j) :
    i < j ∨ Downstream g y x := by
  obtain ⟨resting, -⟩ := walk_resting unique
  rcases resting.fed y j x second (feeder_of_feeds unique inbound setters feeds) with known | onStack
  · obtain ⟨k, known, order⟩ := known
    rw [first] at known
    cases known
    exact order
  · cases onStack.1

theorem twins_symm (twins : Twins g x y) : Twins g y x := by
  obtain ⟨m, inM, n, inN, same, left, right⟩ := twins
  obtain ⟨name, first, second⟩ := sameVariable_iff.mp same
  exact ⟨n, inN, m, inM, sameVariable_iff.mpr ⟨name, second, first⟩, right, left⟩

/-- All nodes of one variable have one index. -/
theorem twins_index (unique : UniqueIds g) (twins : Twins g x y) :
    g.walk.index? x = g.walk.index? y := by
  have shared {a b : NodeId} (twins : Twins g a b) (i : Nat) (indexed : g.walk.index? a = some i) :
      g.walk.index? b = some i :=
    (walk_resting unique).1.coherent.together indexed ((mem_unit_iff unique.nodes).mpr (.inr twins))
  refine Option.ext fun i => ⟨shared twins i, shared (twins_symm twins) i⟩

/-! ## The ordered graph -/

/-- A node of a graph, with its place in the evaluation order. -/
def placed (g : SubGraph) (n : Node) : Node := ranked g.walk.index? (ranksOf g.walk.index? g.nodes) n

theorem mem_ordered_nodes : a ∈ g.inEvaluationOrder.nodes ↔ ∃ n ∈ g.nodes, placed g n = a :=
  mem_applyIndices

theorem ordered_links_perm (g : SubGraph) : g.inEvaluationOrder.links.Perm g.links := by
  rw [inEvaluationOrder, sortLinks_eq]
  exact List.mergeSort_perm _ _

theorem mem_ordered_links : l ∈ g.inEvaluationOrder.links ↔ l ∈ g.links :=
  (ordered_links_perm g).mem_iff

theorem placed_isSorted (member : n ∈ g.nodes) :
    (placed g n).isSorted = true ↔ g.walk.index? n.id ≠ none := ranked_isSorted member

/-- Two nodes with places are in the order of their indices. -/
theorem placed_lt_iff (left : m ∈ g.nodes) (right : n ∈ g.nodes) (first : g.walk.index? m.id = some i)
    (second : g.walk.index? n.id = some j) :
    (placed g m).sortIndex < (placed g n).sortIndex ↔ i < j := ranked_lt_iff left right first second

/-- Both ends of a link have a place or neither has, and the target's is the later
one unless the link closes a cycle. -/
theorem ordered_link (unique : UniqueIds g) (directed : Directed g) (setters : OneSetter g)
    (link : l ∈ g.inEvaluationOrder.links) (left : a ∈ g.inEvaluationOrder.nodes)
    (right : b ∈ g.inEvaluationOrder.nodes) (starts : a.hasPin l.source = true)
    (ends : b.hasPin l.target = true) : Feeds g a.id b.id ∧ (a.isSorted = true ↔ b.isSorted = true) ∧
      (a.isSorted = true → a.sortIndex < b.sortIndex ∨ Downstream g b.id a.id) := by
  obtain ⟨m, inM, rfl⟩ := mem_ordered_nodes.mp left
  obtain ⟨n, inN, rfl⟩ := mem_ordered_nodes.mp right
  have feeds : Feeds g m.id n.id := ⟨l, mem_ordered_links.mp link, m, inM, n, inN, starts, ends, rfl, rfl⟩
  have inbound := directed_inbound unique directed
  have both := feeds_indexed unique inbound setters feeds
  refine ⟨feeds, by rw [placed_isSorted inM, placed_isSorted inN]; exact both, fun sorted => ?_⟩
  have indexed := (placed_isSorted inM).mp sorted
  obtain ⟨i, first⟩ := Option.ne_none_iff_exists'.mp indexed
  obtain ⟨j, second⟩ := Option.ne_none_iff_exists'.mp (both.mp indexed)
  rcases feeds_ascends unique inbound setters feeds first second with less | closes
  · exact .inl ((placed_lt_iff inM inN first second).mpr less)
  · exact .inr closes

/-- All nodes of one variable have one place. -/
theorem ordered_twins (unique : UniqueIds g) (left : a ∈ g.inEvaluationOrder.nodes)
    (right : b ∈ g.inEvaluationOrder.nodes) (same : a.sameVariable b = true) :
    a.sortIndex = b.sortIndex := by
  obtain ⟨m, inM, rfl⟩ := mem_ordered_nodes.mp left
  obtain ⟨n, inN, rfl⟩ := mem_ordered_nodes.mp right
  have twins : Twins g m.id n.id := ⟨m, inM, n, inN, same, rfl, rfl⟩
  exact congrArg (rankOf _) (twins_index unique twins)

/-- A node with a lesser place stands before one with a greater place. -/
theorem ordered_before (left : a ∈ g.inEvaluationOrder.nodes) (right : b ∈ g.inEvaluationOrder.nodes)
    (leftSorted : a.isSorted = true) (rightSorted : b.isSorted = true)
    (less : a.sortIndex < b.sortIndex) : [a, b].Sublist g.inEvaluationOrder.nodes := by
  obtain ⟨m, inM, rfl⟩ := mem_ordered_nodes.mp left
  obtain ⟨n, inN, rfl⟩ := mem_ordered_nodes.mp right
  obtain ⟨i, first⟩ := Option.ne_none_iff_exists'.mp ((placed_isSorted inM).mp leftSorted)
  obtain ⟨j, second⟩ := Option.ne_none_iff_exists'.mp ((placed_isSorted inN).mp rightSorted)
  exact before_of_lt left right first second ((placed_lt_iff inM inN first second).mp less)

/-- After a graph is put into order, both ends of a link have a place or neither
has, and the link leads to a later place unless its source is reached again from
its target. In a graph without cycles every link leads to a later place. -/
theorem only_cycle_links_run_backwards (unique : UniqueIds g) (directed : Directed g)
    (setters : OneSetter g) (link : l ∈ g.inEvaluationOrder.links)
    (left : a ∈ g.inEvaluationOrder.nodes) (right : b ∈ g.inEvaluationOrder.nodes)
    (starts : a.hasPin l.source = true) (ends : b.hasPin l.target = true) :
    (a.isSorted = true ↔ b.isSorted = true) ∧
      (a.isSorted = true → a.sortIndex < b.sortIndex ∨ Downstream g b.id a.id) ∧
      (Acyclic g → a.isSorted = true → a.sortIndex < b.sortIndex) := by
  obtain ⟨feeds, both, order⟩ := ordered_link unique directed setters link left right starts ends
  exact ⟨both, order, fun acyclic sorted => (order sorted).resolve_right (acyclic _ _ feeds)⟩

/-- A pin that carries a number. -/
private def number (id : Nat) (node : NodeId) (name : String) (kind : PinKind) : Pin :=
  { Pin.ofType name .float kind with id := ⟨id⟩, node }

/-- A node adds to the variable that it reads. -/
def feedback : SubGraph where
  nodes := [
    { Node.ofName "Output" ⟨0, 0, 0⟩ with id := ⟨1⟩, inputs := [number 11 ⟨1⟩ "Result" .input] },
    { Node.ofName "Sum" ⟨0, 0, 0⟩ with
      id := ⟨2⟩, category := localVariableCategory, inputs := [number 21 ⟨2⟩ "Sum" .input] },
    { Node.ofName "Sum" ⟨0, 0, 0⟩ with
      id := ⟨3⟩, category := localVariableCategory, outputs := [number 31 ⟨3⟩ "Sum" .output] },
    { Node.ofName "Step" ⟨0, 0, 0⟩ with
      id := ⟨4⟩, inputs := [number 41 ⟨4⟩ "From" .input]
      outputs := [number 42 ⟨4⟩ "To" .output, number 43 ⟨4⟩ "Result" .output] }]
  links := [⟨⟨51⟩, ⟨42⟩, ⟨21⟩, ⟨0, 0, 0⟩⟩, ⟨⟨52⟩, ⟨31⟩, ⟨41⟩, ⟨0, 0, 0⟩⟩, ⟨⟨53⟩, ⟨43⟩, ⟨11⟩, ⟨0, 0, 0⟩⟩]

/-- The link into the variable's setter runs backwards, and closes a cycle. -/
theorem feedback_runs_backwards :
    ∃ a ∈ feedback.inEvaluationOrder.nodes, ∃ b ∈ feedback.inEvaluationOrder.nodes,
      a.hasPin ⟨42⟩ = true ∧ b.hasPin ⟨21⟩ = true ∧ a.isSorted = true ∧ b.isSorted = true ∧
        ¬a.sortIndex < b.sortIndex ∧ Downstream feedback b.id a.id := by
  have link : (⟨⟨51⟩, ⟨42⟩, ⟨21⟩, ⟨0, 0, 0⟩⟩ : Link) ∈ feedback.inEvaluationOrder.links :=
    mem_ordered_links.mpr (by decide)
  have left := mem_ordered_nodes.mpr
    ⟨_, List.getElem_mem (by decide : 3 < feedback.nodes.length), rfl⟩
  have right := mem_ordered_nodes.mpr
    ⟨_, List.getElem_mem (by decide : 1 < feedback.nodes.length), rfl⟩
  obtain ⟨both, below, -⟩ := only_cycle_links_run_backwards (g := feedback) (by decide) (by decide)
    (by decide) link left right (by decide) (by decide)
  have places : (placed feedback feedback.nodes[3]).sortIndex = 1 ∧
      (placed feedback feedback.nodes[1]).sortIndex = 0 := by
    unfold placed ranksOf walk sinks dependencies feedersOf consumersOf variableNodes leastSetter?
    simp only [sortIds_eq, mergeSort_eq_insertionSort byIndex_trans byIndex_total]
    decide +kernel
  have sorted : (placed feedback feedback.nodes[3]).isSorted = true := by
    simp [Node.isSorted, places, undefinedSortIndex]
  have backwards : ¬(placed feedback feedback.nodes[3]).sortIndex <
      (placed feedback feedback.nodes[1]).sortIndex := by
    rw [places.1, places.2]
    decide
  exact ⟨_, left, _, right, by decide, by decide, sorted, both.mp sorted, backwards,
    (below sorted).resolve_left backwards⟩

end PoseGraph.LinkOrder
