import Mathlib.Data.List.Flatten
import PoseGraph.Proofs.Insertions
import PoseGraph.Proofs.Rearrangement
import PoseGraph.Proofs.WalkAgreement
import PoseGraph.Proofs.WalkInvariants

/-! Idle nodes beside a graph. Nodes at which no graph ends, which stand for no
local variable and which are linked among themselves only are never come to by a
walk. They have no place in the evaluation order, and what does have one is
ordered as without them, links included. -/
namespace PoseGraph.IdleNodes
open GraphDependencies IndexRanks Insertions LinkOrder Rearrangement SubGraph Walk WalkAgreement WalkInvariants WalkRuns
open WalkSoundness

variable {α : Type} {g h : SubGraph} {m n : Node} {l : Link} {id : NodeId} {pin : PinId} {name : String}

/-- A node at which no graph ends and which is no local variable. -/
structure Idle (n : Node) : Prop where
  output : n.name ≠ "Output"
  event : n.name ≠ "Event"
  plain : n.isLocalVariable = false

/-- The second graph has all of the first one, in order, and idle nodes and links among them besides. -/
structure Beside (g h : SubGraph) : Prop where
  unique : UniqueIds h
  nodes : h.nodes.filter (g.hasNode ·.id) = g.nodes
  links : h.links.filter (fun l => (g.pin? l.source).isSome) = g.links
  idle : ∀ n ∈ h.nodes, g.hasNode n.id = false → Idle n
  level : ∀ l ∈ h.links, (g.pin? l.source).isSome = (g.pin? l.target).isSome

theorem hasNode_iff_mem : g.hasNode id = true ↔ id ∈ g.nodes.map Node.id := by
  rw [hasNode_iff, List.mem_map]

theorem pin_eq_none_iff : n.pin? pin = none ↔ n.hasPin pin = false := by
  rw [Node.pin?, Node.hasPin, List.find?_eq_none, List.any_eq_false]

variable (beside : Beside g h)
include beside

theorem member_beside (member : n ∈ g.nodes) : n ∈ h.nodes := by
  rw [← beside.nodes] at member
  exact List.mem_of_mem_filter member

theorem unique_beside : UniqueIds g := by
  have part : g.nodes.Sublist h.nodes := beside.nodes ▸ List.filter_sublist
  exact ⟨beside.unique.nodes.sublist (part.map _), beside.unique.pins.sublist ((part.flatMap Node.pins).map _)⟩

/-- A pin of the first graph is on one of its nodes in the second graph too. -/
theorem holder_beside (held : (g.pin? pin).isSome = true) (member : n ∈ h.nodes) (has : n.hasPin pin = true) :
    n ∈ g.nodes := by
  obtain ⟨m, inside, also⟩ := pin_isSome_iff.mp held
  rwa [node_eq_of_pin beside.unique member (member_beside beside inside) has also]

theorem pinless_beside (held : (g.pin? pin).isSome = true) (member : n ∈ h.nodes)
    (added : g.hasNode n.id = false) : n.hasPin pin = false := by
  by_contra has
  have inside := holder_beside beside held member (Bool.eq_true_of_not_eq_false has)
  rw [hasNode_iff.mpr ⟨n, inside, rfl⟩] at added
  cases added

/-! ## Searches -/

theorem filterMap_beside {f : Node → Option α} (mute : ∀ n ∈ h.nodes, g.hasNode n.id = false → f n = none) :
    h.nodes.filterMap f = g.nodes.filterMap f := by
  rw [← filterMap_kept mute, beside.nodes]

theorem filter_beside {test : Node → Bool} (mute : ∀ n ∈ h.nodes, g.hasNode n.id = false → test n = false) :
    h.nodes.filter test = g.nodes.filter test := by
  rw [← filter_kept mute, beside.nodes]

theorem find_beside {test : Node → Bool} (mute : ∀ n ∈ h.nodes, g.hasNode n.id = false → test n = false) :
    h.nodes.find? test = g.nodes.find? test := by
  rw [← find_kept mute, beside.nodes]

theorem find_last_beside {test : Node → Bool} (mute : ∀ n ∈ h.nodes, g.hasNode n.id = false → test n = false) :
    h.nodes.reverse.find? test = g.nodes.reverse.find? test := by
  rw [← beside.nodes, ← List.filter_reverse]
  exact (find_kept fun n member => mute n (List.mem_reverse.mp member)).symm

theorem pin_beside (held : (g.pin? pin).isSome = true) : h.pin? pin = g.pin? pin := by
  rw [SubGraph.pin?, SubGraph.pin?, ← beside.nodes]
  refine (findSome_kept fun n member added => ?_).symm
  exact pin_eq_none_iff.mpr (pinless_beside beside held member added)

theorem nodeOfPin_beside (held : (g.pin? pin).isSome = true) : h.nodeOfPin? pin = g.nodeOfPin? pin :=
  find_beside beside fun _ member added => pinless_beside beside held member added

theorem lastNodeOfPin_beside (held : (g.pin? pin).isSome = true) : h.lastNodeOfPin? pin = g.lastNodeOfPin? pin :=
  congrArg (Option.map Node.id)
    (find_last_beside beside fun _ member added => pinless_beside beside held member added)

theorem variable_beside (member : n ∈ h.nodes) (added : g.hasNode n.id = false) : n.variableName? = none := by
  rw [Node.variableName?, (beside.idle n member added).plain]
  rfl

theorem setter_beside : h.setter? = g.setter? := by
  funext name
  refine find_beside beside fun n member added => ?_
  simp [variable_beside beside member added]

/-! ## Dependencies -/

theorem edges_beside : h.edges.filter (g.hasNode ·.source) = g.edges := by
  rw [edges, edges, List.filter_filterMap, ← beside.links, List.filterMap_filter]
  apply List.filterMap_congr
  intro l link
  by_cases held : (g.pin? l.source).isSome = true
  · have also := beside.level l link ▸ held
    rw [if_pos held, lastNodeOfPin_beside beside held, lastNodeOfPin_beside beside also]
    cases source : g.lastNodeOfPin? l.source with
    | none => rfl
    | some a =>
      obtain ⟨n, member, -, same⟩ := (lastNodeOfPin_eq_some_iff (unique_beside beside)).mp source
      cases g.lastNodeOfPin? l.target with
      | none => rfl
      | some b => exact if_pos (hasNode_iff.mpr ⟨n, member, same⟩)
  · rw [if_neg held]
    cases source : h.lastNodeOfPin? l.source with
    | none => rfl
    | some a =>
      obtain ⟨n, member, has, same⟩ := (lastNodeOfPin_eq_some_iff beside.unique).mp source
      cases h.lastNodeOfPin? l.target with
      | none => rfl
      | some b =>
        refine if_neg fun known => held ?_
        obtain ⟨m, inside, also⟩ := hasNode_iff.mp known
        have unchanged := node_eq_of_id beside.unique (member_beside beside inside) member (also.trans same.symm)
        exact pin_isSome_iff.mpr ⟨m, inside, unchanged ▸ has⟩

theorem consumers_beside (known : g.hasNode id = true) : consumersOf h.edges id = consumersOf g.edges id := by
  rw [consumersOf, consumersOf, ← edges_beside beside, filter_kept]
  intro e _ added
  apply beq_eq_false_iff_ne.mpr
  rintro rfl
  rw [known] at added
  cases added

theorem feedersOf_beside (known : g.hasNode id = true) : h.feedersOf h.edges id = g.feedersOf g.edges id := by
  have holder : h.nodes.reverse.find? (·.id == id) = g.nodes.reverse.find? (·.id == id) := by
    refine find_last_beside beside fun n _ added => beq_eq_false_iff_ne.mpr ?_
    rintro rfl
    simp [known] at added
  rw [feedersOf, feedersOf, holder]
  cases found : g.nodes.reverse.find? (·.id == id) with
  | none => rfl
  | some n =>
    have member : n ∈ g.nodes := List.mem_reverse.mp (List.mem_of_find?_eq_some found)
    refine congrArg keepFirst (List.flatMap_congr fun p input => ?_)
    rw [← edges_beside beside, filter_kept]
    intro e edge added
    apply beq_eq_false_iff_ne.mpr
    intro reaches
    -- A link into a pin of the first graph starts in the first graph.
    obtain ⟨l, link, m, inside, k, -, starts, -, rfl⟩ := (mem_edges_iff beside.unique).mp edge
    have ends : (g.pin? l.target).isSome = true := by
      rw [show l.target = p.id from reaches]
      exact pin_isSome member (List.mem_append_left _ input)
    have origin := holder_beside beside ((beside.level l link).trans ends) inside starts
    rw [hasNode_iff.mpr ⟨m, origin, rfl⟩] at added
    cases added

theorem variableOf_beside : h.variableOf? = g.variableOf? := by
  funext id
  rw [variableOf?, variableOf?, ← beside.nodes, ← List.filter_reverse]
  refine (findSome_kept fun n member added => ?_).symm
  rw [variable_beside beside (List.mem_reverse.mp member) added, ite_self]

theorem variableNodes_beside : h.variableNodes = g.variableNodes := by
  funext name
  rw [variableNodes, variableNodes, filter_beside beside]
  intro n member added
  rw [variable_beside beside member added]
  rfl

theorem leastSetter_beside : h.leastSetter? = g.leastSetter? := by
  funext name
  rw [leastSetter?, leastSetter?, filter_beside beside]
  intro n member added
  simp [variable_beside beside member added]

theorem dependencies_beside : AgreesOn (g.nodes.map Node.id) g.dependencies h.dependencies where
  unit id _ := by
    simp only [dependencies, variableOf_beside beside, variableNodes_beside beside]
  feeders id member := by
    simp only [dependencies, variableOf_beside beside, leastSetter_beside beside]
    cases g.variableOf? id with
    | none => exact feedersOf_beside beside (hasNode_iff_mem.mpr member)
    | some name =>
      show ((g.leastSetter? name).map (h.feedersOf h.edges)).getD [] =
        ((g.leastSetter? name).map (g.feedersOf g.edges)).getD []
      cases found : g.leastSetter? name with
      | none => rfl
      | some a =>
        obtain ⟨n, inside, same, -⟩ := leastSetter_spec found
        exact feedersOf_beside beside (hasNode_iff.mpr ⟨n, inside, same⟩)
  consumers id member := consumers_beside beside (hasNode_iff_mem.mpr member)
  isSetterless id _ := by
    simp only [dependencies, variableOf_beside beside, leastSetter_beside beside]

theorem sinks_beside : h.sinks = g.sinks := by
  rw [sinks, sinks, filter_beside beside]
  intro n member added
  have idle := beside.idle n member added
  simp [idle.output, idle.event]

/-! ## The walk -/

theorem walk_beside : h.walk = g.walk := by
  have within : g.nodes.map Node.id ⊆ h.nodes.map Node.id := by
    intro id member
    obtain ⟨n, inside, same⟩ := List.mem_map.mp member
    exact List.mem_map.mpr ⟨n, member_beside beside inside, same⟩
  have unique := unique_beside beside
  have swept := sinks_agree (dependencies_beside beside) within (lawful_dependencies unique)
    (lawful_dependencies beside.unique) (downward_downstream unique) (downward_downstream beside.unique)
    (sinks_known g) (resting_start _ _ _) (resting_start _ _ _)
  rw [List.length_map, List.length_map] at swept
  rw [walk, walk, sinks_beside beside, swept]

theorem unindexed_beside (added : g.hasNode id = false) : g.walk.index? id = none := by
  by_contra indexed
  rw [hasNode_iff_mem.mpr (indexed_known (unique_beside beside) id indexed)] at added
  cases added

/-! ## The evaluation order -/

theorem nodes_sorted_beside {index? : NodeId → Option Nat} :
    (h.nodes.mergeSort (byIndex index?)).filter (g.hasNode ·.id) = g.nodes.mergeSort (byIndex index?) := by
  rw [mergeSort_filter byIndex_trans byIndex_total, beside.nodes]

theorem ranks_beside : ranksOf h.walk.index? h.nodes = ranksOf g.walk.index? g.nodes := by
  rw [ranksOf, ranksOf, walk_beside beside, ← nodes_sorted_beside beside, filterMap_kept]
  exact fun n _ added => unindexed_beside beside added

theorem ordered_nodes_beside :
    h.inEvaluationOrder.nodes.filter (g.hasNode ·.id) = g.inEvaluationOrder.nodes := by
  simp only [inEvaluationOrder]
  rw [applyIndices_eq, applyIndices_eq, ranks_beside beside, List.filter_map, walk_beside beside,
    ← nodes_sorted_beside beside]
  rfl

omit beside in
theorem ordered_hasNode (g : SubGraph) (id : NodeId) : g.inEvaluationOrder.hasNode id = g.hasNode id := by
  rw [Bool.eq_iff_iff, hasNode_iff, hasNode_iff]
  constructor
  · rintro ⟨a, member, same⟩
    obtain ⟨n, inside, rfl⟩ := mem_ordered_nodes.mp member
    exact ⟨n, inside, same⟩
  · rintro ⟨n, inside, same⟩
    exact ⟨placed g n, mem_ordered_nodes.mpr ⟨n, inside, rfl⟩, same⟩

omit beside in
theorem ordered_pin (g : SubGraph) (pin : PinId) :
    (g.inEvaluationOrder.pin? pin).isSome = (g.pin? pin).isSome := by
  rw [Bool.eq_iff_iff, pin_isSome_iff, pin_isSome_iff]
  constructor
  · rintro ⟨a, member, has⟩
    obtain ⟨n, inside, rfl⟩ := mem_ordered_nodes.mp member
    exact ⟨n, inside, has⟩
  · rintro ⟨n, inside, has⟩
    exact ⟨placed g n, mem_ordered_nodes.mpr ⟨n, inside, rfl⟩, has⟩

/-- Links of the first graph are compared as without the nodes that stand beside it. -/
theorem byEnds_beside {k : Link} (left : k ∈ g.links) (right : l ∈ g.links) :
    byEnds h.inEvaluationOrder.nodes k l = byEnds g.inEvaluationOrder.nodes k l := by
  obtain ⟨place, increasing, moved⟩ := lastPosition_filter (g.hasNode ·.id) h.inEvaluationOrder.nodes
  rw [ordered_nodes_beside beside] at moved
  have held : ∀ k ∈ g.links, (g.pin? k.source).isSome = true ∧ (g.pin? k.target).isSome = true := by
    intro k link
    rw [← beside.links] at link
    obtain ⟨link, starts⟩ := List.mem_filter.mp link
    exact ⟨starts, (beside.level k link).symm.trans starts⟩
  have position : ∀ pin, (g.pin? pin).isSome = true → lastPosition? h.inEvaluationOrder.nodes pin =
      (lastPosition? g.inEvaluationOrder.nodes pin).map place := by
    intro pin held
    refine moved pin fun a member added => ?_
    obtain ⟨n, inside, rfl⟩ := mem_ordered_nodes.mp member
    have bare : n.hasPin pin = false := pinless_beside beside held inside added
    exact bare
  have starts := (Option.map_injective increasing.injective).eq_iff
    (a := lastPosition? g.inEvaluationOrder.nodes k.source) (b := lastPosition? g.inEvaluationOrder.nodes l.source)
  rw [byEnds, byEnds, position _ (held k left).1, position _ (held k left).2, position _ (held l right).1,
    position _ (held l right).2, indexLe_map increasing, indexLe_map increasing]
  exact if_congr starts rfl rfl

theorem ordered_links_beside :
    h.inEvaluationOrder.links.filter (fun l => (g.pin? l.source).isSome) = g.inEvaluationOrder.links := by
  simp only [inEvaluationOrder]
  rw [sortLinks_eq, sortLinks_eq, mergeSort_filter byEnds_trans byEnds_total, beside.links]
  exact mergeSort_congr fun k left l right => byEnds_beside beside left right

/-- Put into order, the graphs stand beside each other as before, and what was added has no place. -/
theorem ordered_beside : Beside g.inEvaluationOrder h.inEvaluationOrder ∧
    ∀ n ∈ h.inEvaluationOrder.nodes, g.inEvaluationOrder.hasNode n.id = false → n.isSorted = false := by
  refine ⟨⟨alike_unique (alike_inEvaluationOrder h) beside.unique, ?_, ?_, ?_, ?_⟩, ?_⟩
  · simp only [ordered_hasNode]
    exact ordered_nodes_beside beside
  · simp only [ordered_pin]
    exact ordered_links_beside beside
  · intro a member added
    obtain ⟨n, inside, rfl⟩ := mem_ordered_nodes.mp member
    rw [ordered_hasNode] at added
    obtain ⟨output, event, plain⟩ := beside.idle n inside added
    exact ⟨output, event, plain⟩
  · intro l link
    rw [ordered_pin, ordered_pin]
    exact beside.level l (mem_ordered_links.mp link)
  · intro a member added
    obtain ⟨n, inside, rfl⟩ := mem_ordered_nodes.mp member
    rw [ordered_hasNode] at added
    have absent : h.walk.index? n.id = none := (walk_beside beside).symm ▸ unindexed_beside beside added
    exact Bool.eq_false_iff.mpr fun sorted => (placed_isSorted inside).mp sorted absent

end PoseGraph.IdleNodes
