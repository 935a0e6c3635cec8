import Mathlib.Data.List.Nodup
import Mathlib.Data.List.Pairwise
import Mathlib.Logic.Relation
import PoseGraph.Editor.Links
import PoseGraph.Proofs.WalkSoundness

/-! What the walk is told about a graph, in terms of the graph's own links and
variables: units are the nodes of one variable, feeders and consumers are the
two ends of links. -/
namespace PoseGraph.GraphDependencies
open Relation WalkRuns WalkSoundness

variable {g : SubGraph} {m n : Node} {a b id : NodeId} {pin : PinId} {name : String}

/-- Nodes and pins of a graph are told apart by their identities. -/
structure UniqueIds (g : SubGraph) : Prop where
  nodes : (g.nodes.map Node.id).Nodup
  pins : ((g.nodes.flatMap Node.pins).map Pin.id).Nodup

/-- Every link runs from an output of a node to an input of a node. -/
def Directed (g : SubGraph) : Prop :=
  ∀ l ∈ g.links, (∃ m ∈ g.nodes, ∃ p ∈ m.outputs, p.id = l.source) ∧
    ∃ n ∈ g.nodes, ∃ p ∈ n.inputs, p.id = l.target

/-- No link ends at an output of a node. Its pins may be missing. -/
def Inbound (g : SubGraph) : Prop := ∀ l ∈ g.links, ∀ n ∈ g.nodes, ∀ p ∈ n.outputs, p.id ≠ l.target

/-- A local variable has at most one setter. -/
def OneSetter (g : SubGraph) : Prop :=
  ∀ m ∈ g.nodes, ∀ n ∈ g.nodes, m.isSetter = true → n.isSetter = true →
    m.variableName? = n.variableName? → m.id = n.id

instance (g : SubGraph) : Decidable (UniqueIds g) :=
  decidable_of_iff ((g.nodes.map Node.id).Nodup ∧ ((g.nodes.flatMap Node.pins).map Pin.id).Nodup)
    ⟨fun both => ⟨both.1, both.2⟩, fun unique => ⟨unique.nodes, unique.pins⟩⟩

instance (g : SubGraph) : Decidable (Directed g) := inferInstanceAs (Decidable (∀ l ∈ g.links, _))

instance (g : SubGraph) : Decidable (Inbound g) := inferInstanceAs (Decidable (∀ l ∈ g.links, _))

instance (g : SubGraph) : Decidable (OneSetter g) := inferInstanceAs (Decidable (∀ m ∈ g.nodes, _))

/-- A graph ends at nodes with certain names that are no annotations. -/
def EndsGraph (n : Node) : Prop := n.isComment = false ∧ (n.name = "Output" ∨ n.name = "Event")

/-- A link leads from a pin of the first node to a pin of the second. -/
def Feeds (g : SubGraph) (a b : NodeId) : Prop :=
  ∃ l ∈ g.links, ∃ m ∈ g.nodes, ∃ n ∈ g.nodes,
    m.hasPin l.source = true ∧ n.hasPin l.target = true ∧ m.id = a ∧ n.id = b

/-- Both nodes stand for one local variable. -/
def Twins (g : SubGraph) (a b : NodeId) : Prop :=
  ∃ m ∈ g.nodes, ∃ n ∈ g.nodes, m.sameVariable n = true ∧ m.id = a ∧ n.id = b

/-- The second node is reached from the first by following links forward,
where from a node of a local variable one may go on at any other of its nodes. -/
def Downstream (g : SubGraph) : NodeId → NodeId → Prop :=
  ReflTransGen fun a b => Feeds g a b ∨ Twins g a b

/-! ## Look-ups among unique identities -/

/-- A search finds the only element that passes. -/
theorem find_unique {α : Type} {p : α → Bool} {xs : List α} {x : α} (member : x ∈ xs)
    (passes : p x = true) (only : ∀ y ∈ xs, p y = true → y = x) : xs.find? p = some x := by
  cases found : xs.find? p with
  | none => exact absurd passes (by simpa using List.find?_eq_none.mp found x member)
  | some y => rw [only y (List.mem_of_find?_eq_some found) (List.find?_some found)]

theorem node_eq_of_id (unique : UniqueIds g) (left : m ∈ g.nodes) (right : n ∈ g.nodes)
    (same : m.id = n.id) : m = n :=
  List.inj_on_of_nodup_map unique.nodes left right same

theorem hasNode_iff : g.hasNode id = true ↔ ∃ n ∈ g.nodes, n.id = id := by
  simp [SubGraph.hasNode]

theorem hasPin_iff : n.hasPin pin = true ↔ ∃ p ∈ n.pins, p.id = pin := by
  simp [Node.hasPin]

theorem node_eq_of_pin (unique : UniqueIds g) (left : m ∈ g.nodes) (right : n ∈ g.nodes)
    (leftHas : m.hasPin pin = true) (rightHas : n.hasPin pin = true) : m = n := by
  have pins := unique.pins
  rw [List.map_flatMap, List.nodup_flatMap] at pins
  by_contra differ
  have symmetric : Std.Symm (Function.onFun List.Disjoint fun n : Node => n.pins.map Pin.id) :=
    ⟨fun _ _ apart => List.disjoint_symm apart⟩
  have disjoint := pins.2.forall left right differ
  obtain ⟨p, inLeft, rfl⟩ := hasPin_iff.mp leftHas
  obtain ⟨q, inRight, same⟩ := hasPin_iff.mp rightHas
  exact disjoint (List.mem_map_of_mem inLeft) (same ▸ List.mem_map_of_mem inRight)

theorem directed_inbound (unique : UniqueIds g) (directed : Directed g) : Inbound g := by
  intro l link n member p output same
  obtain ⟨-, m, inside, q, input, target⟩ := directed l link
  have hasM : m.hasPin l.target = true := hasPin_iff.mpr ⟨q, List.mem_append_left _ input, target⟩
  have hasN : n.hasPin l.target = true := hasPin_iff.mpr ⟨p, List.mem_append_right _ output, same⟩
  obtain rfl := node_eq_of_pin unique inside member hasM hasN
  -- Among the pins of one node, an input and an output have different identities.
  have pins := unique.pins
  rw [List.map_flatMap, List.nodup_flatMap] at pins
  have own := pins.1 m member
  rw [Node.pins, List.map_append, List.nodup_append] at own
  exact own.2.2 q.id (List.mem_map_of_mem input) p.id (List.mem_map_of_mem output) (target.trans same.symm)

theorem lastNodeOfPin_spec (found : g.lastNodeOfPin? pin = some id) :
    ∃ n ∈ g.nodes, n.hasPin pin = true ∧ n.id = id := by
  obtain ⟨n, first, same⟩ := Option.map_eq_some_iff.mp found
  exact ⟨n, by simpa using List.mem_of_find?_eq_some first, by simpa using List.find?_some first, same⟩

theorem lastNodeOfPin_eq_some_iff (unique : UniqueIds g) :
    g.lastNodeOfPin? pin = some id ↔ ∃ n ∈ g.nodes, n.hasPin pin = true ∧ n.id = id := by
  refine ⟨lastNodeOfPin_spec, ?_⟩
  rintro ⟨n, member, has, rfl⟩
  refine Option.map_eq_some_iff.mpr ⟨n, find_unique (by simpa using member) has fun y inside also => ?_, rfl⟩
  exact node_eq_of_pin unique (by simpa using inside) member also has

theorem pin_spec {p : Pin} (found : g.pin? pin = some p) : ∃ n ∈ g.nodes, p ∈ n.pins ∧ p.id = pin := by
  obtain ⟨n, member, value⟩ := List.exists_of_findSome?_eq_some found
  exact ⟨n, member, List.mem_of_find?_eq_some value, by simpa using List.find?_some value⟩

theorem pin_isSome {p : Pin} (member : n ∈ g.nodes) (held : p ∈ n.pins) : (g.pin? p.id).isSome = true := by
  rw [SubGraph.pin?, List.findSome?_isSome_iff]
  refine ⟨n, member, ?_⟩
  rw [Node.pin?, List.find?_isSome]
  exact ⟨p, held, beq_self_eq_true _⟩

theorem pin_isSome_iff : (g.pin? pin).isSome = true ↔ ∃ n ∈ g.nodes, n.hasPin pin = true := by
  constructor
  · intro found
    obtain ⟨p, found⟩ := Option.isSome_iff_exists.mp found
    obtain ⟨n, member, held, same⟩ := pin_spec found
    exact ⟨n, member, hasPin_iff.mpr ⟨p, held, same⟩⟩
  · rintro ⟨n, member, has⟩
    obtain ⟨p, held, rfl⟩ := hasPin_iff.mp has
    exact pin_isSome member held

theorem nodeOfPin_spec (found : g.nodeOfPin? pin = some n) : n ∈ g.nodes ∧ n.hasPin pin = true :=
  ⟨List.mem_of_find?_eq_some found, by simpa using List.find?_some found⟩

/-- A pin is the first of that identity at the first node that has one. -/
theorem pin_nodeOfPin (g : SubGraph) (pin : PinId) : g.pin? pin = (g.nodeOfPin? pin).bind (·.pin? pin) := by
  rw [SubGraph.pin?, SubGraph.nodeOfPin?]
  induction g.nodes with
  | nil => rfl
  | cons n nodes ih =>
    have here : n.hasPin pin = (n.pin? pin).isSome := by
      rw [Node.hasPin, Node.pin?, List.isSome_find?]
    rw [List.findSome?_cons, List.find?_cons, here]
    cases found : n.pin? pin with
    | none => simpa using ih
    | some p => simp [found]

/-- A node is found by its pins. -/
theorem nodeOfPin_eq (unique : UniqueIds g) (member : n ∈ g.nodes) (has : n.hasPin pin = true) :
    g.nodeOfPin? pin = some n :=
  find_unique member has fun _ inside also => node_eq_of_pin unique inside member also has

/-- What feeds a variable is linked to its setter. -/
theorem source_spec {p : Pin} (found : g.source? name = some p) :
    ∃ s ∈ g.nodes, s.isSetter = true ∧ s.variableName? = some name ∧
      ∃ l ∈ g.links, s.hasPin l.target = true ∧ l.source = p.id := by
  obtain ⟨s, setter, rest⟩ := Option.bind_eq_some_iff.mp found
  obtain ⟨i, first, produced⟩ := Option.bind_eq_some_iff.mp rest
  obtain ⟨l, linked, start⟩ := Option.bind_eq_some_iff.mp produced
  have passes := List.find?_some setter
  simp only [Bool.and_eq_true, beq_iff_eq] at passes
  obtain ⟨-, -, -, same⟩ := pin_spec start
  refine ⟨s, List.mem_of_find?_eq_some setter, passes.1, passes.2, l,
    List.mem_of_find?_eq_some linked, hasPin_iff.mpr ⟨i, ?_, ?_⟩, same.symm⟩
  · exact List.mem_append_left _ (List.mem_of_mem_head? first)
  · have target := List.find?_some linked
    exact (beq_iff_eq.mp target).symm

/-- Both ends of a link whose pins exist are nodes, whatever pins there are of one identity. -/
theorem edge_ends {e : Edge} (edge : e ∈ g.edges) :
    e.source ∈ g.nodes.map Node.id ∧ e.target ∈ g.nodes.map Node.id := by
  obtain ⟨l, -, shape⟩ := List.mem_filterMap.mp edge
  split at shape
  · rename_i source target
    obtain ⟨m, inM, -, rfl⟩ := lastNodeOfPin_spec source
    obtain ⟨n, inN, -, rfl⟩ := lastNodeOfPin_spec target
    cases shape
    exact ⟨List.mem_map_of_mem inM, List.mem_map_of_mem inN⟩
  · cases shape

theorem mem_edges_iff (unique : UniqueIds g) {e : Edge} : e ∈ g.edges ↔
    ∃ l ∈ g.links, ∃ m ∈ g.nodes, ∃ n ∈ g.nodes,
      m.hasPin l.source = true ∧ n.hasPin l.target = true ∧ e = ⟨m.id, l.target, n.id⟩ := by
  simp only [SubGraph.edges, List.mem_filterMap]
  constructor
  · rintro ⟨l, member, shape⟩
    split at shape
    · rename_i s t sourceFound targetFound
      obtain ⟨m, inM, hasM, rfl⟩ := (lastNodeOfPin_eq_some_iff unique).mp sourceFound
      obtain ⟨n, inN, hasN, rfl⟩ := (lastNodeOfPin_eq_some_iff unique).mp targetFound
      exact ⟨l, member, m, inM, n, inN, hasM, hasN, (Option.some.inj shape).symm⟩
    · cases shape
  · rintro ⟨l, member, m, inM, n, inN, hasM, hasN, rfl⟩
    refine ⟨l, member, ?_⟩
    rw [(lastNodeOfPin_eq_some_iff unique).mpr ⟨m, inM, hasM, rfl⟩,
      (lastNodeOfPin_eq_some_iff unique).mpr ⟨n, inN, hasN, rfl⟩]

/-! ## Lists of identities -/

theorem mem_sortIds {ids : List NodeId} : a ∈ sortIds ids ↔ a ∈ ids := by simp [sortIds]

theorem mem_keepFirst {ids : List NodeId} : a ∈ keepFirst ids ↔ a ∈ ids := by
  have general (kept : List NodeId) : a ∈ ids.foldl
      (fun kept id => if kept.contains id then kept else kept ++ [id]) kept ↔ a ∈ kept ∨ a ∈ ids := by
    induction ids generalizing kept with
    | nil => simp
    | cons id ids ih =>
      rw [List.foldl_cons, ih, List.mem_cons]
      by_cases known : kept.contains id
      · have inside : id ∈ kept := by simpa using known
        rw [if_pos known]
        constructor
        · rintro (old | new)
          · exact .inl old
          · exact .inr (.inr new)
        · rintro (old | rfl | new)
          · exact .inl old
          · exact .inl inside
          · exact .inr new
      · rw [if_neg known]
        simp [or_assoc]
  simpa [keepFirst] using general []

/-! ## Variables -/

theorem variableName_eq_some : n.variableName? = some name ↔
    n.isLocalVariable = true ∧ n.pins.head?.map Pin.name = some name := by
  unfold Node.variableName?
  split <;> simp_all

/-- A node of a local variable has exactly one pin, which names the variable. -/
theorem variable_shape (isVariable : n.isLocalVariable = true) :
    ∃ p, n.pins = [p] ∧ n.variableName? = some p.name := by
  have one : n.pins.length = 1 := by
    simp only [Node.isLocalVariable, Bool.and_eq_true, beq_iff_eq] at isVariable
    exact isVariable.2
  obtain ⟨p, shape⟩ := List.length_eq_one_iff.mp one
  exact ⟨p, shape, variableName_eq_some.mpr ⟨isVariable, by simp [shape]⟩⟩

theorem sameVariable_iff : m.sameVariable n = true ↔
    ∃ name, m.variableName? = some name ∧ n.variableName? = some name := by
  simp only [Node.sameVariable, Bool.and_eq_true, beq_iff_eq]
  constructor
  · rintro ⟨⟨left, -⟩, same⟩
    obtain ⟨p, -, named⟩ := variable_shape left
    exact ⟨p.name, named, same ▸ named⟩
  · rintro ⟨name, left, right⟩
    exact ⟨⟨(variableName_eq_some.mp left).1, (variableName_eq_some.mp right).1⟩, by rw [left, right]⟩

theorem variableOf_eq_some_iff (distinct : (g.nodes.map Node.id).Nodup) :
    g.variableOf? id = some name ↔ ∃ n ∈ g.nodes, n.id = id ∧ n.variableName? = some name := by
  rw [SubGraph.variableOf?]
  constructor
  · intro found
    obtain ⟨n, member, value⟩ := List.exists_of_findSome?_eq_some found
    split at value
    · rename_i same
      exact ⟨n, by simpa using member, same, value⟩
    · cases value
  · rintro ⟨n, member, rfl, named⟩
    cases found : g.nodes.reverse.findSome? fun k => if k.id = n.id then k.variableName? else none with
    | none =>
      have missing := List.findSome?_eq_none_iff.mp found n (by simpa using member)
      simp [named] at missing
    | some other =>
      obtain ⟨k, inside, value⟩ := List.exists_of_findSome?_eq_some found
      split at value
      · rename_i same
        rw [List.inj_on_of_nodup_map distinct (by simpa using inside) member same, named] at value
        exact value.symm
      · cases value

theorem mem_variableNodes : a ∈ g.variableNodes name ↔
    ∃ n ∈ g.nodes, n.id = a ∧ n.variableName? = some name := by
  simp only [SubGraph.variableNodes, mem_sortIds, List.mem_map, List.mem_filter, beq_iff_eq]
  constructor
  · rintro ⟨n, ⟨member, named⟩, same⟩
    exact ⟨n, member, same, named⟩
  · rintro ⟨n, member, same, named⟩
    exact ⟨n, ⟨member, named⟩, same⟩

/-- The least setter is a setter of the variable. -/
theorem leastSetter_spec (found : g.leastSetter? name = some a) :
    ∃ n ∈ g.nodes, n.id = a ∧ n.isSetter = true ∧ n.variableName? = some name := by
  have member := mem_sortIds.mp (List.mem_of_mem_head? found)
  obtain ⟨n, passes, same⟩ := List.mem_map.mp member
  obtain ⟨inside, setter⟩ := List.mem_filter.mp passes
  simp only [Bool.and_eq_true, beq_iff_eq] at setter
  exact ⟨n, inside, same, setter⟩

/-- A variable with a setter has a least one. -/
theorem leastSetter_exists (member : n ∈ g.nodes) (setter : n.isSetter = true)
    (named : n.variableName? = some name) : ∃ a, g.leastSetter? name = some a := by
  have inside : n.id ∈ sortIds
      ((g.nodes.filter fun n => n.isSetter && n.variableName? == some name).map Node.id) :=
    mem_sortIds.mpr (List.mem_map_of_mem (List.mem_filter.mpr ⟨member, by simp [setter, named]⟩))
  exact ⟨_, List.head?_eq_some_head (List.ne_nil_of_mem inside)⟩

/-! ## Units, feeders and consumers -/

/-- A node's unit is the node itself, or all nodes of its variable. -/
theorem mem_unit_iff (distinct : (g.nodes.map Node.id).Nodup) :
    b ∈ g.dependencies.unit a ↔ b = a ∨ Twins g a b := by
  have twins : Twins g a b ↔ ∃ name, g.variableOf? a = some name ∧ b ∈ g.variableNodes name := by
    simp only [variableOf_eq_some_iff distinct, mem_variableNodes]
    constructor
    · rintro ⟨m, inM, n, inN, same, rfl, rfl⟩
      obtain ⟨name, left, right⟩ := sameVariable_iff.mp same
      exact ⟨name, ⟨m, inM, rfl, left⟩, n, inN, rfl, right⟩
    · rintro ⟨name, ⟨m, inM, rfl, left⟩, n, inN, rfl, right⟩
      exact ⟨m, inM, n, inN, sameVariable_iff.mpr ⟨name, left, right⟩, rfl, rfl⟩
  rw [twins]
  simp only [SubGraph.dependencies]
  cases entry : g.variableOf? a with
  | none => simp
  | some name =>
    simp only [Option.some.injEq, exists_eq_left', iff_or_self]
    rintro rfl
    exact mem_variableNodes.mpr ((variableOf_eq_some_iff distinct).mp entry)

/-- The nodes of a unit stand for the same variable, or there is only one. -/
theorem unit_variable (distinct : (g.nodes.map Node.id).Nodup) (member : b ∈ g.dependencies.unit a) :
    g.variableOf? b = g.variableOf? a ∧ (g.variableOf? a = none → b = a) := by
  simp only [SubGraph.dependencies] at member
  cases entry : g.variableOf? a with
  | none => simp_all
  | some name =>
    simp only [entry] at member
    exact ⟨(variableOf_eq_some_iff distinct).mpr (mem_variableNodes.mp member), by simp⟩

theorem mem_feedersOf_iff (unique : UniqueIds g) : a ∈ g.feedersOf g.edges id ↔
    ∃ n ∈ g.nodes, n.id = id ∧ ∃ p ∈ n.inputs, ∃ l ∈ g.links, l.target = p.id ∧
      ∃ m ∈ g.nodes, m.hasPin l.source = true ∧ m.id = a := by
  have ofInput {n : Node} (member : n ∈ g.nodes) : (∃ p ∈ n.inputs, a ∈ sortIds
      ((g.edges.filter fun e => e.targetPin == p.id).map Edge.source)) ↔
      ∃ p ∈ n.inputs, ∃ l ∈ g.links, l.target = p.id ∧
        ∃ m ∈ g.nodes, m.hasPin l.source = true ∧ m.id = a := by
    refine exists_congr fun p => and_congr_right fun input => ?_
    simp only [mem_sortIds, List.mem_map, List.mem_filter, beq_iff_eq, mem_edges_iff unique]
    constructor
    · rintro ⟨e, ⟨⟨l, inside, m, inM, k, inK, hasM, -, rfl⟩, same⟩, rfl⟩
      exact ⟨l, inside, same, m, inM, hasM, rfl⟩
    · rintro ⟨l, inside, same, m, inM, hasM, rfl⟩
      have hasN : n.hasPin l.target = true :=
        hasPin_iff.mpr ⟨p, List.mem_append_left _ input, same.symm⟩
      exact ⟨_, ⟨⟨l, inside, m, inM, n, member, hasM, hasN, rfl⟩, same⟩, rfl⟩
  rw [SubGraph.feedersOf]
  cases found : g.nodes.reverse.find? fun n => n.id == id with
  | none =>
    simp only [List.not_mem_nil, false_iff]
    rintro ⟨n, member, same, -⟩
    exact absurd same (by simpa using List.find?_eq_none.mp found n (by simpa using member))
  | some n =>
    have member : n ∈ g.nodes := by simpa using List.mem_of_find?_eq_some found
    have same : n.id = id := by simpa using List.find?_some found
    simp only [mem_keepFirst, List.mem_flatMap, ofInput member]
    constructor
    · exact fun inputs => ⟨n, member, same, inputs⟩
    · rintro ⟨k, inside, also, inputs⟩
      rwa [node_eq_of_id unique inside member (also.trans same.symm)] at inputs

theorem mem_consumers_iff (unique : UniqueIds g) :
    b ∈ g.dependencies.consumers a ↔ Feeds g a b := by
  simp only [SubGraph.dependencies, SubGraph.consumersOf, mem_keepFirst, mem_sortIds, List.mem_map,
    List.mem_filter, beq_iff_eq, mem_edges_iff unique]
  constructor
  · rintro ⟨e, ⟨⟨l, inside, m, inM, n, inN, hasM, hasN, rfl⟩, rfl⟩, rfl⟩
    exact ⟨l, inside, m, inM, n, inN, hasM, hasN, rfl, rfl⟩
  · rintro ⟨l, inside, m, inM, n, inN, hasM, hasN, rfl, rfl⟩
    exact ⟨_, ⟨⟨l, inside, m, inM, n, inN, hasM, hasN, rfl⟩, rfl⟩, rfl⟩

/-- A feeder feeds the node, or the setter of the node's variable. -/
theorem feeds_of_feeder (unique : UniqueIds g) (feeder : a ∈ g.dependencies.feeders b) :
    ∃ c, Feeds g a c ∧ b ∈ g.dependencies.unit c := by
  have direct {c : NodeId} (feeder : a ∈ g.feedersOf g.edges c) : Feeds g a c := by
    obtain ⟨n, inN, same, p, input, l, inside, target, m, inM, hasM, rfl⟩ :=
      (mem_feedersOf_iff unique).mp feeder
    refine ⟨l, inside, m, inM, n, inN, hasM, ?_, rfl, same⟩
    exact hasPin_iff.mpr ⟨p, List.mem_append_left _ input, target.symm⟩
  simp only [SubGraph.dependencies] at feeder
  cases entry : g.variableOf? b with
  | none =>
    simp only [entry] at feeder
    exact ⟨b, direct feeder, (mem_unit_iff unique.nodes).mpr (.inl rfl)⟩
  | some name =>
    cases setter : g.leastSetter? name with
    | none => simp [entry, setter] at feeder
    | some s =>
      simp only [entry, setter, Option.map_some, Option.getD_some] at feeder
      obtain ⟨k, inK, rfl, -, named⟩ := leastSetter_spec setter
      obtain ⟨n, inN, rfl, also⟩ := (variableOf_eq_some_iff unique.nodes).mp entry
      exact ⟨k.id, direct feeder, (mem_unit_iff unique.nodes).mpr
        (.inr ⟨k, inK, n, inN, sameVariable_iff.mpr ⟨name, named, also⟩, rfl, rfl⟩)⟩

/-- In a graph whose links end at inputs and whose variables have one setter each, whatever feeds
a node is among its feeders. -/
theorem feeder_of_feeds (unique : UniqueIds g) (inbound : Inbound g) (setters : OneSetter g)
    (feeds : Feeds g a b) : a ∈ g.dependencies.feeders b := by
  obtain ⟨l, inside, m, inM, k, inK, hasM, hasK, rfl, rfl⟩ := feeds
  obtain ⟨p, pin, target⟩ := hasPin_iff.mp hasK
  have input : p ∈ k.inputs :=
    (List.mem_append.mp pin).resolve_right fun output => inbound l inside k inK p output target
  have feeder : m.id ∈ g.feedersOf g.edges k.id :=
    (mem_feedersOf_iff unique).mpr ⟨k, inK, rfl, p, input, l, inside, target.symm, m, inM, hasM, rfl⟩
  simp only [SubGraph.dependencies]
  cases entry : g.variableOf? k.id with
  | none => exact feeder
  | some name =>
    obtain ⟨k', inK', same, named⟩ := (variableOf_eq_some_iff unique.nodes).mp entry
    obtain rfl := node_eq_of_id unique inK' inK same
    have isVariable := (variableName_eq_some.mp named).1
    have isSetter : k'.isSetter = true := by
      obtain ⟨q, shape, -⟩ := variable_shape isVariable
      have total : k'.inputs.length + k'.outputs.length = 1 := by
        simpa [Node.pins] using congrArg List.length shape
      have positive := List.length_pos_of_mem input
      simp only [Node.isSetter, isVariable, Bool.true_and, beq_iff_eq]
      omega
    obtain ⟨s, least⟩ := leastSetter_exists inK isSetter named
    obtain ⟨k'', inK'', rfl, also, named''⟩ := leastSetter_spec least
    simp only [least, Option.map_some, Option.getD_some]
    rwa [setters k'' inK'' k' inK also isSetter (named''.trans named.symm)]

theorem feeder_inside (feeder : a ∈ g.feedersOf g.edges id) : a ∈ g.nodes.map Node.id := by
  rw [SubGraph.feedersOf] at feeder
  split at feeder
  · cases feeder
  · obtain ⟨p, -, listed⟩ := List.mem_flatMap.mp (mem_keepFirst.mp feeder)
    obtain ⟨e, passes, rfl⟩ := List.mem_map.mp (mem_sortIds.mp listed)
    exact (edge_ends (List.mem_filter.mp passes).1).1

theorem consumer_inside (consumer : a ∈ g.dependencies.consumers id) : a ∈ g.nodes.map Node.id := by
  obtain ⟨e, passes, rfl⟩ := List.mem_map.mp (mem_sortIds.mp (mem_keepFirst.mp consumer))
  exact (edge_ends (List.mem_filter.mp passes).1).2

/-- The walk may rely on these whenever nodes are told apart, even if their pins are not. -/
theorem lawful_of_distinct (distinct : (g.nodes.map Node.id).Nodup) :
    Lawful g.dependencies (g.nodes.map Node.id) where
  self id := (mem_unit_iff distinct).mpr (.inl rfl)
  shared := by
    intro id m member
    obtain ⟨same, alone⟩ := unit_variable distinct member
    cases entry : g.variableOf? id with
    | none => rw [alone entry]
    | some name => simp [SubGraph.dependencies, same, entry]
  shared_feeders := by
    intro id m member
    obtain ⟨same, alone⟩ := unit_variable distinct member
    cases entry : g.variableOf? id with
    | none => rw [alone entry]
    | some name => simp [SubGraph.dependencies, same, entry]
  setterless_unfed := by
    intro id setterless
    simp only [SubGraph.dependencies] at setterless ⊢
    cases entry : g.variableOf? id with
    | none => simp [entry] at setterless
    | some name =>
      simp only [entry, Option.isNone_iff_eq_none] at setterless
      simp [setterless]
  distinct id := by
    simp only [SubGraph.dependencies]
    cases g.variableOf? id with
    | none => exact List.nodup_singleton id
    | some name =>
      refine ((List.mergeSort_perm _ _).nodup_iff).mpr ?_
      exact distinct.sublist (List.filter_sublist.map _)
  units_inside := by
    intro id member m inUnit
    rcases (mem_unit_iff distinct).mp inUnit with rfl | ⟨-, -, n, inN, -, -, rfl⟩
    · exact member
    · exact List.mem_map_of_mem inN
  feeders_inside id f feeder := by
    simp only [SubGraph.dependencies] at feeder
    cases entry : g.variableOf? id with
    | none => exact feeder_inside (by simpa only [entry] using feeder)
    | some name =>
      cases setter : g.leastSetter? name with
      | none => simp [entry, setter] at feeder
      | some s => exact feeder_inside (by simpa only [entry, setter, Option.map_some, Option.getD_some] using feeder)
  consumers_inside _ _ consumer := consumer_inside consumer

theorem lawful_dependencies (unique : UniqueIds g) : Lawful g.dependencies (g.nodes.map Node.id) :=
  lawful_of_distinct unique.nodes

theorem downward_downstream (unique : UniqueIds g) : Downward g.dependencies (Downstream g) where
  trans := ReflTransGen.trans
  unit := by
    intro id m member
    rcases (mem_unit_iff unique.nodes).mp member with rfl | twins
    · exact .refl
    · exact .single (.inr twins)
  feeder := by
    intro id f feeder
    obtain ⟨c, feeds, member⟩ := feeds_of_feeder unique feeder
    rcases (mem_unit_iff unique.nodes).mp member with rfl | twins
    · exact .single (.inl feeds)
    · exact .tail (.single (.inl feeds)) (.inr twins)

theorem mem_sinks_iff : id ∈ g.sinks ↔ ∃ n ∈ g.nodes, EndsGraph n ∧ n.id = id := by
  simp [SubGraph.sinks, mem_sortIds, EndsGraph, and_assoc]

theorem sinks_known (g : SubGraph) : ∀ s ∈ g.sinks, s ∈ g.nodes.map Node.id := by
  intro s sink
  obtain ⟨n, member, -, rfl⟩ := mem_sinks_iff.mp sink
  exact List.mem_map_of_mem member

/-- What the walk of a graph leaves: no queue, and every feeder of an indexed
node before it or downstream of it. -/
theorem walk_resting (unique : UniqueIds g) :
    Resting g.dependencies (g.nodes.map Node.id) (Downstream g) g.walk ∧ g.walk.pending = [] ∧
      ∀ s ∈ g.sinks, g.walk.index? s ≠ none := by
  obtain ⟨resting, idle, -, sinks⟩ := sinks_resting (lawful_dependencies unique)
    (downward_downstream unique) g.sinks (sinks_known g) (resting_start _ _ _) rfl
  rw [List.length_map] at resting idle sinks
  exact ⟨resting, idle, sinks⟩

end PoseGraph.GraphDependencies
