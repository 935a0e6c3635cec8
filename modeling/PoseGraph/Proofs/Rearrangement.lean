import PoseGraph.Proofs.LinkOrder

/-! Graphs that differ in the order of their nodes and links, in places and in
entry marks. Such graphs are walked in the same way, which is why places do not
depend on how nodes and links are listed, and why a graph that is put into order
twice is as after the first time. -/
namespace PoseGraph.Rearrangement
open GraphDependencies IndexRanks LinkOrder SubGraph

variable {g h k : SubGraph} {m n : Node} {id : NodeId} {pin : PinId} {ids others : List NodeId}

/-- A node apart from its place and its entry mark. -/
def bare (n : Node) : Node := { n with sortIndex := undefinedSortIndex, isEntry := false }

/-- The same nodes and links, whatever their order. -/
structure Alike (g h : SubGraph) : Prop where
  nodes : (g.nodes.map bare).Perm (h.nodes.map bare)
  links : g.links.Perm h.links

theorem alike_refl (g : SubGraph) : Alike g g := ⟨.refl _, .refl _⟩

theorem alike_symm (alike : Alike g h) : Alike h g := ⟨alike.nodes.symm, alike.links.symm⟩

theorem alike_trans (first : Alike g h) (second : Alike h k) : Alike g k :=
  ⟨first.nodes.trans second.nodes, first.links.trans second.links⟩

/-! ## What a bare node still tells -/

/-- What can be computed from a bare node is the same for both. -/
theorem same_blind {α : Type} {f : Node → α} (blind : ∀ n, f (bare n) = f n) (same : bare m = bare n) :
    f m = f n := by
  rw [← blind m, same, blind]

theorem same_id (same : bare m = bare n) : m.id = n.id := same_blind (fun _ => rfl) same

theorem same_pins (same : bare m = bare n) : m.pins = n.pins := same_blind (fun _ => rfl) same

theorem same_kind (same : bare m = bare n) : m.kind = n.kind := same_blind (fun _ => rfl) same

theorem counterpart (alike : Alike g h) (member : n ∈ g.nodes) : ∃ m ∈ h.nodes, bare m = bare n := by
  have inside := alike.nodes.mem_iff.mp (List.mem_map_of_mem (f := bare) member)
  exact List.mem_map.mp inside

/-- What can be computed from bare nodes is the same up to order. -/
theorem map_perm {α : Type} {f : Node → α} (blind : ∀ n, f (bare n) = f n) (alike : Alike g h) :
    (g.nodes.map f).Perm (h.nodes.map f) := by
  have perm := alike.nodes.map f
  simpa [List.map_map, Function.comp_def, blind] using perm

theorem filter_map_perm {α : Type} {p : Node → Bool} {f : Node → α} (blindTest : ∀ n, p (bare n) = p n)
    (blind : ∀ n, f (bare n) = f n) (alike : Alike g h) :
    ((g.nodes.filter p).map f).Perm ((h.nodes.filter p).map f) := by
  have perm := (alike.nodes.filter p).map f
  simpa [List.filter_map, Function.comp_def, blindTest, blind] using perm

theorem alike_length (alike : Alike g h) : g.nodes.length = h.nodes.length := by
  simpa using alike.nodes.length_eq

theorem alike_unique (alike : Alike g h) (unique : UniqueIds g) : UniqueIds h where
  nodes := (map_perm (f := Node.id) (fun _ => rfl) alike).nodup_iff.mp unique.nodes
  pins := by
    have perm := (map_perm (f := Node.pins) (fun _ => rfl) alike).flatten.map Pin.id
    simpa only [← List.flatMap_def] using perm.nodup_iff.mp (by simpa only [← List.flatMap_def] using unique.pins)

/-! ## What ordering changes -/

/-- A node apart from its place. -/
def unplaced (n : Node) : Node := { n with sortIndex := undefinedSortIndex }

/-- The same nodes apart from their places, and the same links, in whatever order. -/
structure Reshuffled (g h : SubGraph) : Prop where
  nodes : (g.nodes.map unplaced).Perm (h.nodes.map unplaced)
  links : g.links.Perm h.links

theorem alike_of_reshuffled (reshuffled : Reshuffled g h) : Alike g h := by
  have nodes := reshuffled.nodes.map bare
  rw [List.map_map, List.map_map] at nodes
  exact ⟨nodes, reshuffled.links⟩

theorem reshuffled_inEvaluationOrder (g : SubGraph) : Reshuffled g g.inEvaluationOrder := by
  refine ⟨?_, (ordered_links_perm g).symm⟩
  rw [inEvaluationOrder, applyIndices_eq, List.map_map]
  exact ((List.mergeSort_perm _ _).map unplaced).symm

theorem reshuffled_entryFirst (g : SubGraph) : Reshuffled g g.entryFirst := by
  refine ⟨?_, .refl _⟩
  have perm := (List.mergeSort_perm (g.nodes.map fun n =>
    { n with sortIndex := if n.isEntry then 0 else 1 }) fun a b => a.sortIndex ≤ b.sortIndex).map unplaced
  rw [List.map_map] at perm
  exact perm.symm

theorem alike_inEvaluationOrder (g : SubGraph) : Alike g g.inEvaluationOrder :=
  alike_of_reshuffled (reshuffled_inEvaluationOrder g)

theorem alike_entryFirst (g : SubGraph) : Alike g g.entryFirst := alike_of_reshuffled (reshuffled_entryFirst g)

/-! ## The walk does not depend on the order -/

theorem sortIds_perm (perm : ids.Perm others) : sortIds ids = sortIds others := by
  have sorted (ids : List NodeId) : (sortIds ids).Pairwise fun a b => a.value ≤ b.value := by
    have ordered : (sortIds ids).Pairwise fun a b => decide (a.value ≤ b.value) = true := by
      refine List.pairwise_mergeSort ?_ ?_ ids
      · simp only [decide_eq_true_eq]
        exact fun _ _ _ first second => Nat.le_trans first second
      · simp only [Bool.or_eq_true, decide_eq_true_eq]
        exact fun a b => Nat.le_total a.value b.value
    exact ordered.imp of_decide_eq_true
  have both : (sortIds ids).Perm (sortIds others) :=
    (List.mergeSort_perm _ _).trans (perm.trans (List.mergeSort_perm _ _).symm)
  refine both.eq_of_pairwise (fun a b _ _ left right => ?_) (sorted ids) (sorted others)
  obtain ⟨a⟩ := a
  obtain ⟨b⟩ := b
  exact congrArg NodeId.mk (Nat.le_antisymm left right)

theorem alike_variableOf (alike : Alike g h) (unique : UniqueIds g) : g.variableOf? = h.variableOf? := by
  have forward {g h : SubGraph} (alike : Alike g h) (unique : UniqueIds g) (id : NodeId) (name : String)
      (found : g.variableOf? id = some name) : h.variableOf? id = some name := by
    obtain ⟨n, member, same, named⟩ := (variableOf_eq_some_iff unique.nodes).mp found
    obtain ⟨m, inside, bareSame⟩ := counterpart alike member
    exact (variableOf_eq_some_iff (alike_unique alike unique).nodes).mpr
      ⟨m, inside, (same_id bareSame).trans same, (same_blind (fun _ => rfl) bareSame).trans named⟩
  funext id
  exact Option.ext fun name => ⟨forward alike unique id name,
    forward (alike_symm alike) (alike_unique alike unique) id name⟩

theorem alike_lastNodeOfPin (alike : Alike g h) (unique : UniqueIds g) :
    g.lastNodeOfPin? = h.lastNodeOfPin? := by
  have forward {g h : SubGraph} (alike : Alike g h) (unique : UniqueIds g) (pin : PinId) (id : NodeId)
      (found : g.lastNodeOfPin? pin = some id) : h.lastNodeOfPin? pin = some id := by
    obtain ⟨n, member, has, same⟩ := (lastNodeOfPin_eq_some_iff unique).mp found
    obtain ⟨m, inside, bareSame⟩ := counterpart alike member
    refine (lastNodeOfPin_eq_some_iff (alike_unique alike unique)).mpr
      ⟨m, inside, ?_, (same_id bareSame).trans same⟩
    rwa [Node.hasPin, same_pins bareSame]
  funext pin
  exact Option.ext fun id => ⟨forward alike unique pin id,
    forward (alike_symm alike) (alike_unique alike unique) pin id⟩

theorem alike_edges (alike : Alike g h) (unique : UniqueIds g) : g.edges.Perm h.edges := by
  rw [edges, edges, alike_lastNodeOfPin alike unique]
  exact alike.links.filterMap _

/-- The node with an identity has the same inputs in both graphs. -/
theorem alike_find (alike : Alike g h) (unique : UniqueIds g) (id : NodeId) :
    (g.nodes.reverse.find? fun n => n.id == id).map bare =
      (h.nodes.reverse.find? fun n => n.id == id).map bare := by
  cases found : g.nodes.reverse.find? fun n => n.id == id with
  | some n =>
    have member : n ∈ g.nodes := by simpa using List.mem_of_find?_eq_some found
    have same : n.id = id := by simpa using List.find?_some found
    obtain ⟨m, inside, bareSame⟩ := counterpart alike member
    have also : m.id = id := (same_id bareSame).trans same
    rw [find_unique (x := m) (by simpa using inside) (by simpa using also) fun y inY passes => ?_]
    · exact congrArg some bareSame.symm
    · exact node_eq_of_id (alike_unique alike unique) (by simpa using inY) inside
        ((by simpa using passes : y.id = id).trans also.symm)
  | none =>
    cases other : h.nodes.reverse.find? fun n => n.id == id with
    | none => rfl
    | some m =>
      obtain ⟨n, inside, bareSame⟩ := counterpart (alike_symm alike)
        (by simpa using List.mem_of_find?_eq_some other : m ∈ h.nodes)
      have same : m.id = id := by simpa using List.find?_some other
      have missing := List.find?_eq_none.mp found n (by simpa using inside)
      exact absurd ((same_id bareSame).trans same) (by simpa using missing)

theorem alike_feedersOf (alike : Alike g h) (unique : UniqueIds g) (id : NodeId) :
    g.feedersOf g.edges id = h.feedersOf h.edges id := by
  have sorted (p : Pin) : sortIds ((g.edges.filter fun e => e.targetPin == p.id).map Edge.source) =
      sortIds ((h.edges.filter fun e => e.targetPin == p.id).map Edge.source) :=
    sortIds_perm (((alike_edges alike unique).filter _).map _)
  have found := alike_find alike unique id
  rw [feedersOf, feedersOf]
  cases left : g.nodes.reverse.find? fun n => n.id == id <;>
    cases right : h.nodes.reverse.find? fun n => n.id == id <;> simp only [left, right] at found
  · rfl
  · cases found
  · cases found
  · have inputs := congrArg Node.inputs (Option.some.inj found)
    simp only [bare] at inputs
    simp only [inputs, sorted]

theorem alike_dependencies (alike : Alike g h) (unique : UniqueIds g) :
    g.dependencies = h.dependencies := by
  have nodesOf : g.variableNodes = h.variableNodes := by
    funext name
    exact sortIds_perm (filter_map_perm (fun _ => rfl) (fun _ => rfl) alike)
  have setters : g.leastSetter? = h.leastSetter? := by
    funext name
    exact congrArg List.head? (sortIds_perm (filter_map_perm (fun _ => rfl) (fun _ => rfl) alike))
  have feeders : g.feedersOf g.edges = h.feedersOf h.edges :=
    funext fun id => alike_feedersOf alike unique id
  have consumers : consumersOf g.edges = consumersOf h.edges := by
    funext id
    exact congrArg keepFirst (sortIds_perm (((alike_edges alike unique).filter _).map _))
  simp only [dependencies, alike_variableOf alike unique, nodesOf, setters, feeders, consumers]

/-- The walk depends on the nodes and links, not on their order. -/
theorem alike_walk (alike : Alike g h) (unique : UniqueIds g) : g.walk = h.walk := by
  have sinks : g.sinks = h.sinks := sortIds_perm (filter_map_perm (fun _ => rfl) (fun _ => rfl) alike)
  rw [walk, walk, sinks, alike_dependencies alike unique, alike_length alike]

/-! ## Places do not depend on the order -/

/-- The indices in use are the same, and so are their ranks. -/
theorem alike_ranks (alike : Alike g h) (index? : NodeId → Option Nat) :
    ranksOf index? g.nodes = ranksOf index? h.nodes := by
  have forward {g h : SubGraph} (alike : Alike g h) (i : Nat) (used : i ∈ ranksOf index? g.nodes) :
      i ∈ ranksOf index? h.nodes := by
    obtain ⟨n, member, known⟩ := mem_ranksOf.mp used
    obtain ⟨m, inside, same⟩ := counterpart alike member
    exact mem_ranksOf.mpr ⟨m, inside, (same_id same).symm ▸ known⟩
  have left := ranksOf_increasing index? g.nodes
  have right := ranksOf_increasing index? h.nodes
  have perm := (List.perm_ext_iff_of_nodup (left.imp Nat.ne_of_lt) (right.imp Nat.ne_of_lt)).mpr fun i =>
    ⟨forward alike i, forward (alike_symm alike) i⟩
  exact perm.eq_of_pairwise (fun i j _ _ less greater => absurd less (Nat.lt_asymm greater)) left right

/-- The places that nodes had before count for nothing either. -/
theorem reshuffled_ordered (reshuffled : Reshuffled g h) (unique : UniqueIds g) :
    g.inEvaluationOrder.nodes.Perm h.inEvaluationOrder.nodes := by
  have alike := alike_of_reshuffled reshuffled
  have ordered (k : SubGraph) : k.inEvaluationOrder.nodes.Perm
      ((k.nodes.map unplaced).map (ranked k.walk.index? (ranksOf k.walk.index? k.nodes))) := by
    rw [inEvaluationOrder, applyIndices_eq, List.map_map]
    exact (List.mergeSort_perm _ _).map _
  have same := reshuffled.nodes.map (ranked g.walk.index? (ranksOf g.walk.index? g.nodes))
  have other := ordered h
  rw [← alike_walk alike unique, ← alike_ranks alike] at other
  exact (ordered g).trans (same.trans other.symm)

/-- Graphs in which the same nodes and links are listed in any two orders are put into the same order:
they end up with the same nodes, each of which has one place in both. -/
theorem places_whatever_listing (unique : UniqueIds g) (nodes : g.nodes.Perm h.nodes) (links : g.links.Perm h.links) :
    g.inEvaluationOrder.nodes.Perm h.inEvaluationOrder.nodes ∧
      ∀ a ∈ g.inEvaluationOrder.nodes, ∀ b ∈ h.inEvaluationOrder.nodes, a.id = b.id → a.sortIndex = b.sortIndex := by
  have perm := reshuffled_ordered ⟨nodes.map unplaced, links⟩ unique
  refine ⟨perm, fun a left b right same => ?_⟩
  have ordered := alike_unique (alike_inEvaluationOrder g) unique
  rw [node_eq_of_id ordered left (perm.mem_iff.mpr right) same]

/-- A mixer that feeds both ends of a graph and one of the two setters of the variable that it reads. One of
its inputs is fed twice. -/
def forked : SubGraph where
  nodes := [
    ({ Node.ofName "Output" ⟨0, 0, 0⟩ with inputs := [.input "Pose" .pose] }.withFreshIds 10).1,
    ({ Node.ofName "Event" ⟨0, 0, 0⟩ with inputs := [.input "Trigger" .flow] }.withFreshIds 20).1,
    ({ Node.ofName "Mix" ⟨0, 0, 0⟩ with
      inputs := [.input "Gain" .float, .input "Signal" .float], outputs := [.output "Mixed" .float] }.withFreshIds 30).1,
    ({ Node.ofName "Gain" ⟨0, 0, 0⟩ with
      category := localVariableCategory, inputs := [.input "Gain" .float] }.withFreshIds 40).1,
    ({ Node.ofName "Gain" ⟨0, 0, 0⟩ with
      category := localVariableCategory, inputs := [.input "Gain" .float] }.withFreshIds 50).1,
    ({ Node.ofName "Gain" ⟨0, 0, 0⟩ with
      category := localVariableCategory, outputs := [.output "Gain" .float] }.withFreshIds 60).1,
    ({ Node.ofName "Left" ⟨0, 0, 0⟩ with outputs := [.output "Out" .float] }.withFreshIds 70).1,
    ({ Node.ofName "Right" ⟨0, 0, 0⟩ with outputs := [.output "Out" .float] }.withFreshIds 80).1]
  links := [⟨⟨91⟩, ⟨33⟩, ⟨11⟩, ⟨0, 0, 0⟩⟩, ⟨⟨92⟩, ⟨33⟩, ⟨21⟩, ⟨0, 0, 0⟩⟩, ⟨⟨93⟩, ⟨61⟩, ⟨31⟩, ⟨0, 0, 0⟩⟩,
    ⟨⟨94⟩, ⟨81⟩, ⟨32⟩, ⟨0, 0, 0⟩⟩, ⟨⟨95⟩, ⟨71⟩, ⟨32⟩, ⟨0, 0, 0⟩⟩, ⟨⟨96⟩, ⟨33⟩, ⟨41⟩, ⟨0, 0, 0⟩⟩,
    ⟨⟨97⟩, ⟨81⟩, ⟨51⟩, ⟨0, 0, 0⟩⟩]

/-- The same graph with its nodes and links listed backwards. -/
def backwards (g : SubGraph) : SubGraph := ⟨g.nodes.reverse, g.links.reverse⟩

/-- Listed backwards, each node has the same place, although the nodes of the variable, which share one,
are then listed the other way round. -/
theorem forked_backwards : forked.inEvaluationOrder.nodes.Perm (backwards forked).inEvaluationOrder.nodes ∧
    forked.inEvaluationOrder.nodes.map (fun n => (n.id.value, n.sortIndex)) =
      [(40, 0), (50, 0), (60, 0), (70, 1), (80, 2), (30, 3), (10, 4), (20, 5)] ∧
    (backwards forked).inEvaluationOrder.nodes.map (fun n => (n.id.value, n.sortIndex)) =
      [(60, 0), (50, 0), (40, 0), (70, 1), (80, 2), (30, 3), (10, 4), (20, 5)] := by
  have unique : UniqueIds forked := by decide
  have nodes : forked.nodes.Perm (backwards forked).nodes := (List.reverse_perm _).symm
  have links : forked.links.Perm (backwards forked).links := (List.reverse_perm _).symm
  refine ⟨(places_whatever_listing unique nodes links).1, ?_, ?_⟩ <;>
  · rw [orderByInsertion.2]
    decide +kernel

/-! ## Ordering twice -/

theorem applyIndices_idem (index? : NodeId → Option Nat) (nodes : List Node) :
    applyIndices index? (applyIndices index? nodes) = applyIndices index? nodes := by
  have settled := List.mergeSort_of_pairwise (applyIndices_ordered index? nodes)
  have ranks : ranksOf index? (applyIndices index? nodes) = ranksOf index? nodes := by
    rw [ranksOf, settled, applyIndices_eq, List.filterMap_map]
    rfl
  rw [applyIndices_eq index? (applyIndices index? nodes), settled, ranks, applyIndices_eq, List.map_map]
  rfl

theorem sortLinks_idem (nodes : List Node) (links : List Link) :
    sortLinks nodes (sortLinks nodes links) = sortLinks nodes links := by
  rw [sortLinks_eq, sortLinks_eq]
  exact List.mergeSort_of_pairwise (List.pairwise_mergeSort byEnds_trans byEnds_total links)

theorem inEvaluationOrder_idem (unique : UniqueIds g) :
    g.inEvaluationOrder.inEvaluationOrder = g.inEvaluationOrder := by
  have walks : g.inEvaluationOrder.walk = g.walk := (alike_walk (alike_inEvaluationOrder g) unique).symm
  rw [inEvaluationOrder, walks]
  simp only [inEvaluationOrder, applyIndices_idem, sortLinks_idem]

theorem entryFirst_idem (g : SubGraph) : g.entryFirst.entryFirst = g.entryFirst := by
  have marks (n : Node) (member : n ∈ g.entryFirst.nodes) :
      { n with sortIndex := if n.isEntry then 0 else 1 } = n := by
    simp only [entryFirst, List.mem_mergeSort, List.mem_map] at member
    obtain ⟨k, -, rfl⟩ := member
    rfl
  have sorted : g.entryFirst.nodes.Pairwise fun a b => decide (a.sortIndex ≤ b.sortIndex) = true := by
    apply List.pairwise_mergeSort
    · simp only [decide_eq_true_eq]
      exact fun _ _ _ first second => Int.le_trans first second
    · simp only [Bool.or_eq_true, decide_eq_true_eq]
      exact fun a b => Int.le_total _ _
  rw [entryFirst, List.map_congr_left marks, List.map_id', List.mergeSort_of_pairwise sorted]

end PoseGraph.Rearrangement
