import PoseGraph.Editor.Properties
import PoseGraph.Proofs.NodeEdits

/-! Which nodes lie in which graph. Graphs nest through the nodes that own them, so
that all there is to the nesting is where each node lies and of what type it is.
Most edits leave that as it is. -/
namespace PoseGraph.Nesting
open AssetOrder Editor EditorCoherence GraphDependencies LinkEdits LoweringSemantics NodeCraft NodeEdits Rearrangement

variable {a b c : Asset} {e : Editor} {g h : SubGraph} {n : Node} {owner id : NodeId} {type : NodeType}
variable {change : SubGraph → SubGraph}

/-- A node of a type lies in the graph of an owner. -/
def Holds (a : Asset) (owner id : NodeId) (type : NodeType) : Prop :=
  ∃ g, a.graph? owner = some g ∧ ∃ n ∈ g.nodes, n.id = id ∧ n.type = type

/-- The owner of the second graph lies in the first one. -/
def Nests (a : Asset) (outer inner : NodeId) : Prop := Holds a outer inner .subroutine

theorem nests_of_member (held : a.graph? owner = some g) (member : n ∈ g.nodes) (owns : n.isSubroutine = true) :
    Nests a owner n.id :=
  ⟨g, held, n, member, rfl, beq_iff_eq.mp owns⟩

theorem holds_hasGraph (holds : Holds a owner id type) : a.hasGraph owner = true := by
  obtain ⟨g, held, -⟩ := holds
  exact hasGraph_iff.mpr ⟨g, held⟩

/-- The same nodes of both graphs own graphs. -/
def SameInner (g h : SubGraph) : Prop :=
  ∀ id, (∃ m ∈ h.nodes, m.id = id ∧ m.type = .subroutine) ↔ ∃ n ∈ g.nodes, n.id = id ∧ n.type = .subroutine

/-- Nodes that keep identity and type go on owning graphs or not. -/
theorem sameInner_of_each (each : List.Forall₂ (fun n m => m.id = n.id ∧ m.type = n.type) g.nodes h.nodes) :
    SameInner g h := by
  intro id
  constructor
  · rintro ⟨m, inside, rfl, owns⟩
    obtain ⟨n, member, same⟩ := origin_of_mem each inside
    exact ⟨n, member, same.1.symm, same.2.symm.trans owns⟩
  · rintro ⟨n, member, rfl, owns⟩
    obtain ⟨m, inside, same⟩ := origin_of_mem each.flip member
    exact ⟨m, inside, same.1, same.2.trans owns⟩

theorem sameInner_modifyNode {f : Node → Node} (keeps : ∀ n, (f n).id = n.id ∧ (f n).type = n.type) (g : SubGraph)
    (id : NodeId) : SameInner g (g.modifyNode id f) :=
  sameInner_of_each (forall₂_modifyFirst (fun _ => ⟨rfl, rfl⟩) fun n _ _ => keeps n)

theorem sameInner_mapNodes {f : Node → Node} (keeps : ∀ n, (f n).id = n.id ∧ (f n).type = n.type) (g : SubGraph)
    (ids : List NodeId) : SameInner g (g.mapNodes ids f) := by
  refine sameInner_of_each (each_mapped fun n _ => ?_)
  split
  · exact keeps n
  · exact ⟨rfl, rfl⟩

theorem sameInner_trans {k : SubGraph} (first : SameInner g h) (second : SameInner h k) : SameInner g k :=
  fun id => (second id).trans (first id)

theorem sameInner_revised (revised : Revised g h) : SameInner g h :=
  sameInner_of_each (revised.nodes.imp fun _ _ edited => ⟨edited.id, edited.type⟩)

theorem sameInner_alike (alike : Alike g h) : SameInner g h := by
  have forward {g h : SubGraph} (alike : Alike g h) (id : NodeId)
      (owns : ∃ n ∈ g.nodes, n.id = id ∧ n.type = .subroutine) : ∃ m ∈ h.nodes, m.id = id ∧ m.type = .subroutine := by
    obtain ⟨n, member, rfl, type⟩ := owns
    obtain ⟨m, inside, same⟩ := counterpart alike member
    exact ⟨m, inside, same_id same, (same_blind (f := Node.type) (fun _ => rfl) same).trans type⟩
  exact fun id => ⟨forward (alike_symm alike) id, forward alike id⟩

/-- The same owners have graphs in both assets, and these nest in the same way. -/
structure SameShape (a b : Asset) : Prop where
  owners : ∀ owner, b.hasGraph owner = a.hasGraph owner
  nests : ∀ outer inner, Nests b outer inner ↔ Nests a outer inner

theorem sameShape_refl (a : Asset) : SameShape a a := ⟨fun _ => rfl, fun _ _ => Iff.rfl⟩

theorem sameShape_trans (first : SameShape a b) (second : SameShape b c) : SameShape a c :=
  ⟨fun owner => (second.owners owner).trans (first.owners owner),
    fun outer inner => (second.nests outer inner).trans (first.nests outer inner)⟩

theorem sameShape_of_graphs (graphs : b.graphs = a.graphs) : SameShape a b := by
  refine ⟨fun owner => ?_, fun outer inner => ?_⟩
  · rw [Asset.hasGraph, Asset.hasGraph, graphs]
  · rw [Nests, Nests, Holds, Holds, Asset.graph?, Asset.graph?, graphs]

theorem hasGraph_modifyGraph (a : Asset) (owner : NodeId) (change : SubGraph → SubGraph) (id : NodeId) :
    (a.modifyGraph owner change).hasGraph id = a.hasGraph id := by
  rw [Bool.eq_iff_iff, hasGraph_iff, hasGraph_iff, graph_modifyGraph]
  split
  · simp
  · rfl

/-- Changing one graph so that the same nodes own graphs. -/
theorem sameShape_modifyGraph (same : ∀ g, a.graph? owner = some g → SameInner g (change g)) :
    SameShape a (a.modifyGraph owner change) := by
  refine ⟨hasGraph_modifyGraph a owner change, fun outer inner => ?_⟩
  rw [Nests, Nests, Holds, Holds, graph_modifyGraph]
  split
  · rename_i here
    cases held : a.graph? outer with
    | none => simp
    | some g => simpa using same g (here ▸ held) inner
  · rfl

theorem sameShape_revise (revised : ∀ g, a.graph? owner = some g → Revised g (change g)) :
    SameShape a (a.modifyGraph owner change) :=
  sameShape_modifyGraph fun g held => sameInner_revised (revised g held)

theorem sameShape_foldl {α : Type} {step : Editor → α → Editor} (each : ∀ e x, SameShape e.asset (step e x).asset)
    (xs : List α) (e : Editor) : SameShape e.asset (xs.foldl step e).asset := by
  induction xs generalizing e with
  | nil => exact sameShape_refl e.asset
  | cons x xs ih => exact sameShape_trans (each e x) (ih _)

theorem sameShape_rearranged (related : Rearranged a b) : SameShape a b := by
  have owners {a b : Asset} (related : Rearranged a b) (owner : NodeId) (present : a.hasGraph owner = true) :
      b.hasGraph owner = true := by
    obtain ⟨g, held⟩ := hasGraph_iff.mp present
    obtain ⟨h, found, -⟩ := rearranged_graph related held
    exact hasGraph_iff.mpr ⟨h, found⟩
  have nests {a b : Asset} (related : Rearranged a b) (outer inner : NodeId) (nests : Nests a outer inner) :
      Nests b outer inner := by
    obtain ⟨g, held, rest⟩ := nests
    obtain ⟨h, found, alike⟩ := rearranged_graph related held
    exact ⟨h, found, (sameInner_alike alike inner).mpr rest⟩
  exact ⟨fun owner => Bool.eq_iff_iff.mpr ⟨owners (rearranged_symm related) owner, owners related owner⟩,
    fun outer inner => ⟨nests (rearranged_symm related) outer inner, nests related outer inner⟩⟩

/-- An empty graph holds nothing. -/
theorem holds_ensureGraph (a : Asset) (owner place id : NodeId) (type : NodeType) :
    Holds (a.ensureGraph owner) place id type ↔ Holds a place id type := by
  rw [Holds, Holds, graph_ensureGraph]
  split
  · rename_i here
    cases held : a.graph? owner <;> simp [here, held, SubGraph.empty]
  · rfl

theorem sameShape_ensureEntryIn (e : Editor) (owner : NodeId) :
    SameShape e.asset (e.ensureEntryIn owner).asset :=
  sameShape_revise fun g _ => revised_ensureEntry g

theorem sameShape_ensureEntries (e : Editor) : SameShape e.asset e.ensureEntries.asset :=
  sameShape_foldl sameShape_ensureEntryIn _ e

/-! ## Depth -/

/-- No graph lies inside itself. -/
def Acyclic (a : Asset) : Prop := ∀ owner, ¬Relation.TransGen (Nests a) owner owner

/-- Graphs do not lie inside themselves if their owners can be ranked so that inner
ones come later. -/
theorem acyclic_of_ranks (rank : NodeId → Nat) (ascends : ∀ outer inner, Nests a outer inner → rank outer < rank inner) :
    Acyclic a := by
  intro owner cycle
  have climbs : ∀ {x y}, Relation.TransGen (Nests a) x y → rank x < rank y := by
    intro x y way
    induction way with
    | single step => exact ascends _ _ step
    | tail _ last ih => exact Nat.lt_trans ih (ascends _ _ last)
  exact absurd (climbs cycle) (Nat.lt_irrefl _)

/-- It can be computed that nodes that own graphs come after those around them. -/
theorem acyclic_of_ascending (ascends : (a.graphs.entries.all fun entry =>
    entry.2.nodes.all fun n => !n.isSubroutine || entry.1.value < n.id.value) = true) : Acyclic a := by
  refine acyclic_of_ranks NodeId.value fun outer inner nests => ?_
  obtain ⟨g, held, n, member, rfl, owns⟩ := nests
  have passes := List.all_eq_true.mp (List.all_eq_true.mp ascends _ (get_eq_some_iff.mp held)) n member
  simpa [Node.isSubroutine, owns] using passes

theorem acyclic_of_nests (acyclic : Acyclic a) (nests : ∀ outer inner, Nests b outer inner → Nests a outer inner) :
    Acyclic b :=
  fun owner cycle => acyclic owner (Relation.TransGen.mono nests _ _ cycle)

/-- The owners around a graph. They differ from each other, and their graphs nest. -/
structure Around (a : Asset) (owner : NodeId) (outer : List NodeId) : Prop where
  distinct : outer.Nodup
  owners : ∀ id ∈ outer, a.hasGraph id = true
  nests : ∀ id ∈ outer, Relation.TransGen (Nests a) id owner

theorem around_top (a : Asset) (owner : NodeId) : Around a owner [] :=
  ⟨List.nodup_nil, List.forall_mem_nil _, List.forall_mem_nil _⟩

theorem around_inner {outer : List NodeId} {inner : NodeId} (acyclic : Acyclic a) (around : Around a owner outer)
    (nests : Nests a owner inner) : Around a inner (owner :: outer) := by
  refine ⟨List.nodup_cons.mpr ⟨fun inside => acyclic owner (around.nests owner inside), around.distinct⟩, ?_, ?_⟩
  · exact List.forall_mem_cons.mpr ⟨holds_hasGraph nests, around.owners⟩
  · exact List.forall_mem_cons.mpr ⟨.single nests, fun id inside => (around.nests id inside).tail nests⟩

/-- Graphs nest no deeper than there are graphs. -/
theorem around_length {outer : List NodeId} (around : Around a owner outer) : outer.length ≤ a.graphs.size := by
  have listed : outer ⊆ a.graphs.keys := by
    intro id inside
    obtain ⟨g, held⟩ := hasGraph_iff.mp (around.owners id inside)
    exact List.mem_map_of_mem (get_eq_some_iff.mp held)
  have short := (List.subperm_of_subset around.distinct listed).length_le
  rwa [Table.keys, List.length_map] at short

/-! ## Where nodes lie -/

theorem holds_of_member (held : a.graph? owner = some g) (member : n ∈ g.nodes) : Holds a owner n.id n.type :=
  ⟨g, held, n, member, rfl, rfl⟩

theorem findNode_isSome_iff : (a.findNode? id).isSome = true ↔ ∃ owner type, Holds a owner id type := by
  rw [Option.isSome_iff_exists]
  constructor
  · rintro ⟨n, found⟩
    obtain ⟨member, rfl⟩ := findNode_spec found
    obtain ⟨owner, g, held, inside⟩ := mem_allNodes.mp member
    exact ⟨owner, n.type, holds_of_member held inside⟩
  · rintro ⟨owner, type, g, held, n, inside, rfl, -⟩
    exact findNode_isSome (mem_allNodes.mpr ⟨owner, g, held, inside⟩)

/-- A node lies in one graph only. -/
theorem holds_unique {x y : NodeId} {s t : NodeType} (identified : Identified a) (first : Holds a x id s)
    (second : Holds a y id t) : x = y ∧ s = t := by
  obtain ⟨g, heldG, n, inG, rfl, rfl⟩ := first
  obtain ⟨h, heldH, m, inH, same, rfl⟩ := second
  have equal : n = m := List.inj_on_of_nodup_map identified.nodes (mem_allNodes.mpr ⟨x, g, heldG, inG⟩)
    (mem_allNodes.mpr ⟨y, h, heldH, inH⟩) same.symm
  subst equal
  refine ⟨?_, rfl⟩
  have distinct := identified.nodes
  rw [allNodes, Table.values, List.flatMap_map, List.map_flatMap, List.nodup_flatMap] at distinct
  have symmetric : Std.Symm (Function.onFun List.Disjoint fun entry : NodeId × SubGraph => entry.2.nodes.map Node.id) :=
    ⟨fun _ _ apart => List.disjoint_symm apart⟩
  by_contra differ
  have apart := distinct.2.forall (get_eq_some_iff.mp heldG) (get_eq_some_iff.mp heldH)
    fun equal => differ (congrArg Prod.fst equal)
  exact apart (List.mem_map_of_mem inG) (List.mem_map_of_mem inH)

/-! ## Collecting orphans -/

/-- The second asset is the first one without the graphs that no node owns any more. -/
structure Collected (a b : Asset) : Prop where
  graphs : ∀ owner g, b.graph? owner = some g → a.graph? owner = some g
  kept : ∀ owner, a.hasGraph owner = true → (owner = .root ∨ ∃ outer type, Holds b outer owner type) →
    b.hasGraph owner = true
  owned : ∀ owner, b.hasGraph owner = true → owner = .root ∨ ∃ outer type, Holds b outer owner type

theorem collected_holds (collected : Collected a b) (holds : Holds b owner id type) : Holds a owner id type := by
  obtain ⟨g, held, rest⟩ := holds
  exact ⟨g, collected.graphs owner g held, rest⟩

theorem passes_iff : (owner.isRoot || (a.findNode? owner).isSome) = true ↔
    owner = .root ∨ ∃ outer type, Holds a outer owner type := by
  rw [Bool.or_eq_true, findNode_isSome_iff, NodeId.isRoot, beq_iff_eq]

theorem kept_dropOrphans (present : a.hasGraph owner = true)
    (owned : owner = .root ∨ ∃ outer type, Holds a outer owner type) : a.dropOrphans.hasGraph owner = true := by
  obtain ⟨g, held⟩ := hasGraph_iff.mp present
  refine hasGraph_iff.mpr ⟨g, get_eq_some_iff.mpr (List.mem_filter.mpr ⟨get_eq_some_iff.mp held, ?_⟩)⟩
  exact passes_iff.mpr owned

/-- Each round but the last drops a graph, so that none is left that no node owns. -/
theorem collected_go {rounds : Nat} (enough : a.graphs.size ≤ rounds) : Collected a (Asset.collectOrphans.go rounds a) := by
  induction rounds generalizing a with
  | zero =>
    have none : a.graphs.entries = [] := List.eq_nil_of_length_eq_zero (Nat.le_zero.mp enough)
    refine ⟨fun _ _ held => held, fun _ present _ => present, fun owner present => ?_⟩
    simp [Asset.collectOrphans.go, Asset.hasGraph, Table.contains, none] at present
  | succ rounds ih =>
    rw [Asset.collectOrphans.go]
    split
    · rename_i same
      refine ⟨fun _ _ held => held, fun _ present _ => present, fun owner present => ?_⟩
      obtain ⟨g, held⟩ := hasGraph_iff.mp present
      exact passes_iff.mp (List.length_filter_eq_length_iff.mp same _ (get_eq_some_iff.mp held))
    · rename_i fewer
      have shorter : a.dropOrphans.graphs.size ≤ a.graphs.size := List.length_filter_le _ _
      have collected := ih (a := a.dropOrphans) (by omega)
      refine ⟨fun owner g held => graph_dropOrphans (collected.graphs owner g held), fun owner present owned => ?_,
        collected.owned⟩
      refine collected.kept owner (kept_dropOrphans present (owned.imp_right ?_)) owned
      rintro ⟨outer, type, holds⟩
      obtain ⟨g, held, rest⟩ := collected_holds collected holds
      exact ⟨outer, type, g, graph_dropOrphans held, rest⟩

theorem collected_collectOrphans (a : Asset) : Collected a a.collectOrphans := collected_go (Nat.le_refl _)

end PoseGraph.Nesting
