import PoseGraph.Proofs.NavigationRuns

/-! The order of identities keeps graphs from lying inside each other. A node is younger
than the owner of the graph in which it lies, wherever that owner has gone and whatever
has taken its place: identities are drawn in increasing order, and no edit makes a graph
for an owner that is not drawn yet. So whoever follows the nodes down through the graphs
comes to an end, after as many steps as there are graphs. -/
namespace PoseGraph.OwnershipOrder
open AssetOrder EditOutcomes EditRuns Editor EditorCoherence EditorSoundness LinkEdits Navigation NavigationRuns Nesting NodeCraft
  NodeEdits LoweringSemantics PropertyEdits ReachableEditors SheddingEdits StateEdits

variable {a b : Asset} {e f k : Editor} {g h : SubGraph} {n m quick state : Node} {owner id x y : NodeId}
variable {change : SubGraph → SubGraph} {edit : Edit} {category name : String} {next : Nat}

/-! ## What lies where -/

/-- The graph of an owner contains a node. -/
def Contains (a : Asset) (owner id : NodeId) : Prop := ∃ g, a.graph? owner = some g ∧ ∃ n ∈ g.nodes, n.id = id

theorem contains_iff_holds : Contains a owner id ↔ ∃ type, Holds a owner id type := by
  constructor
  · rintro ⟨g, held, n, member, rfl⟩
    exact ⟨n.type, holds_of_member held member⟩
  · rintro ⟨type, g, held, n, member, rfl, -⟩
    exact ⟨g, held, n, member, rfl⟩

/-- Nodes are younger than the owners of their graphs, and all that owns graphs, lies in
them or is on the path has been drawn. -/
structure Rising (e : Editor) : Prop where
  positive : 0 < e.nextId
  ascends : ∀ x y, Contains e.asset x y → x.value < y.value
  drawn : ∀ x y, Contains e.asset x y → y.value < e.nextId
  owners : ∀ x, e.asset.hasGraph x = true → x.value < e.nextId
  path : ∀ id ∈ e.path, id.value < e.nextId

/-- The second editor has no graph and no node that the first one lacks. -/
structure Recedes (e f : Editor) : Prop where
  owners : ∀ x, f.asset.hasGraph x = true → e.asset.hasGraph x = true
  contains : ∀ x y, Contains f.asset x y → Contains e.asset x y
  path : f.path = e.path
  draws : e.nextId ≤ f.nextId

theorem recedes_refl (e : Editor) : Recedes e e := ⟨fun _ present => present, fun _ _ inside => inside, rfl, Nat.le_refl _⟩

theorem recedes_trans (first : Recedes e f) (second : Recedes f k) : Recedes e k where
  owners := fun x present => first.owners x (second.owners x present)
  contains := fun x y inside => first.contains x y (second.contains x y inside)
  path := second.path.trans first.path
  draws := Nat.le_trans first.draws second.draws

theorem recedes_of_graphs (graphs : f.asset.graphs = e.asset.graphs) (path : f.path = e.path)
    (draws : e.nextId ≤ f.nextId) : Recedes e f := by
  refine ⟨fun x present => ?_, fun x y inside => ?_, path, draws⟩
  · rwa [Asset.hasGraph, graphs] at present
  · rwa [Contains, Asset.graph?, graphs] at inside

theorem recedes_invalidate (e : Editor) : Recedes e e.invalidate := recedes_of_graphs rfl rfl (Nat.le_refl _)

/-- What keeps the shape of the asset and sheds nodes at most. -/
theorem recedes_of_abides (abides : Abides e f) (sheds : Sheds e f) : Recedes e f where
  owners := fun x present => (abides.shape.owners x).symm.trans present
  contains := fun x y inside => by
    obtain ⟨type, holds⟩ := contains_iff_holds.mp inside
    exact contains_iff_holds.mpr ⟨type, holds_sheds sheds holds⟩
  path := abides.path
  draws := sheds.draws

theorem recedes_modifyGraph (each : ∀ g, e.asset.graph? owner = some g → ∀ m ∈ (change g).nodes, ∃ n ∈ g.nodes, n.id = m.id) :
    Recedes e (e.modifyGraph owner change) := by
  refine ⟨fun x present => (hasGraph_modifyGraph e.asset owner change x).symm.trans present, ?_, rfl, Nat.le_refl _⟩
  rintro x y ⟨h, found, m, inside, rfl⟩
  change (e.asset.modifyGraph owner change).graph? x = some h at found
  rw [graph_modifyGraph] at found
  split at found
  · rename_i here
    subst here
    obtain ⟨g, held, rfl⟩ := Option.map_eq_some_iff.mp found
    obtain ⟨n, member, same⟩ := each g held m inside
    exact ⟨g, held, n, member, same⟩
  · exact ⟨h, found, m, inside, rfl⟩

theorem recedes_revise (revised : ∀ g, e.asset.graph? owner = some g → Revised g (change g)) :
    Recedes e (e.modifyGraph owner change) := by
  refine recedes_modifyGraph fun g held m inside => ?_
  obtain ⟨n, member, edited⟩ := origin_of_mem (revised g held).nodes inside
  exact ⟨n, member, edited.id.symm⟩

theorem recedes_foldl {α : Type} {step : Editor → α → Editor} (each : ∀ e x, Recedes e (step e x)) (xs : List α) (e : Editor) :
    Recedes e (xs.foldl step e) := by
  induction xs generalizing e with
  | nil => exact recedes_refl e
  | cons x xs ih => exact recedes_trans (each e x) (ih _)

/-- Where nothing is new, nothing is out of order. -/
theorem rising_recedes (rising : Rising e) (recedes : Recedes e f) : Rising f where
  positive := Nat.lt_of_lt_of_le rising.positive recedes.draws
  ascends := fun x y inside => rising.ascends x y (recedes.contains x y inside)
  drawn := fun x y inside => Nat.lt_of_lt_of_le (rising.drawn x y (recedes.contains x y inside)) recedes.draws
  owners := fun x present => Nat.lt_of_lt_of_le (rising.owners x (recedes.owners x present)) recedes.draws
  path := fun id inside => Nat.lt_of_lt_of_le (rising.path id (recedes.path ▸ inside)) recedes.draws

theorem active_drawn (rising : Rising e) : e.activeOwner.value < e.nextId := by
  rw [activeOwner]
  cases last : e.path.getLast? with
  | none => exact rising.positive
  | some id => exact rising.path id (List.mem_of_getLast? last)

/-! ## Edits that make no node -/

theorem recedes_ensureEntryOfMachine (e : Editor) (owner : NodeId) : Recedes e (e.ensureEntryOfMachine owner) :=
  recedes_of_abides (abides_ensureEntryOfMachine e owner) (sheds_ensureEntryOfMachine e owner)

theorem recedes_removeLinksIn (e : Editor) (owner : NodeId) (ids : List LinkId) : Recedes e (e.removeLinksIn owner ids).1 :=
  recedes_of_abides (abides_removeLinksIn e owner ids) (sheds_removeLinksIn e owner ids)

theorem recedes_createLinkIn (e : Editor) (owner : NodeId) (start finish : PinId) :
    Recedes e (e.createLinkIn owner start finish).1 := by
  have displaced (e : Editor) (pin : PinId) (kept : LinkId) : Recedes e (e.displaceLinks owner pin kept) :=
    recedes_of_abides (abides_displaceLinks e owner pin kept) (sheds_displaceLinks e owner pin kept)
  rw [createLinkIn]
  split
  · exact recedes_refl e
  · refine recedes_trans (recedes_trans ?_ (displaced _ _ _)) (recedes_invalidate _)
    refine recedes_trans (f := { e with nextId := e.nextId + 1 }) (recedes_of_graphs rfl rfl (Nat.le_succ _)) ?_
    refine recedes_modifyGraph fun g _ m inside => ?_
    obtain ⟨n, member, edited⟩ := origin_of_mem (revised_withValue g _ .void).nodes inside
    exact ⟨n, member, edited.id.symm⟩

theorem recedes_dropNodes (e : Editor) (owner : NodeId) (doomed : List NodeId) : Recedes e (e.dropNodes owner doomed) := by
  refine recedes_trans (recedes_foldl (fun e id => ?_) doomed e) (recedes_modifyGraph fun g _ m inside => ?_)
  · exact recedes_of_abides (abides_removeDeadLinks e owner id) (sheds_removeDeadLinks e owner id)
  · exact ⟨m, List.mem_of_mem_filter inside, rfl⟩

theorem recedes_collectOrphans (e : Editor) : Recedes e (e.modifyAsset (·.collectOrphans)) := by
  have collected := collected_collectOrphans e.asset
  refine ⟨fun x present => ?_, fun x y inside => ?_, rfl, Nat.le_refl _⟩
  · obtain ⟨g, held⟩ := hasGraph_iff.mp present
    exact hasGraph_iff.mpr ⟨g, collected.graphs x g held⟩
  · obtain ⟨g, held, rest⟩ := inside
    exact ⟨g, collected.graphs x g held, rest⟩

theorem recedes_removeNodesIn (e : Editor) (owner : NodeId) (ids : List NodeId) : Recedes e (e.removeNodesIn owner ids).1 := by
  have drop (f : Editor) (doomed : List NodeId) (before : Recedes e f) : Recedes e (f.dropNodes owner doomed).invalidate :=
    recedes_trans before (recedes_trans (recedes_dropNodes f owner doomed) (recedes_invalidate _))
  rcases removeNodesIn_ends drop (recedes_refl e) ids with same | ⟨f, recedes, same⟩
  · rw [same]
    exact recedes_refl e
  · rw [same]
    exact recedes_trans recedes (recedes_trans (recedes_collectOrphans f) (recedes_ensureEntryOfMachine _ owner))

section Properties
variable {kind : PropertyKind} {old new : String} {v : Value}

theorem recedes_modifyProperties (e : Editor) (kind : PropertyKind) (change : Properties → Properties) :
    Recedes e (e.modifyProperties kind change) := by
  refine recedes_of_graphs ?_ rfl (Nat.le_refl _)
  cases kind <;> rfl

theorem recedes_removeProperty (e : Editor) (kind : PropertyKind) (name : String) : Recedes e (e.removeProperty kind name).1 := by
  rw [removeProperty]
  split
  · refine recedes_trans (k := Editor.invalidate _) ?_ (recedes_invalidate _)
    exact recedes_trans (recedes_modifyProperties e kind _)
      (recedes_foldl (fun e (group : NodeId × List NodeId) => recedes_removeNodesIn e group.1 group.2) _ _)
  · exact recedes_refl e

theorem recedes_renameProperty (e : Editor) (kind : PropertyKind) (old new : String) :
    Recedes e (e.renameProperty kind old new).1 := by
  have renamed (g : SubGraph) (ids : List NodeId) : ∀ m ∈ (g.renameProperty kind old new ids).nodes, ∃ n ∈ g.nodes, n.id = m.id := by
    intro m inside
    obtain ⟨n, member, rfl⟩ := List.mem_map.mp inside
    refine ⟨n, member, ?_⟩
    split
    · dsimp only
      split <;> rfl
    · rfl
  rcases renameProperty_cases e kind old new with same | ⟨v, _, -, -, -, rfl, result⟩
  · rw [same]
    exact recedes_refl e
  · rw [result]
    refine recedes_trans (k := Editor.invalidate _) ?_ (recedes_invalidate _)
    exact recedes_trans (recedes_modifyProperties e kind _)
      (recedes_foldl (fun e group => recedes_modifyGraph fun g _ => renamed g group.2) _ _)

theorem recedes_changePropertyType (e : Editor) (kind : PropertyKind) (name : String) (v : Value) :
    Recedes e (e.changePropertyType kind name v).1 := by
  rcases changePropertyType_cases e kind name v with same | ⟨current, _, -, -, rfl, result⟩
  · rw [same]
    exact recedes_refl e
  · rw [result]
    refine recedes_trans (k := Editor.invalidate _) ?_ (recedes_invalidate _)
    exact recedes_trans (recedes_modifyProperties e kind _)
      (recedes_foldl (fun e _ => recedes_trans (recedes_removeLinksIn e _ _)
        (recedes_revise fun g _ => revised_retagProperty g)) _ _)

end Properties

/-! ## New graphs and new nodes -/

theorem contains_ensureGraph : Contains (a.ensureGraph owner) x y ↔ Contains a x y := by
  rw [contains_iff_holds, contains_iff_holds]
  exact exists_congr fun type => holds_ensureGraph a owner x y type

/-- Whoever has been drawn may own a graph. -/
theorem rising_ensureGraph (rising : Rising e) (drawn : owner.value < e.nextId) :
    Rising (e.modifyAsset (·.ensureGraph owner)) where
  positive := rising.positive
  ascends := fun x y inside => rising.ascends x y (contains_ensureGraph.mp inside)
  drawn := fun x y inside => rising.drawn x y (contains_ensureGraph.mp inside)
  owners := fun x present => (hasGraph_ensureGraph.mp present).elim (rising.owners x) fun same => same ▸ drawn
  path := rising.path

/-- A node may be added to a graph with an older owner. -/
theorem rising_place (rising : Rising e) (younger : owner.value < n.id.value) (drawn : n.id.value < e.nextId) :
    Rising (e.modifyAsset fun a => (a.ensureGraph owner).modifyGraph owner (·.addNode n)) := by
  have made := rising_ensureGraph rising (Nat.lt_trans younger drawn)
  have origin (x y : NodeId) (inside : Contains ((e.asset.ensureGraph owner).modifyGraph owner (·.addNode n)) x y) :
      Contains (e.asset.ensureGraph owner) x y ∨ x = owner ∧ n.id = y := by
    obtain ⟨type, holds⟩ := contains_iff_holds.mp inside
    rcases (holds_addNode (hasGraph_ensureGraph.mpr (.inr rfl))).mp holds with before | ⟨rfl, rfl, -⟩
    · exact .inl (contains_iff_holds.mpr ⟨type, before⟩)
    · exact .inr ⟨rfl, rfl⟩
  refine ⟨made.positive, fun x y inside => ?_, fun x y inside => ?_, fun x present => ?_, made.path⟩
  · rcases origin x y inside with before | ⟨rfl, rfl⟩
    · exact made.ascends x y before
    · exact younger
  · rcases origin x y inside with before | ⟨rfl, rfl⟩
    · exact made.drawn x y before
    · exact drawn
  · exact made.owners x ((hasGraph_modifyGraph _ owner _ x).symm.trans present)

/-- Nodes from a palette get identities that have not been drawn before. -/
theorem spawn_younger {p : Palette} (spawn : e.spawn p category name = some (n, f)) :
    f = drawn e f.nextId ∧ e.nextId ≤ n.id.value ∧ n.id.value < f.nextId := by
  obtain ⟨template, -, rfl, rfl⟩ := template_of_spawn spawn
  refine ⟨rfl, Nat.le_add_right _ _, ?_⟩
  change e.nextId + template.pins.length < e.nextId + template.pins.length + 1 + template.pins.length
  omega

theorem rising_drawn (rising : Rising e) (more : e.nextId ≤ next) : Rising (drawn e next) :=
  rising_recedes rising (recedes_of_graphs rfl rfl more)

theorem rising_spawn {p : Palette} (rising : Rising e) (spawn : e.spawn p category name = some (n, f)) : Rising f := by
  rw [spawn_rest spawn]
  exact rising_drawn rising (spawn_more spawn)

theorem rising_ensureSubGraph (rising : Rising e) (id : NodeId) : Rising (e.ensureSubGraph id) := by
  rcases ensureSubGraph_cases e id with same | ⟨n, opening, outcome⟩
  · rw [same]
    exact rising
  obtain ⟨member, rfl⟩ := findNode_spec opening.found
  obtain ⟨owner, g, held, inside⟩ := mem_allNodes.mp member
  have known : n.id.value < e.nextId := rising.drawn owner n.id ⟨g, held, n, inside, rfl⟩
  rcases outcome with ⟨-, same⟩ | ⟨output, graph, category, f, seeding⟩
  · rw [same]
    exact rising_ensureGraph rising known
  · obtain ⟨-, younger, below⟩ := spawn_younger seeding.spawn
    rw [seeding.result]
    exact rising_place (rising_spawn rising seeding.spawn) (Nat.lt_of_lt_of_le known younger) below

theorem rising_addNode (rising : Rising e) (younger : owner.value < n.id.value) (drawn : n.id.value < e.nextId) :
    Rising (e.addNode owner n) := by
  have placed := rising_recedes (rising_place rising younger drawn) (recedes_invalidate _)
  refine rising_recedes ?_ (recedes_ensureEntryOfMachine _ owner)
  split
  · exact rising_ensureSubGraph placed n.id
  · exact placed

theorem rising_createNode (rising : Rising e) (category name : String) : Rising (e.createNode category name).1 := by
  rcases createNode_cases e category name with same | ⟨n, f, spawn, same⟩
  · rw [same]
    exact rising
  · obtain ⟨rest, younger, below⟩ := spawn_younger spawn
    have known : f.activeOwner = e.activeOwner := by rw [rest]; rfl
    rw [same]
    refine rising_addNode (rising_spawn rising spawn) ?_ below
    rw [known]
    exact Nat.lt_of_lt_of_le (active_drawn rising) younger

/-- Nodes that are built by hand are as new as any. -/
theorem rising_adopt (rising : Rising e) (known : owner.value < e.nextId) (n : Node) :
    Rising ((e.adopt n).2.addNode owner (e.adopt n).1) := by
  have number : (e.adopt n).1.id.value = e.nextId + n.pins.length := rfl
  have count : (e.adopt n).2.nextId = e.nextId + n.pins.length + 1 + n.pins.length := rfl
  refine rising_addNode (e := (e.adopt n).2) (rising_drawn rising ?_) ?_ ?_
  · change e.nextId ≤ (e.adopt n).2.nextId
    omega
  · omega
  · omega

theorem rising_spawnInput (rising : Rising e) (name : String) : Rising (e.spawnInput name).1 := by
  rw [spawnInput]
  split
  · exact rising
  · exact rising_adopt rising (active_drawn rising) _

theorem rising_spawnLocalVariable (rising : Rising e) (name : String) (getter : Bool) :
    Rising (e.spawnLocalVariable name getter).1 := by
  rcases spawnLocalVariable_cases e name getter with same | ⟨v, inputs, outputs, n, placing⟩
  · rw [same]
    exact rising
  · rw [placing.result]
    exact rising_adopt rising (active_drawn rising) n

/-! ## State machines -/

theorem rising_createTransitionNode (rising : Rising e) : Rising e.createTransitionNode.1 := by
  rw [createTransitionNode]
  split
  · exact rising
  · rename_i owner active
    have here := active_drawn rising
    rw [← activeMachine_active active] at here
    exact rising_adopt rising here Template.transition

theorem recedes_joinTransition (e : Editor) (owner transition start finish : NodeId) (middle : Point) :
    Recedes e (e.joinTransition owner transition start finish middle).1 := by
  have kept {f : Node → Node} (keeps : ∀ n, (f n).id = n.id) (g : SubGraph) (id : NodeId) :
      ∀ m ∈ (g.modifyNode id f).nodes, ∃ n ∈ g.nodes, n.id = m.id := by
    intro m inside
    obtain ⟨n, member, same⟩ := origin_of_mem (forall₂_modifyFirst (R := fun n m => m.id = n.id) (fun _ => rfl)
      fun n _ _ => keeps n) inside
    exact ⟨n, member, same.symm⟩
  refine joinTransition_keeps ?_ fun f first second recedes => recedes_trans recedes (recedes_createLinkIn f owner first second)
  refine recedes_trans (f := drawn e (e.nextId + 4)) (recedes_of_graphs rfl rfl (Nat.le_add_right _ _))
    (recedes_modifyGraph fun g _ m inside => ?_)
  obtain ⟨n, between, last⟩ := kept (by exact fun _ => rfl) _ _ m inside
  obtain ⟨k, before, second⟩ := kept (by exact fun _ => rfl) _ _ n between
  obtain ⟨l, member, first⟩ := kept (by exact fun _ => rfl) _ _ k before
  exact ⟨l, member, first.trans (second.trans last)⟩

theorem rising_createTransition (rising : Rising e) (start finish : NodeId) : Rising (e.createTransition start finish).1 := by
  rcases createTransition_cases e start finish with same | ⟨owner, g, a, b, f, transition, joining⟩
  · rw [same]
    exact rising
  · have made := rising_createTransitionNode rising
    rw [joining.created] at made
    rw [joining.result]
    exact rising_recedes (rising_ensureSubGraph made transition) (recedes_joinTransition ..)

/-- A player goes into a graph that has an output, so that its owner is known. -/
theorem rising_playClip (rising : Rising e) (owner : NodeId) (clip : Option Value) : Rising (e.playClip owner clip).1 := by
  rcases playClip_cases e owner clip with same | ⟨player, f, spawn, outcome⟩
  · rw [same]
    exact rising
  have drew := rising_spawn rising spawn
  rcases outcome with same | ⟨pose, sink, playing⟩
  · rw [same]
    exact drew
  obtain ⟨-, younger, below⟩ := spawn_younger spawn
  obtain ⟨g, held, -⟩ := Option.bind_eq_some_iff.mp playing.input
  have present := hasGraph_iff.mpr ⟨g, held⟩
  have known : owner.value < e.nextId := rising.owners owner (by rwa [spawn_asset spawn] at present)
  have number : (loaded clip player).id = player.id := (edited_loaded clip player).id
  have placed := rising_place (n := loaded clip player) drew (number ▸ Nat.lt_of_lt_of_le known younger) (number ▸ below)
  rw [addNode_present present] at placed
  have linked := rising_recedes placed (recedes_createLinkIn _ owner pose.id sink)
  obtain ⟨_, rfl, same | ⟨same, -⟩⟩ := playing.result
  · rw [same]
    exact rising_recedes linked (recedes_invalidate _)
  · rw [same]
    exact linked

theorem rising_promoteQuickState (rising : Rising e) (id : NodeId) : Rising (e.promoteQuickState id).1 := by
  rcases promoteQuickState_cases e id with same | ⟨owner, quick, state, f, promotion⟩
  · rw [same]
    exact rising
  obtain ⟨g, held, first⟩ := Option.bind_eq_some_iff.mp promotion.found
  rw [promotion.result]
  refine rising_playClip (rising_ensureSubGraph (rising_recedes (rising_spawn rising promotion.spawn)
    (recedes_modifyGraph fun h again m inside => ?_)) id) id _
  rw [spawn_asset promotion.spawn, held] at again
  cases again
  rcases promoted_origin first inside with before | rfl
  · exact ⟨m, before, rfl⟩
  · exact ⟨quick, List.mem_of_find?_eq_some first, rfl⟩

end PoseGraph.OwnershipOrder
