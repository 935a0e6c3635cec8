import PoseGraph.Proofs.LinkInvariant
import PoseGraph.Proofs.Navigation
import PoseGraph.Proofs.StatePromotion

/-! Navigation over whole runs. A node that owns graphs comes with its graph, whether it is
new or takes the place of a quick state. Nodes that are removed take their graphs with
them; the path stays whole where they are removed from the active graph, since all of it
lies further up. -/
namespace PoseGraph.NavigationRuns
open AssetOrder EditOutcomes EditRuns Editor EditorCoherence EditorSoundness GraphDependencies LinkEdits LinkInvariant LinkingEdits NamingEdits
  Navigation Nesting NodeCraft NodeEdits NodeFrames PropertyEdits PropertyKeys ReachableEditors SheddingEdits StateEdits StatePromotion

variable {a b : Asset} {e f k : Editor} {g h : SubGraph} {n m quick state : Node} {owner id place start : NodeId} {type : NodeType}
variable {path : List NodeId} {ids doomed : List NodeId} {except : Option NodeId} {edit : Edit}

/-! ## New graphs -/

/-- The second editor has another node that owns graphs. -/
structure Gains (owner id : NodeId) (e f : Editor) : Prop where
  owners : ∀ owner, f.asset.hasGraph owner = e.asset.hasGraph owner
  nests : ∀ outer inner, Nests f.asset outer inner ↔ Nests e.asset outer inner ∨ outer = owner ∧ inner = id
  path : f.path = e.path

/-- The second editor has the graph of a node besides the others. -/
structure Opens (id : NodeId) (e f : Editor) : Prop where
  owners : ∀ owner, f.asset.hasGraph owner = true ↔ e.asset.hasGraph owner = true ∨ owner = id
  nests : ∀ outer inner, Nests f.asset outer inner ↔ Nests e.asset outer inner
  path : f.path = e.path

theorem navigable_opened (navigable : Navigable e) (gains : Gains owner id e f) (opens : Opens id f k) : Navigable k := by
  obtain ⟨⟨root, owned, furnished⟩, trail, distinct⟩ := navigable
  have nests (outer inner : NodeId) :
      Nests k.asset outer inner ↔ Nests e.asset outer inner ∨ outer = owner ∧ inner = id :=
    (opens.nests outer inner).trans (gains.nests outer inner)
  have owners (x : NodeId) : k.asset.hasGraph x = true ↔ e.asset.hasGraph x = true ∨ x = id := by
    rw [opens.owners, gains.owners]
  have path : k.path = e.path := opens.path.trans gains.path
  refine ⟨⟨(owners _).mpr (.inl root), fun x present => ?_, fun outer inner inside => ?_⟩, ?_, path ▸ distinct⟩
  · rcases (owners x).mp present with before | rfl
    · exact (owned x before).imp_right fun ⟨outer, inside⟩ => ⟨outer, (nests outer x).mpr (.inl inside)⟩
    · exact .inr ⟨owner, (nests owner x).mpr (.inr ⟨rfl, rfl⟩)⟩
  · exact (owners inner).mpr (((nests outer inner).mp inside).imp (furnished outer inner) And.right)
  · rw [path]
    exact trail.imp fun outer inner inside => (nests outer inner).mpr (.inl inside)

theorem hasGraph_ensureGraph : (a.ensureGraph owner).hasGraph id = true ↔ a.hasGraph id = true ∨ id = owner := by
  rw [hasGraph_iff, hasGraph_iff, graph_ensureGraph]
  split
  · rename_i here
    simp [here]
  · rename_i other
    simp [other]

theorem ensureGraph_present (present : a.hasGraph owner = true) : a.ensureGraph owner = a := by
  rw [Asset.ensureGraph, if_pos present]

/-- A node that is added to a graph lies in it. -/
theorem holds_addNode (present : a.hasGraph owner = true) : Holds (a.modifyGraph owner (·.addNode n)) place id type ↔
    Holds a place id type ∨ place = owner ∧ n.id = id ∧ n.type = type := by
  obtain ⟨g, held⟩ := hasGraph_iff.mp present
  rw [Holds, Holds, graph_modifyGraph]
  split
  · rename_i here
    subst here
    simp [held, SubGraph.addNode, or_and_right, exists_or]
  · rename_i other
    simp [other]

/-- A node that owns graphs and lies in one gets its own. -/
theorem opens_ensureSubGraph (coherent : Coherent except e) (inside : Nests e.asset owner id) :
    Opens id e (e.ensureSubGraph id) := by
  obtain ⟨g, held, n, member, rfl, owns⟩ := inside
  have there : n ∈ allNodes e.asset := mem_allNodes.mpr ⟨owner, g, held, member⟩
  have nested := node_nested coherent there
  cases absent : e.asset.hasGraph n.id with
  | true =>
    rw [ensureSubGraph, absent, Bool.or_true, if_pos rfl]
    refine ⟨fun x => ⟨.inl, fun either => either.elim (fun before => before) ?_⟩, fun _ _ => Iff.rfl, rfl⟩
    rintro rfl
    exact absent
  | false =>
    have opening : Opening e n.id n :=
      ⟨nested, absent, (findNode_eq_some_iff (identified_of_coherent coherent)).mpr ⟨there, rfl⟩, beq_iff_eq.mpr owns⟩
    rcases opening.outcome with ⟨-, same⟩ | ⟨output, graph, category, f, seeding⟩
    · rw [same]
      exact ⟨fun x => hasGraph_ensureGraph, fun outer inner => holds_ensureGraph .., rfl⟩
    · have spawned := spawn_spec coherent seeding.spawn
      have simple : output.type ≠ .subroutine := by
        have plain := (spawned.output rfl).1
        rwa [Node.isSubroutine, beq_eq_false_iff_ne] at plain
      have same : f.asset = e.asset := spawn_asset seeding.spawn
      rw [seeding.result]
      refine ⟨fun x => ?_, fun outer inner => ?_, by rw [spawned.rest]; rfl⟩
      · change ((f.asset.ensureGraph n.id).modifyGraph n.id _).hasGraph x = true ↔ _
        rw [hasGraph_modifyGraph, hasGraph_ensureGraph, same]
      · change Holds ((f.asset.ensureGraph n.id).modifyGraph n.id _) _ _ _ ↔ Holds _ _ _ _
        rw [holds_addNode (hasGraph_ensureGraph.mpr (.inr rfl)), holds_ensureGraph, same]
        simp [simple]

/-! ## New nodes -/

/-- A new node that owns no graphs changes nothing. -/
theorem abides_addNode (present : e.asset.hasGraph owner = true) (plain : n.isSubroutine = false) :
    Abides e (e.modifyGraph owner (·.addNode n)) := by
  refine ⟨⟨hasGraph_modifyGraph e.asset owner _, fun outer inner => (holds_addNode present).trans ?_⟩, rfl⟩
  rw [Node.isSubroutine, beq_eq_false_iff_ne] at plain
  simp [plain, Nests]

/-- A new node that owns graphs is one more. -/
theorem gains_addNode (present : e.asset.hasGraph owner = true) (owns : n.isSubroutine = true) :
    Gains owner n.id e (e.modifyGraph owner (·.addNode n)) := by
  refine ⟨hasGraph_modifyGraph e.asset owner _, fun outer inner => (holds_addNode present).trans ?_, rfl⟩
  simp [beq_iff_eq.mp owns, Nests, eq_comm]

theorem addNode_present (present : e.asset.hasGraph owner = true) (n : Node) :
    (e.modifyAsset fun a => (a.ensureGraph owner).modifyGraph owner (·.addNode n)) = e.modifyGraph owner (·.addNode n) := by
  rw [modifyAsset, ensureGraph_present present]
  rfl

theorem navigable_addPlain (navigable : Navigable e) (present : e.asset.hasGraph owner = true)
    (plain : n.isSubroutine = false) : Navigable (e.addNode owner n) := by
  rw [addNode, addNode_present present, plain]
  exact navigable_abides navigable (abides_trans (abides_trans (abides_addNode present plain) (abides_invalidate _))
    (abides_ensureEntryOfMachine _ owner))

theorem navigable_addNode (coherent : Coherent none e) (navigable : Navigable e) (newcomer : Newcomer e n)
    (joined : owner.value < e.nextId ∨ n.kind ≠ .transition) (present : e.asset.hasGraph owner = true) :
    Navigable (e.addNode owner n) := by
  cases owns : n.isSubroutine with
  | false => exact navigable_addPlain navigable present owns
  | true =>
    have placed := coherent_placed coherent newcomer joined
    rw [addNode_present present] at placed
    have gains := gains_addNode present owns
    rw [addNode, addNode_present present, owns, if_pos rfl]
    have opens := opens_ensureSubGraph (coherent_invalidate placed) ((gains.nests owner n.id).mpr (.inr ⟨rfl, rfl⟩))
    refine navigable_abides (navigable_opened navigable gains ?_) (abides_ensureEntryOfMachine _ owner)
    exact ⟨opens.owners, opens.nests, opens.path⟩

/-- Spawning a node changes neither graphs nor the path. -/
theorem abides_spawn {palette : Palette} {category name : String} (spawn : e.spawn palette category name = some (n, f)) :
    Abides e f := by
  rw [spawn_rest spawn]
  exact abides_of_graphs rfl rfl

theorem navigable_createNode (coherent : Coherent none e) (navigable : Navigable e) (category name : String) :
    Navigable (e.createNode category name).1 := by
  rcases createNode_cases e category name with same | ⟨n, f, spawn, same⟩
  · rw [same]
    exact navigable
  · have spawned := spawn_spec coherent spawn
    have drawn : Navigable f := navigable_abides navigable (abides_spawn spawn)
    rw [same]
    exact navigable_addNode (coherent_spawned coherent spawned) drawn spawned.newcomer (.inr spawned.plain)
      (active_hasGraph drawn)

theorem navigable_adopt (navigable : Navigable e) (plain : n.isSubroutine = false) :
    Navigable ((e.adopt n).2.addNode (e.adopt n).2.activeOwner (e.adopt n).1) := by
  have drawn : Navigable (e.adopt n).2 := navigable_abides navigable (abides_of_graphs rfl rfl)
  exact navigable_addPlain drawn (active_hasGraph drawn) plain

theorem navigable_spawnInput (navigable : Navigable e) (name : String) : Navigable (e.spawnInput name).1 := by
  rw [spawnInput]
  split
  · exact navigable
  · exact navigable_adopt navigable rfl

theorem navigable_spawnLocalVariable (navigable : Navigable e) (name : String) (getter : Bool) :
    Navigable (e.spawnLocalVariable name getter).1 := by
  rcases spawnLocalVariable_cases e name getter with same | ⟨v, inputs, outputs, _, -, -, rfl, result⟩
  · rw [same]
    exact navigable
  · rw [result]
    exact navigable_adopt navigable rfl

/-! ## State machines -/

theorem navigable_createTransitionNode (coherent : Coherent none e) (navigable : Navigable e) :
    Navigable e.createTransitionNode.1 := by
  rw [createTransitionNode]
  split
  · exact navigable
  · rename_i owner active
    have crafted : Crafted Template.transition := by decide
    have bound : e.nextId ≤ (Template.transition.withFreshIds e.nextId).2 := Nat.le_add_right _ 1
    refine navigable_addNode (coherent_drawn coherent bound) (navigable_abides navigable (abides_of_graphs rfl rfl))
      (newcomer_withFreshIds coherent (Nat.le_refl _) crafted)
      (.inl (Nat.lt_of_lt_of_le (owner_drawn coherent (activeMachine_spec active)) bound)) ?_
    have hosted := active_hasGraph navigable
    rwa [activeMachine_active active]

theorem abides_joinTransition (e : Editor) (owner transition start finish : NodeId) (middle : Point) :
    Abides e (e.joinTransition owner transition start finish middle).1 := by
  refine joinTransition_keeps (P := Abides e) ?_ fun f a b before => abides_trans before (abides_createLinkIn f owner a b)
  refine abides_trans (f := drawn e (e.nextId + 4)) (abides_of_graphs rfl rfl) (abides_modifyGraph fun g _ => ?_)
  rw [withTransition]
  exact sameInner_trans (sameInner_trans (sameInner_modifyNode (by exact fun _ => ⟨rfl, rfl⟩) g start)
    (sameInner_modifyNode (by exact fun _ => ⟨rfl, rfl⟩) _ finish))
    (sameInner_modifyNode (by exact fun _ => ⟨rfl, rfl⟩) _ transition)

theorem navigable_createTransition (coherent : Coherent none e) (navigable : Navigable e) (start finish : NodeId) :
    Navigable (e.createTransition start finish).1 := by
  rcases createTransition_cases e start finish with same | ⟨owner, g, a, b, f, transition, joining⟩
  · rw [same]
    exact navigable
  · have made := navigable_createTransitionNode coherent navigable
    rw [joining.created] at made
    rw [joining.result, ensureSubGraph_housed made.housed]
    exact navigable_abides made (abides_joinTransition ..)

/-- The state that takes the place of a quick state owns graphs. -/
theorem gains_promoted (owns : state.isSubroutine = true) (found : (e.asset.graph? owner).bind (·.node? id) = some quick) :
    Gains owner id e (e.modifyGraph owner (promoted · id state quick)) := by
  obtain ⟨g, held, first⟩ := Option.bind_eq_some_iff.mp found
  have named : quick.id = id := by simpa using List.find?_some first
  refine ⟨hasGraph_modifyGraph e.asset owner _, fun outer inner => ?_, rfl⟩
  have subroutine : state.type = .subroutine := beq_iff_eq.mp owns
  change Nests (e.asset.modifyGraph owner _) outer inner ↔ _
  rw [Nests, Nests, Holds, Holds, graph_modifyGraph]
  split
  · rename_i here
    subst here
    obtain ⟨before, after, split, replaced⟩ := promoted_nodes state first
    have stateId : (stateFromQuick state quick).id = id := named
    have stateType : (stateFromQuick state quick).type = .subroutine := subroutine
    simp only [held, Option.map_some, Option.some.injEq, exists_eq_left', replaced, split, List.mem_append,
      List.mem_cons, or_and_right, exists_or, exists_eq_left, stateId, stateType, named, true_and, and_true]
    grind
  · rename_i other
    simp [other]

theorem player_plain {template : Node}
    (found : (Palette.ofKind .animation).template? "Animation" "Animation Player" = some template) :
    template.isSubroutine = false := by
  have plain : ((Palette.ofKind .animation).template? "Animation" "Animation Player").all (fun n => !n.isSubroutine) = true := by
    decide +kernel
  rw [found] at plain
  simpa using plain

theorem abides_playClip (e : Editor) (owner : NodeId) (clip : Option Value) : Abides e (e.playClip owner clip).1 := by
  rcases playClip_cases e owner clip with same | ⟨player, f, spawn, outcome⟩
  · rw [same]
    exact abides_refl e
  have drew : Abides e f := abides_spawn spawn
  rcases outcome with same | ⟨pose, sink, playing⟩
  · rw [same]
    exact drew
  have plain : (loaded clip player).isSubroutine = false := by
    obtain ⟨template, found, rfl, -⟩ := template_of_spawn spawn
    rw [Node.isSubroutine, (edited_loaded clip _).type]
    exact (player_plain found :)
  obtain ⟨g, held, -⟩ := Option.bind_eq_some_iff.mp playing.input
  have added := abides_addNode (hasGraph_iff.mpr ⟨g, held⟩) plain
  have linked := abides_trans drew (abides_trans added (abides_createLinkIn _ owner pose.id sink))
  obtain ⟨_, rfl, same | ⟨same, -⟩⟩ := playing.result
  · rw [same]
    exact abides_trans linked (abides_invalidate _)
  · rw [same]
    exact linked

theorem navigable_promoteQuickState (coherent : Coherent none e) (navigable : Navigable e) (id : NodeId) :
    Navigable (e.promoteQuickState id).1 := by
  rcases promoteQuickState_cases e id with same | ⟨owner, quick, state, f, promotion⟩
  · rw [same]
    exact navigable
  · have spawned := spawn_spec coherent promotion.spawn
    have same : f.asset = e.asset := spawn_asset promotion.spawn
    have drawn : Navigable f := navigable_abides navigable (abides_spawn promotion.spawn)
    have gains := gains_promoted (e := f) (spawned.state rfl) (same ▸ promotion.found)
    have replaced := coherent_promoted coherent spawned promotion.found promotion.kind
    have opens := opens_ensureSubGraph replaced ((gains.nests owner id).mpr (.inr ⟨rfl, rfl⟩))
    rw [promotion.result]
    exact navigable_abides (navigable_opened drawn gains opens) (abides_playClip _ id _)

/-! ## Removing nodes -/

/-- The second editor has fewer nodes in one graph. -/
structure Thinned (owner : NodeId) (e f : Editor) : Prop where
  owners : ∀ owner, f.asset.hasGraph owner = e.asset.hasGraph owner
  fewer : ∀ place id type, Holds f.asset place id type → Holds e.asset place id type
  others : ∀ place id type, place ≠ owner → Holds e.asset place id type → Holds f.asset place id type
  path : f.path = e.path

theorem thinned_refl (owner : NodeId) (e : Editor) : Thinned owner e e :=
  ⟨fun _ => rfl, fun _ _ _ holds => holds, fun _ _ _ _ holds => holds, rfl⟩

theorem thinned_trans (first : Thinned owner e f) (second : Thinned owner f k) : Thinned owner e k where
  owners := fun x => (second.owners x).trans (first.owners x)
  fewer := fun place id type holds => first.fewer place id type (second.fewer place id type holds)
  others := fun place id type other holds => second.others place id type other (first.others place id type other holds)
  path := second.path.trans first.path

theorem holds_iff : Holds a place id type ↔ ∃ n ∈ (graphOf a place).nodes, n.id = id ∧ n.type = type := by
  rw [Holds, graphOf]
  cases a.graph? place <;> simp [SubGraph.empty]

theorem holds_sheds (sheds : Sheds e f) (holds : Holds f.asset place id type) : Holds e.asset place id type := by
  obtain ⟨m, inside, rfl, rfl⟩ := holds_iff.mp holds
  obtain ⟨n, member, same⟩ := sheds.nodes place m inside
  exact holds_iff.mpr ⟨n, member, same.id.symm, same.type.symm⟩

theorem abides_removeDeadLinks (e : Editor) (owner id : NodeId) : Abides e (e.removeDeadLinks owner id) := by
  rcases removeDeadLinks_cases e owner id with same | ⟨g, -, same⟩
  · rw [same]
    exact abides_refl e
  · rw [same]
    exact abides_dropLinksIn e owner g _

theorem thinned_dropNodes (coherent : Coherent except e) (owner : NodeId) (doomed : List NodeId) :
    Thinned owner e (e.dropNodes owner doomed).invalidate := by
  have unlinked : Abides e (doomed.foldl (fun e id => e.removeDeadLinks owner id) e) :=
    abides_foldl (fun e id => abides_removeDeadLinks e owner id) doomed e
  refine ⟨fun x => (hasGraph_modifyGraph _ owner _ x).trans (unlinked.shape.owners x),
    fun place id type => holds_sheds (f := (e.dropNodes owner doomed).invalidate)
      (sheds_trans (sheds_dropNodes coherent owner doomed) (sheds_invalidate _)), fun place id type other holds => ?_,
    unlinked.path⟩
  obtain ⟨g, held, inside⟩ := holds
  exact ⟨g, ((within_dropNodes e owner doomed).others place other).trans held, inside⟩

/-- Removing nodes does nothing, or it thins out a graph and collects the orphans. -/
theorem removeNodesIn_thinned (coherent : Coherent none e) (owner : NodeId) (ids : List NodeId) :
    (e.removeNodesIn owner ids).1 = e ∨ ∃ f, Thinned owner e f ∧
      Abides (f.modifyAsset (·.collectOrphans)) (e.removeNodesIn owner ids).1 := by
  have drop (f : Editor) (doomed : List NodeId) (before : Coherent (some owner) f ∧ Thinned owner e f) :
      Coherent (some owner) (f.dropNodes owner doomed).invalidate ∧ Thinned owner e (f.dropNodes owner doomed).invalidate :=
    ⟨coherent_invalidate (coherent_dropNodes before.1 doomed),
      thinned_trans before.2 (thinned_dropNodes before.1 owner doomed)⟩
  refine (removeNodesIn_ends drop ⟨coherent_exempt coherent _, thinned_refl owner e⟩ ids).imp_right ?_
  rintro ⟨f, ⟨-, thinned⟩, same⟩
  exact ⟨f, thinned, same ▸ abides_ensureEntryOfMachine _ owner⟩

theorem holds_nested (coherent : Coherent except e) (holds : Holds e.asset place id type) : id ≠ .root := by
  obtain ⟨g, held, n, member, rfl, -⟩ := holds
  simpa [NodeId.isRoot] using node_nested coherent (mem_allNodes.mpr ⟨place, g, held, member⟩)

/-- Graphs go with the nodes that own them, and only with these. -/
theorem housed_collected (coherent : Coherent except e) (housed : Housed e.asset) (thinned : Thinned owner e f) :
    Housed f.asset.collectOrphans := by
  have collected := collected_collectOrphans f.asset
  have before {place id : NodeId} {type : NodeType} (holds : Holds f.asset.collectOrphans place id type) :
      Holds e.asset place id type := thinned.fewer place id type (collected_holds collected holds)
  refine ⟨collected.kept .root ((thinned.owners _).trans housed.root) (.inl rfl), fun x present => ?_,
    fun outer inner inside => ?_⟩
  · refine (collected.owned x present).imp_right ?_
    rintro ⟨outer, type, holds⟩
    obtain ⟨g, held⟩ := hasGraph_iff.mp present
    have owned : e.asset.hasGraph x = true :=
      (thinned.owners x).symm.trans (hasGraph_iff.mpr ⟨g, collected.graphs x g held⟩)
    obtain ⟨place, nests⟩ := (housed.owned x owned).resolve_left (holds_nested coherent (before holds))
    obtain ⟨-, rfl⟩ := holds_unique (identified_of_coherent coherent) (before holds) nests
    exact ⟨outer, holds⟩
  · have there := housed.furnished outer inner (before inside)
    exact collected.kept inner ((thinned.owners inner).trans there) (.inr ⟨outer, _, inside⟩)

theorem housed_removeNodesIn (coherent : Coherent none e) (housed : Housed e.asset) (owner : NodeId) (ids : List NodeId) :
    Housed (e.removeNodesIn owner ids).1.asset := by
  rcases removeNodesIn_thinned coherent owner ids with same | ⟨f, thinned, after⟩
  · rw [same]
    exact housed
  · exact housed_abides (e := f.modifyAsset (·.collectOrphans))
      (housed_collected coherent housed thinned) after

theorem path_removeNodesIn (coherent : Coherent none e) (owner : NodeId) (ids : List NodeId) :
    (e.removeNodesIn owner ids).1.path = e.path := by
  rcases removeNodesIn_thinned coherent owner ids with same | ⟨f, thinned, after⟩
  · rw [same]
  · exact after.path.trans thinned.path

/-- Down to the graph that is thinned out, nothing is missing. -/
theorem trail_thinned (thinned : Thinned owner e f) (trail : List.IsChain (Nests e.asset) (start :: path))
    (distinct : (start :: path).Nodup) (last : (start :: path).getLast? = some owner) :
    List.IsChain (Nests f.asset) (start :: path) := by
  induction path generalizing start with
  | nil => exact .singleton start
  | cons next rest ih =>
    obtain ⟨nests, onward⟩ := List.isChain_cons_cons.mp trail
    obtain ⟨apart, others⟩ := List.nodup_cons.mp distinct
    rw [List.getLast?_cons_cons] at last
    have other : start ≠ owner := by
      rintro rfl
      exact apart (List.mem_of_getLast? last)
    exact List.isChain_cons_cons.mpr ⟨thinned.others start next _ other nests, ih onward others last⟩

/-- No graph on the way from a graph that stays is an orphan. -/
theorem trail_collected (present : a.collectOrphans.hasGraph start = true) (owners : ∀ id ∈ path, a.hasGraph id = true)
    (trail : List.IsChain (Nests a) (start :: path)) : List.IsChain (Nests a.collectOrphans) (start :: path) := by
  have collected := collected_collectOrphans a
  induction path generalizing start with
  | nil => exact .singleton start
  | cons next rest ih =>
    obtain ⟨⟨g, held, inside⟩, onward⟩ := List.isChain_cons_cons.mp trail
    obtain ⟨graph, later⟩ := List.forall_mem_cons.mp owners
    have nests : Nests a.collectOrphans start next := by
      obtain ⟨h, found⟩ := hasGraph_iff.mp present
      have same := collected.graphs start h found
      rw [held] at same
      exact ⟨h, found, Option.some.inj same ▸ inside⟩
    exact List.isChain_cons_cons.mpr ⟨nests, ih (collected.kept next graph (.inr ⟨start, _, nests⟩)) later onward⟩

/-- Nodes are removed from the active graph, at the end of the path. -/
theorem navigable_removeNodes (coherent : Coherent none e) (navigable : Navigable e) (ids : List NodeId) :
    Navigable (e.removeNodes ids).1 := by
  have distinct : (NodeId.root :: e.path).Nodup := by
    refine List.nodup_cons.mpr ⟨fun inside => ?_, navigable.distinct⟩
    obtain ⟨outer, nests⟩ := nested_of_trail navigable.trail inside
    exact holds_nested coherent nests rfl
  have last : (NodeId.root :: e.path).getLast? = some e.activeOwner := List.getLast?_cons
  rcases removeNodesIn_thinned coherent e.activeOwner ids with same | ⟨f, thinned, after⟩
  · rw [removeNodes, same]
    exact navigable
  · have housed := housed_collected coherent navigable.housed thinned
    have trail : List.IsChain (Nests f.asset.collectOrphans) (.root :: e.path) := by
      refine trail_collected housed.root (fun id inside => ?_) (trail_thinned thinned navigable.trail distinct last)
      obtain ⟨outer, nests⟩ := nested_of_trail navigable.trail inside
      exact (thinned.owners id).trans (navigable.housed.furnished outer id nests)
    refine navigable_abides (e := f.modifyAsset (·.collectOrphans)) ⟨housed, ?_, ?_⟩ after
    · exact (thinned.path.symm ▸ trail :)
    · exact (thinned.path.symm ▸ navigable.distinct :)

/-! ## Removing properties -/

/-- Where nodes have gone anywhere in the asset, the path is whole if all its nodes are
still there. -/
theorem navigable_shed_iff (coherent : Coherent except e) (navigable : Navigable e) (sheds : Sheds e f)
    (housed : Housed f.asset) (path : f.path = e.path) :
    Navigable f ↔ ∀ id ∈ e.path, (f.asset.findNode? id).isSome = true := by
  constructor
  · intro after id inside
    obtain ⟨outer, nests⟩ := nested_of_trail after.trail (path ▸ inside)
    exact findNode_isSome_iff.mpr ⟨outer, _, nests⟩
  · intro found
    have down (path : List NodeId) (start : NodeId) (trail : List.IsChain (Nests e.asset) (start :: path))
        (found : ∀ id ∈ path, (f.asset.findNode? id).isSome = true) : List.IsChain (Nests f.asset) (start :: path) := by
      induction path generalizing start with
      | nil => exact .singleton start
      | cons next rest ih =>
        obtain ⟨nests, onward⟩ := List.isChain_cons_cons.mp trail
        obtain ⟨first, later⟩ := List.forall_mem_cons.mp found
        obtain ⟨outer, type, holds⟩ := findNode_isSome_iff.mp first
        obtain ⟨rfl, rfl⟩ := holds_unique (identified_of_coherent coherent) (holds_sheds sheds holds) nests
        exact List.isChain_cons_cons.mpr ⟨holds, ih next onward later⟩
    refine ⟨housed, ?_, path ▸ navigable.distinct⟩
    rw [path]
    exact down e.path .root navigable.trail found

/-- Removing a property takes nodes and links away and nothing else; graphs stay with
their owners. -/
theorem removeProperty_spec (coherent : Coherent none e) (housed : Housed e.asset) (kind : PropertyKind) (name : String) :
    Sheds e (e.removeProperty kind name).1 ∧ Housed (e.removeProperty kind name).1.asset ∧
      (e.removeProperty kind name).1.path = e.path := by
  have fold (groups : List (NodeId × List NodeId)) (e : Editor) (coherent : Coherent none e) (housed : Housed e.asset) :
      Housed (groups.foldl (fun e group => (e.removeNodesIn group.1 group.2).1) e).asset ∧
        (groups.foldl (fun e group => (e.removeNodesIn group.1 group.2).1) e).path = e.path := by
    induction groups generalizing e with
    | nil => exact ⟨housed, rfl⟩
    | cons group groups ih =>
      obtain ⟨after, path⟩ := ih _ (coherent_removeNodesIn coherent group.1 group.2)
        (housed_removeNodesIn coherent housed group.1 group.2)
      exact ⟨after, path.trans (path_removeNodesIn coherent group.1 group.2)⟩
  refine ⟨sheds_removeProperty coherent kind name, ?_⟩
  rw [removeProperty]
  split
  · exact fold _ _ (coherent_eraseProperty coherent kind name) (housed_abides housed (abides_modifyProperties e kind _))
  · exact ⟨housed, rfl⟩

theorem navigable_removeProperty_iff (coherent : Coherent none e) (navigable : Navigable e) (kind : PropertyKind)
    (name : String) : Navigable (e.removeProperty kind name).1 ↔
      ∀ id ∈ e.path, ((e.removeProperty kind name).1.asset.findNode? id).isSome = true := by
  obtain ⟨sheds, housed, path⟩ := removeProperty_spec coherent navigable.housed kind name
  exact navigable_shed_iff coherent navigable sheds housed path

/-! ## Runs -/

/-- What callers heed who navigate with care: they go to nodes that own graphs in the
active one, back along the path or to the top, and remove no property that takes a node
of the path with it. -/
def Guided (e : Editor) : Edit → Prop
  | .enterNode id => Enterable e id
  | .setPath (some id) => Enterable e id
  | .removeProperty kind name => ∀ id ∈ e.path, ((e.removeProperty kind name).1.asset.findNode? id).isSome = true
  | _ => True

instance : Decidable (Guided e edit) := by
  unfold Guided
  split <;> infer_instance

theorem navigable_start (name : String) (self : NodeId) (catalog : Catalog) (settings : Settings) (drawn : Nat) :
    Navigable (.ofAsset (.ofName name self) catalog settings (drawn + 1)) := by
  let bare : Editor :=
    { asset := (Asset.ofName name self).ensureGraph .root, catalog, settings, path := [], isDirty := true, nextId := drawn + 1 }
  have only (owner : NodeId) (g : SubGraph) (held : bare.asset.graph? owner = some g) : owner = .root ∧ g = .empty := by
    have entry : (owner, g) ∈ [(NodeId.root, SubGraph.empty)] := get_eq_some_iff.mp held
    exact Prod.mk.inj (List.mem_singleton.mp entry)
  have start : Navigable bare := by
    refine ⟨⟨rfl, fun owner present => ?_, fun outer inner nests => ?_⟩, .singleton _, List.nodup_nil⟩
    · obtain ⟨g, held⟩ := hasGraph_iff.mp present
      exact .inl (only owner g held).1
    · obtain ⟨g, held, n, member, -⟩ := nests
      rw [(only outer g held).2] at member
      cases member
  exact navigable_abides start (abides_foldl abides_ensureEntryIn _ bare)

theorem navigable_apply (coherent : Coherent none e) (navigable : Navigable e) (guided : Guided e edit) :
    Navigable (edit.apply e) := by
  cases edit with
  | createNode category name => exact navigable_createNode coherent navigable category name
  | removeNodes ids => exact navigable_removeNodes coherent navigable ids
  | layNode id layout => exact navigable_abides navigable (abides_editNode e id layout)
  | setPinValue pin v => exact navigable_abides navigable (abides_setPinValue e pin v)
  | createLink start finish => exact navigable_abides navigable (abides_createLinkIn e _ start finish)
  | removeLinks ids => exact navigable_abides navigable (abides_removeLinksIn e _ ids)
  | addProperty kind v =>
    exact navigable_abides navigable (abides_trans (abides_modifyProperties e kind _) (abides_invalidate _))
  | removeProperty kind name => exact (navigable_removeProperty_iff coherent navigable kind name).mpr guided
  | setPropertyValue kind name v => exact navigable_abides navigable (abides_setPropertyValue e kind name v)
  | renameProperty kind old new => exact navigable_abides navigable (abides_renameProperty e kind old new)
  | changePropertyType kind name v => exact navigable_abides navigable (abides_changePropertyType e kind name v)
  | spawnInput name => exact navigable_spawnInput navigable name
  | spawnLocalVariable name getter => exact navigable_spawnLocalVariable navigable name getter
  | createTransitionNode => exact navigable_createTransitionNode coherent navigable
  | createTransition start finish => exact navigable_createTransition coherent navigable start finish
  | promoteQuickState id => exact navigable_promoteQuickState coherent navigable id
  | ensureEntry => exact navigable_abides navigable (abides_ensureEntryIn e _)
  | ensureEntries => exact navigable_abides navigable (abides_foldl abides_ensureEntryIn _ e)
  | ensureSubGraph id =>
    change Navigable (e.ensureSubGraph id)
    rw [ensureSubGraph_housed navigable.housed]
    exact navigable
  | enterNode id =>
    have there : Navigable (e.setPath (some id)) :=
      navigable_setPath navigable (some id) (by rintro x ⟨⟩; exact guided)
    change Navigable ((e.setPath (some id)).ensureSubGraph id).invalidate
    rw [ensureSubGraph_housed there.housed]
    exact navigable_abides there (abides_invalidate _)
  | setPath target =>
    refine navigable_setPath navigable target ?_
    rintro id rfl
    exact guided
  | setSkeleton handle => exact navigable_abides navigable (abides_of_graphs rfl rfl)
  | setSettings settings => exact navigable_abides navigable (abides_of_graphs rfl rfl)
  | sort => exact navigable_abides navigable (abides_sort e)
  | save => exact navigable_abides navigable (abides_sort e)
  | compile session => exact navigable_abides navigable (abides_compile e session)

theorem navigable_reachable (reachable : Reachable Guided e) : Navigable e := by
  induction reachable with
  | start name self catalog settings drawn => exact navigable_start name self catalog settings drawn
  | step before may ih => exact navigable_apply (coherent_reachable before) ih may

/-- Careful callers stay where there is something: the path leads down through graphs
that exist, and graphs belong together with the nodes that own them. Removing a property
is the one edit after which that may fail, and it does if a node of the path is gone. -/
theorem navigation_consistent (reachable : Reachable Guided e) : Navigable e ∧
    ∀ kind name, Navigable (e.removeProperty kind name).1 ↔
      ∀ id ∈ e.path, ((e.removeProperty kind name).1.asset.findNode? id).isSome = true :=
  have navigable := navigable_reachable reachable
  ⟨navigable, navigable_removeProperty_iff (coherent_reachable reachable) navigable⟩

/-- A transition is entered that lies beside an input of the asset. -/
def insideTransition : List Edit :=
  [.addProperty .input (.int64 0), .createNode "Animation" "State Machine", .enterNode ⟨2⟩, .spawnInput "New Input",
    .createTransitionNode, .enterNode ⟨7⟩]

/-- The editor after these edits. -/
def insideEditor : Editor := insideTransition.foldl Edit.apply (.ofAsset (.ofName "Wave" ⟨1⟩) .empty .default 1)

/-- The transition goes with the input, and the path leads nowhere. -/
theorem transition_lost : Reachable Guided insideEditor ∧
    ¬Navigable (insideEditor.removeProperty .input "New Input").1 := by
  have run : Run Guided (.ofAsset (.ofName "Wave" ⟨1⟩) .empty .default 1) insideTransition := by decide +kernel
  have reachable : Reachable Guided insideEditor := reachable_of_run (.start "Wave" ⟨1⟩ .empty .default 0) run
  have gone : ¬∀ id ∈ insideEditor.path,
      ((insideEditor.removeProperty .input "New Input").1.asset.findNode? id).isSome = true := by decide +kernel
  exact ⟨reachable, fun navigable => gone (((navigation_consistent reachable).2 .input "New Input").mp navigable)⟩

end PoseGraph.NavigationRuns
