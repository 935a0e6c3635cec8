import PoseGraph.Proofs.EntryStates
import PoseGraph.Proofs.PropertyNames

/-! State machines begin in a state, whatever is done to them, as long as nodes of
properties stay outside. One of these that is placed in a machine can get the mark
instead, and a node of a variable can be taken for a machine by its name. -/
namespace PoseGraph.EntryRuns
open AssetOrder EditOutcomes EditRuns Editor EditorCoherence EditorSoundness EntryStates LinkEdits NodeCraft NodeEdits NodeFaces
  PlacingEdits PropertyEdits PropertyKeys PropertyNames ReachableEditors StateEdits StatePromotion

variable {visitors : Prop} {e f : Editor} {g h : SubGraph} {m n x state quick : Node} {owner id place : NodeId}
variable {except : Option NodeId} {edit : Edit} {kind : PropertyKind} {name old new : String} {ids : List NodeId}

/-! ## New nodes -/

/-- Drawing identities changes no node. -/
theorem faces_drawn (next : Nat) : faces (drawn e next) = faces e := faces_of_graphs rfl

theorem led_drawn (led : Led visitors except e) (next : Nat) : Led visitors except (drawn e next) :=
  led_sameFaces led fun _ _ => by rw [faces_drawn]

theorem led_createNode (coherent : Coherent none e) (led : Led visitors none e) (category name : String)
    (vacant : Vacant e (e.createNode category name).1) : Led visitors none (e.createNode category name).1 := by
  rcases createNode_cases e category name with same | ⟨n, f, spawn, same⟩
  · rw [same]
    exact led
  · rw [same] at vacant ⊢
    have spawned := spawn_spec coherent spawn
    have fitting := spawn_fitting spawn
    have owners : f.activeOwner = e.activeOwner := by rw [spawned.rest]; rfl
    have waits : faces e n.id = [] := by
      rw [faces, graphOf_missing]
      · rfl
      · refine vacant_graph vacant (NodeFrames.spawn_shaped spawn).2 (Nat.lt_of_lt_of_le ?_ (draws_addNode f f.activeOwner n))
        exact (spawned.newcomer.identities.drawn _ List.mem_cons_self).2
    have arrives : Arrives visitors e e.activeOwner n := by
      refine ⟨fitting.unmarked, fun kind => .inl (fitting.owns kind), fun place m inside machine here state => .inl ⟨?_, fitting.foreign⟩,
        fun machine => ⟨fitting_kin fitting machine, waits⟩⟩
      refine fitting.native ?_ state
      rw [graphKind, ← here, machine_owner coherent inside machine]
      rfl
    rw [owners]
    have after := coherent_spawned coherent spawned
    rw [spawned.rest] at after ⊢
    exact led_addNodeTo after (led_drawn led _) (spawned.rest ▸ spawned.newcomer) (arrives_faces arrives (faces_drawn _))
      (.inr spawned.plain)

/-- A node built by hand that is no machine. -/
theorem led_adopt (coherent : Coherent none e) (led : Led visitors none e) (crafted : Crafted n) (unmarked : n.isEntry = false)
    (proper : Proper visitors n) (plain : ¬IsMachine n) (joined : owner.value < e.nextId ∨ n.kind ≠ .transition)
    (kin : ∀ place, ∀ m ∈ faces e place, IsMachine m → m.id = owner → n.isState = true → Kin visitors n) :
    Led visitors none ((e.adopt n).2.addNode owner (e.adopt n).1) := by
  have more : e.nextId ≤ (n.withFreshIds (e.nextId + n.pins.length)).2 := by
    change e.nextId ≤ e.nextId + n.pins.length + 1 + n.pins.length
    omega
  have arrives : Arrives visitors e owner (n.withFreshIds (e.nextId + n.pins.length)).1 :=
    ⟨unmarked, proper, kin, fun machine => absurd machine plain⟩
  exact led_addNodeTo (coherent_drawn coherent more) (led_drawn led _)
    (newcomer_withFreshIds coherent (Nat.le_add_right _ _) crafted) (arrives_faces arrives (faces_drawn _))
    (joined.imp_left fun before => Nat.lt_of_lt_of_le before more)

/-- The node of a property. In a machine it is a visitor. -/
theorem led_adoptProperty (kind : PropertyKind) (coherent : Coherent none e) (led : Led visitors none e)
    (category : n.category = kind.token) (visits : Visitor n) (simple : n.type = .simple) (unmarked : n.isEntry = false) (named : n.name ≠ "Output")
    (machine : n.name = "State Machine" → visitors ∧ n.category = localVariableCategory)
    (may : e.asset.ownerKind? owner = some .stateMachine → visitors) :
    Led visitors none ((e.adopt n).2.addNode owner (e.adopt n).1) := by
  obtain ⟨crafted, ordinary⟩ := crafted_property kind category simple named
  have owns : ¬IsMachine n := by
    rintro ⟨owns, -⟩
    rw [Node.isSubroutine, simple] at owns
    cases owns
  refine led_adopt coherent led crafted unmarked (fun kind => .inr (machine (machine_name kind))) owns (.inr ordinary) ?_
  exact fun place m inside machine here _ => .inr ⟨may (here ▸ machine_owner coherent inside machine), visits⟩

theorem led_spawnInput (coherent : Coherent none e) (led : Led visitors none e) (name : String)
    (may : e.asset.ownerKind? e.activeOwner = some .stateMachine → visitors) : Led visitors none (e.spawnInput name).1 := by
  rw [spawnInput]
  split
  · exact led
  · exact led_adoptProperty .input coherent led rfl (.inl rfl) rfl rfl (show PropertyKind.input.token ≠ "Output" by decide)
      (fun named => absurd (show PropertyKind.input.token = "State Machine" from named) (by decide)) may

theorem led_spawnLocalVariable (coherent : Coherent none e) (led : Led visitors none e) (name : String) (getter : Bool)
    (named : "State Machine" ∈ namesOf e .localVariable → visitors)
    (may : e.asset.ownerKind? e.activeOwner = some .stateMachine → visitors) :
    Led visitors none (e.spawnLocalVariable name getter).1 := by
  rcases spawnLocalVariable_cases e name getter with same | ⟨v, inputs, outputs, n, found, -, rfl, result⟩
  · rw [same]
    exact led
  · have known : name ∈ namesOf e .localVariable := get_mem_keys found
    have plain : name ≠ "Output" := by
      rintro rfl
      exact coherent.named known
    have machine (same : name = "State Machine") : visitors := named (same ▸ known)
    rw [result]
    exact led_adoptProperty .localVariable coherent led rfl (.inr rfl) rfl rfl plain (fun same => ⟨machine same, rfl⟩) may

theorem led_createTransitionNode (coherent : Coherent none e) (led : Led visitors none e) :
    Led visitors none e.createTransitionNode.1 := by
  rw [createTransitionNode]
  split
  · exact led
  · rename_i owner active
    have kind : Template.transition.kind = .transition := by decide
    have idle : Template.transition.isState ≠ true := by decide
    refine led_adopt coherent led (by decide) rfl (fun machine => ?_) (fun machine => ?_)
      (.inl (owner_drawn coherent (activeMachine_spec active))) fun _ _ _ _ _ state => absurd state idle
    · rw [kind] at machine
      cases machine
    · exact absurd machine.2 (by decide)

theorem led_createTransition (coherent : Coherent none e) (led : Led visitors none e) (start finish : NodeId) :
    Led visitors none (e.createTransition start finish).1 := by
  rcases createTransition_cases e start finish with same | ⟨owner, g, a, b, f, transition, joining⟩
  · rw [same]
    exact led
  · have made := led_createTransitionNode coherent led
    have whole := coherent_createTransitionNode coherent
    rw [joining.created] at made whole
    rw [joining.result]
    exact led_sameFaces (led_ensureSubGraph whole made transition) (sameFaces_joinTransition _ _ _ _ _ _)

/-! ## States from quick states -/

theorem succeeds_promoted (crafted : Crafted quick) (kind : quick.kind = .quickState) (made : Crafted (stateFromQuick state quick))
    (shape : StateNode (stateFromQuick state quick)) : Succeeds visitors (face quick) (face (stateFromQuick state quick)) := by
  have stateKind : (stateFromQuick state quick).kind = .state := stateNode_kind shape
  refine ⟨rfl, ?_, fun machine => ?_, fun _ machine => ?_, fun _ => .inl ⟨.inl stateKind, ?_⟩⟩
  · exact (stateKind_isState made (.inl stateKind)).trans (stateKind_isState crafted (.inr (.inl kind))).symm
  · exact absurd (stateKind.symm.trans machine.2) (by decide)
  · exact absurd (stateKind.symm.trans machine) (by decide)
  · rintro (input | variable_)
    · exact absurd (shape.category.symm.trans input) (by decide)
    · exact absurd (shape.category.symm.trans variable_) (by decide)

theorem led_promoted (coherent : Coherent none e) (led : Led visitors none e)
    (spawned : Spawned e f stateMachineCategory "State" state) (held : e.asset.graph? owner = some g)
    (found : g.node? id = some quick) (kind : quick.kind = .quickState) :
    Led visitors none (f.modifyGraph owner (promoted · id state quick)) := by
  obtain ⟨before, after, split, replaced⟩ := promoted_nodes state found
  have crafted : Crafted quick := graph_crafted coherent held quick (List.mem_of_find?_eq_some found)
  have shape : StateNode state := ⟨spawned.under, spawned.named⟩
  have succeeds : Succeeds visitors (face quick) (face (stateFromQuick state quick)) :=
    succeeds_promoted crafted kind (stateFromQuick_crafted spawned.newcomer.crafted shape) (stateNode_stateFromQuick quick shape)
  rw [spawned.rest]
  have look (place : NodeId) : faces ((drawn e f.nextId).modifyGraph owner (promoted · id state quick)) place =
      if place = owner then before.map face ++ face (stateFromQuick state quick) :: after.map face else faces e place := by
    rw [faces_modifyGraph (e := drawn e f.nextId) held, replaced, List.map_append, List.map_cons, faces_drawn]
  have was : faces e owner = before.map face ++ face quick :: after.map face := by
    rw [faces, graphOf_eq held, split, List.map_append, List.map_cons]
  refine led_faithful led (fun place x inside => ?_) fun place some_ => ?_
  · rw [look] at inside
    split at inside
    · rename_i here
      rw [here, was]
      simp only [List.mem_append, List.mem_cons] at inside ⊢
      rcases inside with front | rfl | back
      · exact ⟨x, .inl front, succeeds_refl visitors x, rfl⟩
      · exact ⟨face quick, .inr (.inl rfl), succeeds, rfl⟩
      · exact ⟨x, .inr (.inr back), succeeds_refl visitors x, rfl⟩
    · exact ⟨x, inside, succeeds_refl visitors x, rfl⟩
  · obtain ⟨y, inside, marked⟩ := some_
    rw [look]
    split
    · rename_i here
      rw [here, was] at inside
      simp only [List.mem_append, List.mem_cons] at inside ⊢
      rcases inside with front | rfl | back
      · exact ⟨y, .inl front, marked⟩
      · exact ⟨face (stateFromQuick state quick), .inr (.inl rfl), marked⟩
      · exact ⟨y, .inr (.inr back), marked⟩
    · exact ⟨y, inside, marked⟩

theorem face_loaded (clip : Option Value) (player : Node) : face (loaded clip player) = face player := by
  rw [loaded.eq_def]
  split <;> rfl

theorem led_playClip (coherent : Coherent none e) (led : Led visitors none e) (member : n ∈ allNodes e.asset)
    (plain : ¬IsMachine n) (clip : Option Value) : Led visitors none (e.playClip n.id clip).1 := by
  rcases playClip_cases e n.id clip with same | ⟨player, f, spawn, outcome⟩
  · rw [same]
    exact led
  have still : faces f = faces e := faces_of_graphs (by rw [spawn_asset spawn])
  have after : Led visitors none f := led_sameFaces led fun id x => by rw [still]
  rcases outcome with same | ⟨pose, sink, playing⟩
  · rw [same]
    exact after
  have fitting := spawn_fitting spawn
  have spawned := spawn_spec coherent spawn
  have other := other_machine coherent member plain
  have kind : (loaded clip player).kind ≠ .stateMachine := by
    intro machine
    have player_ : player.kind = .stateMachine := (congrArg Node.kind (face_loaded clip player)).symm.trans machine
    exact absurd (spawned.named.symm.trans (machine_name player_)) (by decide)
  have arrives : Arrives visitors e n.id (loaded clip player) :=
    ⟨(congrArg Node.isEntry (face_loaded clip player) : _).trans fitting.unmarked, fun machine => absurd machine kind,
      fun place m inside owns here => absurd here (other place m inside owns), fun machine => absurd machine.2 kind⟩
  obtain ⟨g, held, -⟩ := Option.bind_eq_some_iff.mp playing.input
  have added := led_addNode after (arrives_faces arrives still) held
    (.inr ⟨fun machine => kind machine.2, by rw [still]; exact other⟩)
  have linked := led_sameFaces added (sameFaces_createLinkIn _ n.id pose.id sink)
  obtain ⟨_, rfl, same | ⟨same, -⟩⟩ := playing.result
  · rw [same]
    exact led_invalidate linked
  · rw [same]
    exact linked

theorem led_promoteQuickState (coherent : Coherent none e) (led : Led visitors none e) (id : NodeId) :
    Led visitors none (e.promoteQuickState id).1 := by
  rcases promoteQuickState_cases e id with same | ⟨owner, quick, state, f, promotion⟩
  · rw [same]
    exact led
  · have spawned := spawn_spec coherent promotion.spawn
    obtain ⟨g, held, node⟩ := Option.bind_eq_some_iff.mp promotion.found
    have whole := coherent_promoted coherent spawned promotion.found promotion.kind
    have replaced := led_promoted coherent led spawned held node promotion.kind
    obtain ⟨m, inside, rfl, kind, -⟩ := promotion.stands coherent
    have plain : ¬IsMachine m := fun machine => absurd (kind.symm.trans machine.2) (by decide)
    rw [promotion.result]
    exact led_playClip (coherent_ensureSubGraph whole m.id) (led_ensureSubGraph whole replaced m.id) inside plain _

/-! ## Properties -/

theorem led_removeProperty (coherent : Coherent none e) (led : Led visitors none e) (kind : PropertyKind) (name : String) :
    Led visitors none (e.removeProperty kind name).1 := by
  have fold (groups : List (NodeId × List NodeId)) (e : Editor) (coherent : Coherent none e) (led : Led visitors none e) :
      Led visitors none (groups.foldl (fun e group => (e.removeNodesIn group.1 group.2).1) e) := by
    induction groups generalizing e with
    | nil => exact led
    | cons group groups ih =>
      exact ih _ (coherent_removeNodesIn coherent group.1 group.2) (led_removeNodesIn coherent led group.1 group.2)
  rw [removeProperty]
  split
  · exact led_invalidate (fold _ _ (coherent_eraseProperty coherent kind name)
      (led_sameFaces led (sameFaces_modifyProperties e kind _)))
  · exact led

/-- A variable that gets another name. -/
theorem succeeds_renamed (crafted : Crafted n) (category : n.category = localVariableCategory)
    (may : new = "State Machine" → visitors) : Succeeds visitors (face n) { face n with name := new } := by
  have state (k : Node) (same : k.category = localVariableCategory) : k.isState = !k.isComment := by
    have plain : k.kind ≠ .transition := fun transition =>
      absurd (same.symm.trans (transition_iff.mp transition).1) (by decide)
    rw [Node.isState, bne_iff_ne.mpr plain, Bool.and_true]
  refine ⟨rfl, ?_, fun machine => ?_, fun _ machine => .inr ⟨may (machine_name machine), category⟩, fun kin => ?_⟩
  · exact (state { face n with name := new } category).trans (state (face n) category).symm
  · exact absurd category (crafted.ordinary (.inr machine.1))
  · rcases kin with ⟨-, foreign⟩ | visits
    · exact absurd (.inr category) foreign
    · exact .inr visits

theorem face_renameProperty (g : SubGraph) (old new : String) (ids : List NodeId) :
    (g.renameProperty .localVariable old new ids).nodes.map face =
      g.nodes.map fun n => if ids.contains n.id then { face n with name := new } else face n := by
  rw [SubGraph.renameProperty, SubGraph.mapNodes, List.map_map]
  refine List.map_congr_left fun n _ => ?_
  rw [Function.comp_apply]
  split <;> rfl

theorem led_renamed (coherent : Coherent none e) (led : Led visitors none e) (may : new = "State Machine" → visitors)
    (category : ∀ g, e.asset.graph? owner = some g → ∀ n ∈ g.nodes, n.id ∈ ids → n.category = localVariableCategory) :
    Led visitors none (e.modifyGraph owner (·.renameProperty .localVariable old new ids)) := by
  cases held : e.asset.graph? owner with
  | none =>
    rw [modifyGraph_absent held]
    exact led
  | some g =>
    have look (id : NodeId) : faces (e.modifyGraph owner (·.renameProperty .localVariable old new ids)) id =
        if id = owner then g.nodes.map fun n => if ids.contains n.id then { face n with name := new } else face n
        else faces e id := by
      rw [faces_modifyGraph held, face_renameProperty]
    have was : faces e owner = g.nodes.map face := by rw [faces, graphOf_eq held]
    refine led_faithful led (fun id x inside => ?_) fun id some_ => ?_
    · rw [look] at inside
      split at inside
      · rename_i here
        obtain ⟨n, member, rfl⟩ := List.mem_map.mp inside
        refine ⟨face n, by rw [here, was]; exact List.mem_map_of_mem member, ?_⟩
        split
        · rename_i listed
          exact ⟨succeeds_renamed (graph_crafted coherent held n member) (category g held n member (by simpa using listed)) may, rfl⟩
        · exact ⟨succeeds_refl visitors _, rfl⟩
      · exact ⟨x, inside, succeeds_refl visitors x, rfl⟩
    · obtain ⟨y, inside, marked⟩ := some_
      rw [look]
      split
      · rename_i here
        rw [here, was] at inside
        obtain ⟨n, member, rfl⟩ := List.mem_map.mp inside
        refine ⟨_, List.mem_map_of_mem member, ?_⟩
        split <;> exact marked
      · exact ⟨y, inside, marked⟩

theorem led_renameProperty (coherent : Coherent none e) (led : Led visitors none e) (kind : PropertyKind) (old new : String)
    (may : kind = .localVariable → new = "State Machine" → visitors) :
    Led visitors none (e.renameProperty kind old new).1 := by
  have fold (groups : List (NodeId × List NodeId)) (free : kind = .localVariable → new ≠ "Output") (e : Editor)
      (coherent : Coherent none e) (led : Led visitors none e) (belongs : Belongs kind.token groups e.asset) :
      Led visitors none (groups.foldl (fun e group => e.modifyGraph group.1 (·.renameProperty kind old new group.2)) e) := by
    induction groups generalizing e with
    | nil => exact led
    | cons group groups ih =>
      have revised (g : SubGraph) (held : e.asset.graph? group.1 = some g) : Revised g (g.renameProperty kind old new group.2) :=
        revised_renameProperty free (belongs group List.mem_cons_self g held)
      refine ih _ (coherent_revise coherent revised) ?_
        (belongs_modifyGraph (fun other listed => belongs other (List.mem_cons_of_mem _ listed)) revised)
      cases kind with
      | localVariable => exact led_renamed coherent led (may rfl) (belongs group List.mem_cons_self)
      | input => exact led_sameFaces led (sameFaces_modifyGraph fun g => .of_eq (faces_mapNodes (by exact fun _ => rfl) g _))
      | output => exact led_sameFaces led (sameFaces_modifyGraph fun g => .of_eq (faces_mapNodes (by exact fun _ => rfl) g _))
  rcases renameProperty_cases e kind old new with same | ⟨v, _, -, valid, -, rfl, result⟩
  · rw [same]
    exact led
  · have free : new ≠ "Output" := valid_name_free valid (by decide +kernel)
    have belongs := propertyNodes_belong (identified_of_coherent coherent) kind old
    rw [result]
    refine led_invalidate (fold _ (fun _ => free) _ (coherent_modifyProperties coherent ?_)
      (led_sameFaces led (sameFaces_modifyProperties e kind _)) ?_)
    · rintro rfl
      rw [mem_keys_sorted, mem_keys_insert, not_or]
      exact ⟨fun member => coherent.named (mem_keys_erase member), free.symm⟩
    · cases kind <;> exact belongs

/-! ## Visitors that come first -/

/-- The first state of a graph gets the mark. -/
theorem ensureEntry_newcomer (plain : ∀ k ∈ g.nodes, k.isEntry = false) (empty : ∀ k ∈ g.nodes, k.isState = false)
    (state : n.isState = true) (unmarked : n.isEntry = false) :
    ∃ k ∈ (g.addNode n).ensureEntry.nodes, k.id = n.id ∧ k.isEntry = true := by
  have joined {k : Node} (member : k ∈ (g.addNode n).nodes) : k ∈ g.nodes ∨ k = n :=
    (List.mem_append.mp member).imp_right List.mem_singleton.mp
  rcases ensureEntry_cases (g.addNode n) with
    ⟨-, ⟨k, member, marked⟩ | stateless⟩ | ⟨before, k, after, split, stands, -, marked⟩
  · rcases joined member with old | rfl
    · rw [plain k old] at marked
      cases marked
    · rw [unmarked] at marked
      cases marked
  · exact absurd (stateless n (List.mem_append_right _ List.mem_cons_self)) (by rw [state]; decide)
  · refine ⟨{ k with isEntry := true }, by rw [marked]; exact List.mem_append_right _ List.mem_cons_self, ?_, rfl⟩
    have member : k ∈ (g.addNode n).nodes := by
      rw [split]
      exact List.mem_append_right _ List.mem_cons_self
    rcases joined member with old | rfl
    · exact absurd (empty k old) (by rw [stands]; decide)
    · rfl

/-- A machine is still one when a node has been placed in it. -/
theorem ownerKind_placed (coherent : Coherent except (e.modifyAsset fun a => (a.ensureGraph owner).modifyGraph owner (·.addNode n)))
    (owned : e.asset.ownerKind? owner = some .stateMachine) :
    (e.modifyAsset fun a => (a.ensureGraph owner).modifyGraph owner (·.addNode n)).asset.ownerKind? owner = some .stateMachine := by
  obtain ⟨-, t, member, rfl, machine⟩ := ownerKind_origin (rearranged_refl _) owned
  obtain ⟨outer, g, graph, here⟩ := mem_allNodes.mp member
  have still : t ∈ allNodes (e.modifyAsset fun a => (a.ensureGraph t.id).modifyGraph t.id (·.addNode n)).asset := by
    by_cases same : outer = t.id
    · subst same
      refine mem_allNodes.mpr ⟨t.id, g.addNode n, ?_, List.mem_append_left _ here⟩
      change ((e.asset.ensureGraph t.id).modifyGraph t.id (·.addNode n)).graph? t.id = _
      rw [graph_modifyGraph, if_pos rfl, graph_ensureGraph, if_pos rfl, graph]
      rfl
    · refine mem_allNodes.mpr ⟨outer, g, ?_, here⟩
      change ((e.asset.ensureGraph t.id).modifyGraph t.id (·.addNode n)).graph? outer = _
      rw [graph_modifyGraph, if_neg same, graph_ensureGraph, if_neg same, graph]
  rw [Asset.ownerKind?, node_nested coherent still, (findNode_eq_some_iff (identified_of_coherent coherent)).mpr ⟨still, rfl⟩]
  exact congrArg some machine

/-- A node that counts as a state gets the mark of a machine that has none. -/
theorem first_marked (coherent : Coherent none e) (led : Led visitors none e) (newcomer : Newcomer e n)
    (joined : owner.value < e.nextId ∨ n.kind ≠ .transition) (owned : e.asset.ownerKind? owner = some .stateMachine)
    (empty : ∀ k ∈ (graphOf e.asset owner).nodes, k.isState = false) (state : n.isState = true)
    (simple : n.isSubroutine = false) (unmarked : n.isEntry = false) :
    ∃ k ∈ (graphOf (e.addNode owner n).asset owner).nodes, k.id = n.id ∧ k.isEntry = true := by
  let placed := (e.modifyAsset fun a => (a.ensureGraph owner).modifyGraph owner (·.addNode n)).invalidate
  have held : placed.asset.graph? owner = some ((graphOf e.asset owner).addNode n) := by
    change ((e.asset.ensureGraph owner).modifyGraph owner (·.addNode n)).graph? owner = _
    rw [graph_modifyGraph, if_pos rfl, graph_ensureGraph, if_pos rfl]
    rfl
  have marks : ∀ k ∈ (graphOf e.asset owner).nodes, k.isEntry = false := by
    intro k member
    by_contra marked
    rw [Bool.not_eq_false] at marked
    have states := led.states owner (face k) (List.mem_map_of_mem member) marked
    exact absurd (empty k member) (by rw [show k.isState = true from states]; decide)
  have added : e.addNode owner n = placed.ensureEntryIn owner := by
    rw [addNode, simple]
    exact if_pos (ownerKind_placed (coherent_placed coherent newcomer joined) owned)
  have graph : graphOf (e.addNode owner n).asset owner = ((graphOf e.asset owner).addNode n).ensureEntry := by
    rw [added, ensureEntryIn]
    exact graphOf_eq (graph_modifyGraph_self held)
  rw [graph]
  exact ensureEntry_newcomer marks empty state unmarked

/-- An operation that places a node in the active graph gives it the mark if that is a
machine without states. -/
def Takes (e : Editor) (placed : Editor × Option NodeId) : Prop :=
  ∀ id, placed.2 = some id → e.asset.ownerKind? e.activeOwner = some .stateMachine →
    (∀ k ∈ (graphOf e.asset e.activeOwner).nodes, k.isState = false) →
      ∃ k ∈ (graphOf placed.1.asset e.activeOwner).nodes, k.id = id ∧ k.isEntry = true

theorem takes_adoptProperty (kind : PropertyKind) (coherent : Coherent none e) (led : Led visitors none e)
    (category : n.category = kind.token) (simple : n.type = .simple) (unmarked : n.isEntry = false) (named : n.name ≠ "Output") :
    Takes e ((e.adopt n).2.addNode e.activeOwner (e.adopt n).1, some (e.adopt n).1.id) := by
  rintro id ⟨⟩ owned empty
  obtain ⟨crafted, ordinary⟩ := crafted_property kind category simple named
  have more : e.nextId ≤ (n.withFreshIds (e.nextId + n.pins.length)).2 := by
    change e.nextId ≤ e.nextId + n.pins.length + 1 + n.pins.length
    omega
  have state : n.isState = true := by
    rw [Node.isState, bne_iff_ne.mpr ordinary, Node.isComment, simple]
    rfl
  have whole : n.isSubroutine = false := by
    rw [Node.isSubroutine, simple]
    rfl
  exact first_marked (e := (e.adopt n).2) (coherent_drawn coherent more) (led_drawn led _)
    (newcomer_withFreshIds coherent (Nat.le_add_right _ _) crafted) (.inr ordinary) owned empty state whole unmarked

theorem takes_spawnInput (coherent : Coherent none e) (led : Led visitors none e) (name : String) : Takes e (e.spawnInput name) := by
  rw [spawnInput]
  split
  · rintro id ⟨⟩
  · exact takes_adoptProperty .input coherent led rfl rfl rfl (show PropertyKind.input.token ≠ "Output" by decide)

theorem takes_spawnLocalVariable (coherent : Coherent none e) (led : Led visitors none e) (name : String) (getter : Bool) :
    Takes e (e.spawnLocalVariable name getter) := by
  rcases spawnLocalVariable_cases e name getter with same | ⟨v, inputs, outputs, n, found, -, rfl, result⟩
  · rw [same]
    rintro id ⟨⟩
  · have plain : name ≠ "Output" := by
      rintro rfl
      exact coherent.named (get_mem_keys found)
    rw [result]
    exact takes_adoptProperty .localVariable coherent led rfl rfl rfl plain

/-! ## Runs -/

/-- Edits by which the node of a property comes into a machine, or is taken for one. -/
def Visits (e : Editor) : Edit → Prop
  | .spawnInput _ | .spawnLocalVariable _ _ => e.asset.ownerKind? e.activeOwner = some .stateMachine
  | .renameProperty .localVariable _ new => new = "State Machine"
  | _ => False

instance : Decidable (Visits e edit) := by
  unfold Visits
  split <;> infer_instance

/-- Nodes of properties stay out of machines unless they may visit them, and what is drawn for
an edit is new. -/
def Settled (visitors : Prop) (e : Editor) (edit : Edit) : Prop := (Visits e edit → visitors) ∧ Vacant e (edit.apply e)

instance [Decidable visitors] : Decidable (Settled visitors e edit) :=
  inferInstanceAs (Decidable (_ ∧ ∀ id ∈ e.asset.owners, id.value < e.nextId ∨ (edit.apply e).nextId ≤ id.value))

/-- A variable is called like a machine only where that is let pass. -/
theorem named_apply (named : "State Machine" ∈ namesOf e .localVariable → visitors) (settled : Visits e edit → visitors) :
    "State Machine" ∈ namesOf (edit.apply e) .localVariable → visitors := by
  cases edit with
  | addProperty kind v =>
    intro known
    rcases (mem_keys_addProperty v).mp known with before | ⟨rfl, same⟩
    · exact named before
    · rcases uniqueName_stock (e.asset.properties .localVariable) .localVariable with stock | ⟨k, stock⟩
      · exact absurd (same.trans stock) (by decide)
      · refine absurd (congrArg (fun s => s.toList.head?) (same.trans stock)) ?_
        rw [Properties.suffixed, String.toList_append, String.toList_append, List.append_assoc,
          show PropertyKind.localVariable.defaultName.toList = 'N' :: "ew Variable".toList by decide, List.cons_append, List.head?_cons]
        decide
  | removeProperty kind name => exact fun known => named (mem_keys_removeProperty.mp known).1
  | setPropertyValue kind name v => exact fun known => named ((mem_keys_setPropertyValue v).mp known)
  | changePropertyType kind name v => exact fun known => named ((mem_keys_changePropertyType v).mp known)
  | renameProperty kind old new =>
    intro known
    by_cases different : old = new
    · rw [Edit.apply, different, renameProperty, if_pos rfl] at known
      exact named known
    · cases accepted : (e.renameProperty kind old new).2 with
      | false =>
        rw [Edit.apply, renameProperty_refused accepted] at known
        exact named known
      | true =>
        have keys := (mem_keys_renameProperty different accepted).mp
          (show "State Machine" ∈ ((e.renameProperty kind old new).1.asset.properties .localVariable).keys from known)
        split at keys
        · rename_i same
          subst same
          exact keys.elim (fun before => named before.1) fun new => settled new.symm
        · exact named keys
  | _ =>
    rw [namesOf, apply_properties rfl]
    exact named

theorem led_apply (coherent : Coherent none e) (led : Led visitors none e)
    (named : "State Machine" ∈ namesOf e .localVariable → visitors) (settled : Settled visitors e edit) :
    Led visitors none (edit.apply e) := by
  obtain ⟨may, vacant⟩ := settled
  cases edit with
  | createNode category name => exact led_createNode coherent led category name vacant
  | removeNodes ids => exact led_removeNodesIn coherent led _ ids
  | layNode id layout => exact led_sameFaces led (sameFaces_editNode e id layout)
  | setPinValue pin v => exact led_sameFaces led (sameFaces_setPinValue e pin v)
  | createLink start finish => exact led_sameFaces led (sameFaces_createLinkIn e _ start finish)
  | removeLinks ids => exact led_sameFaces led (sameFaces_removeLinksIn e _ ids)
  | addProperty kind v => exact led_invalidate (led_sameFaces led (sameFaces_modifyProperties e kind _))
  | removeProperty kind name => exact led_removeProperty coherent led kind name
  | setPropertyValue kind name v => exact led_sameFaces led (sameFaces_setPropertyValue e kind name v)
  | renameProperty kind old new =>
    refine led_renameProperty coherent led kind old new ?_
    rintro rfl same
    exact may same
  | changePropertyType kind name v => exact led_sameFaces led (sameFaces_changePropertyType e kind name v)
  | spawnInput name => exact led_spawnInput coherent led name may
  | spawnLocalVariable name getter => exact led_spawnLocalVariable coherent led name getter named may
  | createTransitionNode => exact led_createTransitionNode coherent led
  | createTransition start finish => exact led_createTransition coherent led start finish
  | promoteQuickState id => exact led_promoteQuickState coherent led id
  | ensureEntry => exact led_ensureEntryIn led _
  | ensureEntries => exact led_ensureEntries led
  | ensureSubGraph id => exact led_ensureSubGraph coherent led id
  | enterNode id =>
    have there : Led visitors none (e.setPath (some id)) := led_sameFaces led (sameFaces_of_graphs rfl)
    exact led_invalidate (led_ensureSubGraph (coherent_setPath coherent (some id)) there id)
  | setPath target =>
    refine led_sameFaces led (sameFaces_of_graphs ?_)
    rw [Edit.apply, setPath.eq_def]
    split <;> rfl
  | setSkeleton handle => exact led_sameFaces led (sameFaces_of_graphs rfl)
  | setSettings settings => exact led_sameFaces led (sameFaces_of_graphs rfl)
  | sort => exact led_sameFaces led (sameFaces_sort e)
  | save => exact led_sameFaces led (sameFaces_sort e)
  | compile session => exact led_sameFaces led (sameFaces_compile e session)

theorem led_start (name : String) (self : NodeId) (catalog : Catalog) (settings : Settings) (drawn : Nat) :
    Led visitors none (.ofAsset (.ofName name self) catalog settings (drawn + 1)) := by
  have none (e : Editor) (blank : ∀ owner, faces e owner = []) : Led visitors none e := by
    constructor <;> intro owner x inside <;> rw [blank] at inside <;> cases inside
  refine led_ensureEntries (none _ fun owner => ?_)
  rw [faces, graphOf_ensureGraph, graphOf_ofName]
  rfl

theorem led_reachable (reachable : Reachable (Settled visitors) e) :
    Led visitors none e ∧ ("State Machine" ∈ namesOf e .localVariable → visitors) := by
  induction reachable with
  | start name self catalog settings drawn =>
    refine ⟨led_start name self catalog settings drawn, fun known => ?_⟩
    rw [namesOf, show (Editor.ofAsset (.ofName name self) catalog settings (drawn + 1)).asset.properties =
      (Asset.ofName name self).properties from (ensureEntries_properties _).trans (ensureGraph_properties _ _)] at known
    cases known
  | step before may ih =>
    exact ⟨led_apply (coherent_reachable before) ih.1 ih.2 may, named_apply ih.2 may.1⟩

/-- A machine with states has one marked node, and that is a state, over all runs that keep
nodes of properties out of machines. Over other runs such a node may bear the mark instead,
and it does where it is placed in a machine without states; and a node of a variable may be
taken for a machine. -/
theorem entry_states_exact (visitors : Prop) (reachable : Reachable (Settled visitors) e) :
    (∀ place g m h, e.asset.graph? place = some g → m ∈ g.nodes → m.kind = .stateMachine → e.asset.graph? m.id = some h →
      (∃ x ∈ h.nodes, StateKind x) →
      (∃ n, h.nodes.filter Node.isEntry = [n] ∧ (StateKind n ∨ visitors ∧ Visitor n)) ∨
        visitors ∧ m.category = localVariableCategory) ∧
    (∀ name, Takes e (e.spawnInput name)) ∧ ∀ name getter, Takes e (e.spawnLocalVariable name getter) := by
  have coherent := coherent_reachable reachable
  have led := (led_reachable reachable).1
  refine ⟨fun place g m h inPlace member kind held some_ => ?_, takes_spawnInput coherent led, takes_spawnLocalVariable coherent led⟩
  obtain ⟨x, inside, states⟩ := some_
  rcases led.proper place (face m) (mem_faces inPlace member) kind with owns | variable_
  · refine .inl ?_
    have machine : IsMachine (face m) := ⟨owns, kind⟩
    have state : x.isState = true := stateKind_isState (graph_crafted coherent held x inside) states
    obtain ⟨y, inY, marked⟩ := led.led place (face m) (mem_faces inPlace member) machine (by simp) (face x) (mem_faces held inside) state
    have inH := inY
    rw [faces, show graphOf e.asset (face m).id = h from graphOf_eq held] at inH
    obtain ⟨n, here, rfl⟩ := List.mem_map.mp inH
    have unique := (identified_unique (identified_of_coherent coherent) held).nodes
    refine ⟨n, ?_, ?_⟩
    · have only (k : Node) (listed : k ∈ h.nodes.filter Node.isEntry) : k = n := by
        obtain ⟨also, mark⟩ := List.mem_filter.mp listed
        exact List.inj_on_of_nodup_map unique also here
          (led.single m.id (face k) (mem_faces held also) (face n) (mem_faces held here) mark marked)
      have listed : n ∈ h.nodes.filter Node.isEntry := List.mem_filter.mpr ⟨here, marked⟩
      exact List.perm_singleton.mp ((List.perm_ext_iff_of_nodup (unique.of_map.filter _) (List.nodup_singleton n)).mpr fun k =>
        ⟨fun also => List.mem_singleton.mpr (only k also), fun also => List.mem_singleton.mp also ▸ listed⟩)
    · have stands := led.states m.id (face n) (mem_faces held here) marked
      exact (led.kin place (face m) (mem_faces inPlace member) machine (face n) (mem_faces held here) stands).imp_left And.left
  · exact .inr variable_

/-- An input is placed in a state machine before its first state. -/
def visited : List Edit :=
  [.createNode "Animation" "State Machine", .enterNode ⟨2⟩, .addProperty .input (.int64 0), .spawnInput "New Input",
    .createNode "StateMachine" "State"]

/-- The editor after these edits. -/
def visitedEditor : Editor := visited.foldl Edit.apply (.ofAsset (.ofName "Wave" ⟨1⟩) .empty .default 1)

/-- The machine begins in the input, which is no state. -/
theorem input_is_entry : Reachable (Settled True) visitedEditor ∧ ∃ h n, visitedEditor.asset.graph? ⟨2⟩ = some h ∧
    h.nodes.filter Node.isEntry = [n] ∧ (∃ x ∈ h.nodes, x.kind = .state) ∧ ¬StateKind n ∧ Visitor n := by
  have run : Run (Settled True) (.ofAsset (.ofName "Wave" ⟨1⟩) .empty .default 1) visited := by decide +kernel
  have reachable : Reachable (Settled True) visitedEditor := reachable_of_run (.start "Wave" ⟨1⟩ .empty .default 0) run
  obtain ⟨g, top⟩ : ∃ g, visitedEditor.asset.graph? .root = some g := Option.isSome_iff_exists.mp (by decide +kernel)
  obtain ⟨h, held⟩ : ∃ h, visitedEditor.asset.graph? ⟨2⟩ = some h := Option.isSome_iff_exists.mp (by decide +kernel)
  have machines : ∃ m ∈ (graphOf visitedEditor.asset .root).nodes,
      m.kind = .stateMachine ∧ m.id = ⟨2⟩ ∧ m.category ≠ localVariableCategory := by decide +kernel
  have states : ∃ x ∈ (graphOf visitedEditor.asset ⟨2⟩).nodes, x.kind = .state := by decide +kernel
  have marks : ∀ n ∈ (graphOf visitedEditor.asset ⟨2⟩).nodes, n.isEntry = true → ¬StateKind n ∧ Visitor n := by decide +kernel
  rw [graphOf_eq top] at machines
  rw [graphOf_eq held] at states marks
  obtain ⟨m, inG, kind, same, ordinary⟩ := machines
  obtain ⟨x, inH, state⟩ := states
  rcases (entry_states_exact True reachable).1 .root g m h top inG kind (same ▸ held) ⟨x, inH, .inl state⟩ with
    ⟨n, only, -⟩ | ⟨-, variable_⟩
  · have member : n ∈ h.nodes.filter Node.isEntry := only ▸ List.mem_cons_self
    obtain ⟨inside, marked⟩ := List.mem_filter.mp member
    exact ⟨reachable, h, n, held, only, ⟨x, inH, state⟩, marks n inside marked⟩
  · exact absurd variable_ ordinary

end PoseGraph.EntryRuns
