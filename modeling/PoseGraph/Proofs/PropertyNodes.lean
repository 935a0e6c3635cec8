import PoseGraph.Proofs.FeedEdits
import PoseGraph.Proofs.Nesting

/-! What edits make of the nodes of properties. Apart from literals and layout, most edits
leave them alone or take them away. A transition attaches pins to the nodes that it
joins, and renaming and retyping a property changes just the nodes that stand for it. -/
namespace PoseGraph.PropertyNodes
open AssetOrder EditOutcomes EditRuns Editor EditorCoherence EditorSoundness FeedEdits GraphDependencies GraphWiring LinkEdits
  LinkingEdits NamingEdits NodeCraft NodeEdits NodeFrames PropertyEdits PropertyKeys SheddingEdits StateEdits

variable {e f k : Editor} {g h : SubGraph} {m n quick state : Node} {p : Pin}
variable {owner self start finish transition : NodeId}
variable {s t : Node → Node} {change : SubGraph → SubGraph} {base : Nat} {middle : Point} {v : Value}
variable {kind : PropertyKind} {category name old new : String} {ids : List NodeId}
variable {groups : List (NodeId × List NodeId)}

/-! ## Standing for a property -/

/-- A node whose category is that of no properties. -/
def Foreign (n : Node) : Prop := ∀ kind : PropertyKind, n.category ≠ kind.token

theorem stands_input : Asset.standsFor .input n name = true ↔
    n.category = PropertyKind.input.token ∧ n.inputs = [] ∧ n.outputs.head?.map Pin.name = some name := by
  rw [Asset.standsFor, Bool.and_eq_true, beq_iff_eq, Asset.propertyPin?]
  by_cases bare : n.inputs = [] <;> cases n.outputs <;> simp [bare]

theorem stands_variable : Asset.standsFor .localVariable n name = true ↔ n.variableName? = some name := by
  refine ⟨fun stands => ?_, stands_of_reads⟩
  rw [Asset.standsFor, Bool.and_eq_true, Asset.propertyPin?] at stands
  rw [Node.variableName?]
  split at stands
  · rename_i isVariable
    rw [if_pos isVariable]
    cases heads : n.pins.head? with
    | none => simp [heads] at stands
    | some p => simpa [heads] using stands.2
  · simp at stands

theorem stands_category (stands : Asset.standsFor kind n name = true) : n.category = kind.token := by
  rw [Asset.standsFor, Bool.and_eq_true, beq_iff_eq] at stands
  exact stands.1

theorem stands_native (stands : Asset.standsFor kind n name = true) : ¬Foreign n :=
  fun foreign => foreign kind (stands_category stands)

/-- A node stands for one property of a kind. -/
theorem stands_unique (first : Asset.standsFor kind n old = true) (second : Asset.standsFor kind n new = true) :
    old = new := by
  rw [Asset.standsFor, Bool.and_eq_true] at first second
  obtain ⟨p, heads, named⟩ := (Option.any_eq_true _ _).mp first.2
  obtain ⟨q, also, other⟩ := (Option.any_eq_true _ _).mp second.2
  rw [heads] at also
  cases also
  exact (beq_iff_eq.mp named).symm.trans (beq_iff_eq.mp other)

/-- The pin by which a node stands for a property is one of its pins. -/
theorem naming_pin (stands : Asset.standsFor kind n name = true) : ∃ p ∈ n.pins, p.name = name := by
  rw [Asset.standsFor, Bool.and_eq_true] at stands
  obtain ⟨p, heads, named⟩ := (Option.any_eq_true _ _).mp stands.2
  refine ⟨p, ?_, beq_iff_eq.mp named⟩
  rw [Asset.propertyPin?.eq_def] at heads
  split at heads
  · split at heads
    · exact List.mem_append_right _ (List.mem_of_head? heads)
    · cases heads
  · split at heads
    · exact List.mem_append_left _ (List.mem_of_head? heads)
    · cases heads
  · split at heads
    · exact List.mem_of_head? heads
    · cases heads

/-- The nodes of existing properties are those that stand for one of them. -/
theorem isPropertyNodeOf_iff {a : Asset} :
    a.isPropertyNodeOf kind n = true ↔ ∃ name ∈ (a.properties kind).keys, Asset.standsFor kind n name = true := by
  constructor
  · intro ofOne
    obtain ⟨p, -, stands⟩ := (Option.any_eq_true _ _).mp ofOne
    obtain ⟨known, stands⟩ := Bool.and_eq_true_iff.mp stands
    exact ⟨p.name, contains_iff.mp known, stands⟩
  · rintro ⟨name, known, stands⟩
    obtain ⟨p, heads, named⟩ := (Option.any_eq_true _ _).mp (Bool.and_eq_true_iff.mp stands).2
    obtain rfl : p.name = name := beq_iff_eq.mp named
    have shown : ((a.properties kind).contains p.name && Asset.standsFor kind n p.name) = true :=
      Bool.and_eq_true_iff.mpr ⟨contains_iff.mpr known, stands⟩
    cases kind with
    | localVariable =>
      rw [Asset.propertyPin?] at heads
      split at heads
      · exact (Option.any_eq_true _ _).mpr ⟨p, heads, shown⟩
      · cases heads
    | _ =>
      rw [Asset.propertyPin?] at heads
      split at heads
      · exact (Option.any_eq_true _ _).mpr ⟨p, heads, shown⟩
      · cases heads

theorem sameFrame_foreign (same : SameFrame n m) (foreign : Foreign n) : Foreign m := fun kind => by
  rw [same.category]
  exact foreign kind

theorem sameFrame_stands (same : SameFrame n m) : Asset.standsFor kind m name = Asset.standsFor kind n name := by
  have names {ps qs : List Pin} (frames : qs.map pinFrame = ps.map pinFrame) :
      qs.head?.map Pin.name = ps.head?.map Pin.name := by
    have heads := congrArg (fun rs => (List.head? rs).map Pin.name) frames
    simp only [List.head?_map, Option.map_map] at heads
    exact heads
  have bare {ps qs : List Pin} (frames : qs.map pinFrame = ps.map pinFrame) : qs = [] ↔ ps = [] := by
    rw [← List.map_eq_nil_iff (f := pinFrame), frames, List.map_eq_nil_iff]
  rw [Bool.eq_iff_iff]
  cases kind with
  | input => rw [stands_input, stands_input, same.category, bare same.inputs, names same.outputs]
  | localVariable => rw [stands_variable, stands_variable, sameFrame_variableName same]
  | output =>
    simp only [Asset.standsFor, Asset.propertyPin?, same.category, Bool.and_eq_true]
    refine and_congr_right fun _ => ?_
    have outputs := bare same.outputs
    have inputs := names same.inputs
    by_cases none : n.outputs = []
    · simp only [outputs.mpr none, none, List.isEmpty_nil, if_true]
      cases left : m.inputs.head? <;> cases right : n.inputs.head? <;> simp_all
    · simp [none, mt outputs.mp none]

/-! ## Edits seen from the nodes -/

/-- What an edit may make of a node: it goes by what the node is apart from its literals. -/
structure Turn (t : Node → Node) : Prop where
  category : ∀ n, (t n).category = n.category
  frames : ∀ n m, SameFrame n m → SameFrame (t n) (t m)

theorem turn_id : Turn id := ⟨fun _ => rfl, fun _ _ same => same⟩

/-- The nodes of properties of the second editor stem from nodes of the first one. -/
def Stems (t : Node → Node) (e f : Editor) : Prop :=
  ∀ owner, ∀ m ∈ (graphOf f.asset owner).nodes, Foreign m ∨ ∃ n ∈ (graphOf e.asset owner).nodes, SameFrame (t n) m

/-- No node of the first editor gets lost. -/
def Lasts (t : Node → Node) (e f : Editor) : Prop :=
  ∀ owner, ∀ n ∈ (graphOf e.asset owner).nodes, ∃ m ∈ (graphOf f.asset owner).nodes, SameFrame (t n) m

/-- All nodes of properties stay, and what else is new belongs to no property. -/
structure Adds (e f : Editor) : Prop where
  stems : Stems id e f
  lasts : Lasts id e f

theorem stems_trans (turn : Turn t) (first : Stems s e f) (second : Stems t f k) : Stems (t ∘ s) e k := by
  intro owner m inside
  rcases second owner m inside with foreign | ⟨n, between, same⟩
  · exact .inl foreign
  · rcases first owner n between with foreign | ⟨k, member, before⟩
    · exact .inl (sameFrame_foreign same fun kind => by rw [turn.category]; exact foreign kind)
    · exact .inr ⟨k, member, sameFrame_trans (turn.frames _ _ before) same⟩

theorem lasts_trans (turn : Turn t) (first : Lasts s e f) (second : Lasts t f k) : Lasts (t ∘ s) e k := by
  intro owner n member
  obtain ⟨m, between, before⟩ := first owner n member
  obtain ⟨k, inside, same⟩ := second owner m between
  exact ⟨k, inside, sameFrame_trans (turn.frames _ _ before) same⟩

theorem sameFrame_refl (n : Node) : SameFrame n n := ⟨rfl, rfl, rfl, rfl, rfl, rfl⟩

theorem sameFrame_symm (same : SameFrame n m) : SameFrame m n :=
  ⟨same.id.symm, same.category.symm, same.name.symm, same.type.symm, same.inputs.symm, same.outputs.symm⟩

theorem stems_sheds (sheds : Sheds e f) : Stems id e f := fun owner m inside => .inr (sheds.nodes owner m inside)

theorem adds_trans (first : Adds e f) (second : Adds f k) : Adds e k :=
  ⟨stems_trans turn_id first.stems second.stems, lasts_trans turn_id first.lasts second.lasts⟩

theorem adds_same (same : ∀ owner, graphOf f.asset owner = graphOf e.asset owner) : Adds e f :=
  ⟨fun owner m inside => .inr ⟨m, same owner ▸ inside, sameFrame_refl m⟩,
    fun owner n member => ⟨n, (same owner).symm ▸ member, sameFrame_refl n⟩⟩

theorem adds_of_graphs (graphs : f.asset.graphs = e.asset.graphs) : Adds e f :=
  adds_same fun owner => by rw [graphOf, graphOf, Asset.graph?, Asset.graph?, graphs]

theorem stems_modifyGraph (stems : ∀ g, e.asset.graph? owner = some g → ∀ m ∈ (change g).nodes,
    Foreign m ∨ ∃ n ∈ g.nodes, SameFrame n m) : Stems id e (e.modifyGraph owner change) := by
  intro self m inside
  cases held : e.asset.graph? owner with
  | none =>
    rw [modifyGraph, modifyAsset, modifyGraph_missing held] at inside
    exact .inr ⟨m, inside, sameFrame_refl m⟩
  | some g =>
    have look : graphOf (e.modifyGraph owner change).asset self = _ := graphOf_modifyGraph held
    rw [look] at inside
    split at inside
    · rename_i here
      rw [here, graphOf_eq held]
      exact stems g held m inside
    · exact .inr ⟨m, inside, sameFrame_refl m⟩

theorem lasts_modifyGraph (lasts : ∀ g, e.asset.graph? owner = some g → ∀ n ∈ g.nodes,
    ∃ m ∈ (change g).nodes, SameFrame n m) : Lasts id e (e.modifyGraph owner change) := by
  intro self n member
  cases held : e.asset.graph? owner with
  | none =>
    rw [modifyGraph, modifyAsset, modifyGraph_missing held]
    exact ⟨n, member, sameFrame_refl n⟩
  | some g =>
    have look : graphOf (e.modifyGraph owner change).asset self = _ := graphOf_modifyGraph held
    rw [look]
    split
    · rename_i here
      rw [here, graphOf_eq held] at member
      exact lasts g held n member
    · exact ⟨n, member, sameFrame_refl n⟩

/-- The same nodes apart from literals, layout and order. -/
theorem adds_frames
    (nodes : ∀ g, e.asset.graph? owner = some g → ((change g).nodes.map frame).Perm (g.nodes.map frame)) :
    Adds e (e.modifyGraph owner change) :=
  ⟨stems_modifyGraph fun g held _ inside => .inr (kept_origin (nodes g held) inside),
    lasts_modifyGraph fun g held _ member => kept_survivor (nodes g held) member⟩

theorem adds_invalidate (e : Editor) : Adds e e.invalidate := adds_of_graphs rfl

theorem adds_ensureEntryOfMachine (e : Editor) (owner : NodeId) : Adds e (e.ensureEntryOfMachine owner) := by
  rw [ensureEntryOfMachine]
  split
  · exact adds_frames fun g _ => (kept_ensureEntry g).nodes
  · exact adds_of_graphs rfl

theorem adds_setPropertyValue (e : Editor) (kind : PropertyKind) (name : String) (v : Value) :
    Adds e (e.setPropertyValue kind name v).1 := by
  have fold (groups : List (NodeId × List NodeId)) (e : Editor) :
      Adds e (groups.foldl (fun e group => e.modifyGraph group.1 (·.setPropertyValue name v group.2)) e) := by
    induction groups generalizing e with
    | nil => exact adds_of_graphs rfl
    | cons group groups ih => exact adds_trans (adds_frames fun g _ => (kept_setPropertyValue g).nodes) (ih _)
  rw [Editor.setPropertyValue]
  split
  · refine adds_trans (f := e.modifyProperties kind (·.insert name v)) (adds_of_graphs ?_)
      (adds_trans (fold _ _) (adds_invalidate _))
    cases kind <;> rfl
  · exact adds_of_graphs rfl

/-! ## New nodes -/

theorem adds_placed (foreign : Foreign n) (e : Editor) (owner : NodeId) :
    Adds e (e.modifyGraph owner (·.addNode n)) := by
  refine ⟨stems_modifyGraph fun g _ m inside => ?_, lasts_modifyGraph fun g _ m member => ?_⟩
  · rcases List.mem_append.mp inside with old | new
    · exact .inr ⟨m, old, sameFrame_refl m⟩
    · exact .inl (List.mem_singleton.mp new ▸ foreign)
  · exact ⟨m, List.mem_append_left _ member, sameFrame_refl m⟩

theorem adds_ensureGraph (e : Editor) (owner : NodeId) : Adds e (e.modifyAsset (·.ensureGraph owner)) :=
  adds_same fun _ => graphOf_ensureGraph

theorem adds_spawn {palette : Palette} (spawn : e.spawn palette category name = some (n, f)) : Adds e f :=
  adds_of_graphs (by rw [spawn_asset spawn])

theorem adds_ensureSubGraph (e : Editor) (owner : NodeId) : Adds e (e.ensureSubGraph owner) := by
  rcases ensureSubGraph_cases e owner with same | ⟨n, -, ⟨-, same⟩ | ⟨output, graph, category, f, seeding⟩⟩
  · rw [same]
    exact adds_of_graphs rfl
  · rw [same]
    exact adds_ensureGraph e owner
  · rw [seeding.result]
    refine adds_trans (adds_spawn seeding.spawn) (adds_trans (adds_ensureGraph f owner) ?_)
    exact adds_placed (spawn_shaped seeding.spawn).1.foreign _ owner

/-- What follows the placing of a node. -/
theorem adds_settled (e : Editor) (owner : NodeId) (n : Node) :
    Adds (e.modifyAsset fun a => (a.ensureGraph owner).modifyGraph owner (·.addNode n)) (e.addNode owner n) := by
  rw [addNode]
  refine adds_trans ?_ (adds_ensureEntryOfMachine _ owner)
  split
  · exact adds_trans (adds_invalidate _) (adds_ensureSubGraph _ n.id)
  · exact adds_invalidate _

theorem adds_addNode (foreign : Foreign n) (e : Editor) (owner : NodeId) : Adds e (e.addNode owner n) :=
  adds_trans (adds_trans (adds_ensureGraph e owner) (adds_placed foreign _ owner)) (adds_settled e owner n)

theorem adds_createNode (e : Editor) (category name : String) : Adds e (e.createNode category name).1 := by
  rcases createNode_cases e category name with same | ⟨n, f, spawn, same⟩
  · rw [same]
    exact adds_of_graphs rfl
  · rw [same]
    exact adds_trans (adds_spawn spawn) (adds_addNode (spawn_shaped spawn).1.foreign f _)

theorem adds_adopt (foreign : Foreign n) (e : Editor) (owner : NodeId) :
    Adds e ((e.adopt n).2.addNode owner (e.adopt n).1) :=
  adds_trans (f := (e.adopt n).2) (adds_of_graphs rfl) (adds_addNode (n := (e.adopt n).1) foreign _ owner)

theorem foreign_stateMachine (category : n.category = stateMachineCategory) : Foreign n := fun kind => by
  rw [category]
  cases kind <;> decide

theorem adds_createTransitionNode (e : Editor) : Adds e e.createTransitionNode.1 := by
  rw [createTransitionNode]
  split
  · exact adds_of_graphs rfl
  · exact adds_adopt (foreign_stateMachine rfl) e _

/-- A node that stands for a property with a value, by its only pin. -/
structure Fresh (kind : PropertyKind) (name : String) (v : Value) (m : Node) : Prop where
  stands : Asset.standsFor kind m name = true
  single : ∃ p, m.pins = [p] ∧ p.name = name ∧ p.type = .ofValue v ∧ p.storage = .ofValue v

/-- Nothing but one node of a property is new, and it is in the graph of the owner. -/
def Gains (e f : Editor) (owner : NodeId) (new : Node) : Prop :=
  ∀ self, ∀ m ∈ (graphOf f.asset self).nodes,
    Foreign m ∨ (∃ n ∈ (graphOf e.asset self).nodes, SameFrame n m) ∨ self = owner ∧ SameFrame new m

/-- Placing a node built by hand. -/
theorem gains_adopt (e : Editor) (n : Node) (owner : NodeId) :
    Gains e ((e.adopt n).2.addNode owner (e.adopt n).1) owner (e.adopt n).1 := by
  intro self m inside
  rcases (adds_settled (e.adopt n).2 owner (e.adopt n).1).stems self m inside with foreign | ⟨k, placed, same⟩
  · exact .inl foreign
  · obtain ⟨g, held⟩ : ∃ g, (e.asset.ensureGraph owner).graph? owner = some g :=
      ⟨_, graph_ensureGraph.trans (if_pos rfl)⟩
    have look : graphOf ((e.asset.ensureGraph owner).modifyGraph owner (·.addNode (e.adopt n).1)) self = _ :=
      graphOf_modifyGraph held
    change k ∈ (graphOf ((e.asset.ensureGraph owner).modifyGraph owner (·.addNode (e.adopt n).1)) self).nodes at placed
    rw [look] at placed
    split at placed
    · rename_i here
      rcases List.mem_append.mp placed with old | new
      · refine .inr (.inl ⟨k, ?_, same⟩)
        rw [here, ← graphOf_ensureGraph (a := e.asset), graphOf_eq held]
        exact old
      · rw [List.mem_singleton.mp new] at same
        exact .inr (.inr ⟨here, same⟩)
    · rw [graphOf_ensureGraph] at placed
      exact .inr (.inl ⟨k, placed, same⟩)

theorem sameFrame_fresh (same : SameFrame n m) (fresh : Fresh kind name v n) : Fresh kind name v m := by
  refine ⟨(sameFrame_stands same).trans fresh.stands, ?_⟩
  obtain ⟨p, single, named, typed, stored⟩ := fresh.single
  have frames := sameFrame_pins same
  rw [single, List.map_singleton, List.map_eq_singleton_iff] at frames
  obtain ⟨q, only, frames⟩ := frames
  exact ⟨q, only, (congrArg Pin.name frames).trans named, (congrArg Pin.type frames).trans typed,
    (congrArg Pin.storage frames).trans stored⟩

theorem spawnInput_gains (e : Editor) (name : String) : (e.spawnInput name).1 = e ∨
    ∃ v new, e.asset.inputs.get? name = some v ∧ Fresh .input name v new ∧
      Gains e (e.spawnInput name).1 e.activeOwner new := by
  rw [spawnInput]
  split
  · exact .inl rfl
  · rename_i v found
    exact .inr ⟨v, _, found, ⟨stands_input.mpr ⟨rfl, rfl, rfl⟩, _, rfl, rfl, rfl, rfl⟩, gains_adopt e _ _⟩

/-- A new setter is the only one of its variable in its graph. -/
theorem spawnLocalVariable_gains (e : Editor) (name : String) (getter : Bool) :
    (e.spawnLocalVariable name getter).1 = e ∨
    ∃ v new, e.asset.localVariables.get? name = some v ∧ Fresh .localVariable name v new ∧ new.name = name ∧
      Gains e (e.spawnLocalVariable name getter).1 e.activeOwner new ∧
      (new.isSetter = true →
        ∀ k ∈ (graphOf e.asset e.activeOwner).nodes, k.isSetter = true → k.variableName? ≠ some name) := by
  rcases spawnLocalVariable_cases e name getter with same | ⟨v, inputs, outputs, n, found, pins, rfl, result⟩
  · rw [same]
    exact .inl rfl
  rw [result]
  refine .inr ⟨v, _, found, ?_, rfl, gains_adopt e _ _, fun setter k member sets named => ?_⟩
  · rcases pins with ⟨-, rfl, rfl⟩ | ⟨-, rfl, rfl, -⟩ <;>
      exact ⟨stands_variable.mpr (variableName_eq_some.mpr ⟨rfl, rfl⟩), _, rfl, rfl, rfl, rfl⟩
  rcases pins with ⟨-, rfl, rfl⟩ | ⟨-, -, -, free⟩
  · cases setter
  cases active : e.asset.graph? e.activeOwner with
  | none =>
    rw [graphOf_missing active] at member
    cases member
  | some g =>
    rw [graphOf_eq active] at member
    have written : (g.setter? name).isSome = true := by
      rw [SubGraph.setter?, List.find?_isSome]
      exact ⟨k, member, by simp [sets, named]⟩
    simp [activeGraph?, active, written] at free

/-! ## Links and states -/

theorem stems_createLinkIn (e : Editor) (owner : NodeId) (start finish : PinId) :
    Stems id e (e.createLinkIn owner start finish).1 := by
  rw [createLinkIn]
  split
  · exact (adds_of_graphs rfl).stems
  · rename_i source target type _
    refine stems_trans (f := { e with nextId := e.nextId + 1 }) turn_id (adds_of_graphs rfl).stems ?_
    refine stems_trans turn_id ?_
      (stems_sheds (sheds_trans (sheds_displaceLinks _ owner target _) (sheds_invalidate _)))
    refine Adds.stems (adds_frames fun h _ => ?_)
    exact (kept_withValue h target .void).nodes

theorem adds_createLinkIn {except : Option NodeId} (coherent : Coherent except e) (owner : NodeId)
    (start finish : PinId) : Adds e (e.createLinkIn owner start finish).1 := by
  refine ⟨stems_createLinkIn e owner start finish, fun self n member => ?_⟩
  by_cases here : self = owner
  · subst here
    cases held : e.asset.graph? self with
    | none =>
      rw [graphOf_missing held] at member
      cases member
    | some g =>
      obtain ⟨h, found, nodes⟩ := frames_createLinkIn coherent held start finish
      rw [graphOf_eq held] at member
      rw [graphOf_eq found]
      exact kept_survivor nodes member
  · have same := (within_createLinkIn e owner start finish).others self here
    rw [graphOf, same, ← graphOf]
    exact ⟨n, member, sameFrame_refl n⟩

theorem stems_playClip (e : Editor) (owner : NodeId) (clip : Option Value) : Stems id e (e.playClip owner clip).1 := by
  rcases playClip_cases e owner clip with same | ⟨player, f, spawn, outcome⟩
  · rw [same]
    exact (adds_of_graphs rfl).stems
  have drew := (adds_spawn spawn).stems
  rcases outcome with same | ⟨pose, sink, playing⟩
  · rw [same]
    exact drew
  have foreign : Foreign (loaded clip player) := fun kind => by
    rw [(edited_loaded clip player).category]
    exact (spawn_shaped spawn).1.foreign kind
  have linked := stems_trans turn_id (stems_trans turn_id drew (adds_placed foreign f owner).stems)
    (stems_createLinkIn _ owner pose.id sink)
  obtain ⟨_, rfl, same | ⟨same, -⟩⟩ := playing.result
  · rw [same]
    exact stems_trans turn_id linked (adds_invalidate _).stems
  · rw [same]
    exact linked

theorem stems_promoted (found : (e.asset.graph? owner).bind (·.node? self) = some quick) (shape : StateNode state) :
    Stems id e (e.modifyGraph owner (promoted · self state quick)) := by
  refine stems_modifyGraph fun g held m inside => ?_
  rw [held, Option.bind_some] at found
  rcases promoted_origin found inside with old | rfl
  · exact .inr ⟨m, old, sameFrame_refl m⟩
  · exact .inl (foreign_stateMachine (stateNode_stateFromQuick quick shape).category)

theorem stems_promoteQuickState (coherent : Coherent none e) (self : NodeId) :
    Stems id e (e.promoteQuickState self).1 := by
  rcases promoteQuickState_cases e self with same | ⟨owner, quick, state, f, promotion⟩
  · rw [same]
    exact (adds_of_graphs rfl).stems
  · have spawned := spawn_spec coherent promotion.spawn
    have replaced : Stems id e (f.modifyGraph owner (promoted · self state quick)) :=
      stems_trans turn_id (adds_spawn promotion.spawn).stems
        (stems_promoted (by rw [spawn_asset promotion.spawn]; exact promotion.found) ⟨spawned.under, spawned.named⟩)
    rw [promotion.result]
    exact stems_trans turn_id (stems_trans turn_id replaced (adds_ensureSubGraph _ self).stems) (stems_playClip _ self _)

/-! ## Transitions -/

theorem modifyNode_exact (distinct : (g.nodes.map Node.id).Nodup) (self : NodeId) (t : Node → Node) :
    (g.modifyNode self t).nodes = g.nodes.map fun n => if n.id = self then t n else n := by
  have exact_ (ns : List Node) (distinct : (ns.map Node.id).Nodup) :
      Node.modifyFirst (·.id == self) t ns = ns.map fun n => if n.id = self then t n else n := by
    induction ns with
    | nil => rfl
    | cons n ns ih =>
      rw [List.map_cons, List.nodup_cons] at distinct
      rw [Node.modifyFirst, List.map_cons, beq_eq_decide]
      by_cases here : n.id = self
      · have others : ∀ m ∈ ns, (if m.id = self then t m else m) = id m := fun m inside =>
          if_neg fun same => distinct.1 (List.mem_map.mpr ⟨m, inside, same.trans here.symm⟩)
        rw [if_pos here, List.map_congr_left others, List.map_id]
        simp [here]
      · rw [if_neg here, ih distinct.2]
        simp [here]
  exact exact_ g.nodes distinct

/-- A node with the pins by which a transition joins one node to another one. -/
def joined (base : Nat) (start finish : NodeId) (n : Node) : Node :=
  attach (if n.id = finish then [transitionPin (base + 3) finish .input] else [])
    (if n.id = start then [transitionPin base start .output] else []) Node.position n

theorem turn_joined (base : Nat) (start finish : NodeId) : Turn (joined base start finish) := by
  refine ⟨fun n => rfl, fun n m same => ⟨same.id, same.category, same.name, same.type, ?_, ?_⟩⟩
  · simp only [joined, attach, same.id, List.map_append, same.inputs]
  · simp only [joined, attach, same.id, List.map_append, same.outputs]

theorem joined_apart (notStart : n.id ≠ start) (notFinish : n.id ≠ finish) :
    SameFrame (joined base start finish n) n := by
  refine ⟨rfl, rfl, rfl, rfl, ?_, ?_⟩
  · simp [joined, attach, notFinish]
  · simp [joined, attach, notStart]

/-- In a graph whose nodes are told apart, the pins of a transition go to the two nodes that it
joins, and to its own node. -/
theorem withTransition_exact (base : Nat) (middle : Point) (distinct : (g.nodes.map Node.id).Nodup)
    (notStart : transition ≠ start) (notFinish : transition ≠ finish) :
    ∃ own : Node → Node, (∀ n, (own n).category = n.category ∧ (own n).id = n.id) ∧
      (withTransition base start finish transition middle g).nodes =
        g.nodes.map fun n => if n.id = transition then own n else joined base start finish n := by
  have ids (g : SubGraph) (self : NodeId) (ins outs : List Pin) (place : Node → Point) :
      (g.modifyNode self (attach ins outs place)).nodes.map Node.id = g.nodes.map Node.id :=
    map_modifyFirst (f := attach ins outs place) (fun _ => rfl) g.nodes
  refine ⟨attach [transitionPin (base + 1) transition .input] [transitionPin (base + 2) transition .output]
    fun _ => middle, fun _ => ⟨rfl, rfl⟩, ?_⟩
  rw [withTransition_attach, modifyNode_exact (by rw [ids, ids]; exact distinct),
    modifyNode_exact (by rw [ids]; exact distinct), modifyNode_exact distinct, List.map_map, List.map_map]
  refine List.map_congr_left fun n _ => ?_
  simp only [Function.comp_apply]
  by_cases here : n.id = transition
  · simp [here, notStart, notFinish]
  · by_cases first : n.id = start <;> by_cases second : n.id = finish <;>
      simp_all [joined, attach]


theorem adds_joinTransition {except : Option NodeId}
    (coherent : Coherent except ((drawn e (e.nextId + 4)).modifyGraph owner
      (withTransition e.nextId start finish transition middle))) :
    Adds ((drawn e (e.nextId + 4)).modifyGraph owner (withTransition e.nextId start finish transition middle))
      (e.joinTransition owner transition start finish middle).1 := by
  have once := adds_createLinkIn coherent owner ⟨e.nextId⟩ ⟨e.nextId + 1⟩
  have whole := coherent_createLinkIn coherent owner ⟨e.nextId⟩ ⟨e.nextId + 1⟩
  obtain ⟨f, rfl, same | same⟩ := joinTransition_cases e owner transition start finish middle
  · rw [same]
    exact once
  · rw [same]
    exact adds_trans once (adds_createLinkIn whole owner ⟨e.nextId + 2⟩ ⟨e.nextId + 3⟩)

/-- The nodes of one graph are not in another one. -/
theorem apart_of_meets (coherent : Coherent none e) (meets : Meets e owner start) (other : self ≠ owner)
    (member : n ∈ (graphOf e.asset self).nodes) : n.id ≠ start := by
  rintro rfl
  obtain ⟨m, inside, same, -⟩ := meets
  have held {place : NodeId} {k : Node} (member : k ∈ (graphOf e.asset place).nodes) :
      Nesting.Holds e.asset place k.id k.type := by
    cases found : e.asset.graph? place with
    | none =>
      rw [graphOf_missing found] at member
      cases member
    | some g =>
      rw [graphOf_eq found] at member
      exact Nesting.holds_of_member found member
  exact other (Nesting.holds_unique (identified_of_coherent coherent) (held member) (same ▸ held inside)).1

/-- What becomes of the nodes where two of them are joined by a transition. -/
theorem joined_withTransition (coherent : Coherent none e) (middle : Point) (meetsStart : Meets e owner start)
    (meetsFinish : Meets e owner finish) (notStart : transition ≠ start) (notFinish : transition ≠ finish)
    (foreign : ∀ n ∈ (graphOf e.asset owner).nodes, n.id = transition → Foreign n) :
    let f := (drawn e (e.nextId + 4)).modifyGraph owner (withTransition e.nextId start finish transition middle)
    Stems (joined e.nextId start finish) e f ∧ ∀ self, ∀ n ∈ (graphOf e.asset self).nodes, n.id ≠ transition →
      ∃ m ∈ (graphOf f.asset self).nodes, SameFrame (joined e.nextId start finish n) m := by
  obtain ⟨g, held⟩ := meets_graph meetsStart
  obtain ⟨own, keeps, nodes⟩ := withTransition_exact e.nextId middle
    (identified_unique (identified_of_coherent coherent) held).nodes notStart notFinish
  have look (self : NodeId) :
      graphOf (e.asset.modifyGraph owner (withTransition e.nextId start finish transition middle)) self = _ :=
    graphOf_modifyGraph held
  intro f
  refine ⟨fun self m inside => ?_, fun self n member other => ?_⟩
  · change m ∈ (graphOf (e.asset.modifyGraph owner _) self).nodes at inside
    rw [look] at inside
    split at inside
    · rename_i here
      rw [nodes] at inside
      obtain ⟨n, member, rfl⟩ := List.mem_map.mp inside
      rw [here, graphOf_eq held]
      split
      · rename_i same
        refine .inl fun kind => ?_
        rw [(keeps n).1]
        exact foreign n (by rw [graphOf_eq held]; exact member) same kind
      · exact .inr ⟨n, member, sameFrame_refl _⟩
    · rename_i there
      exact .inr ⟨m, inside, joined_apart (apart_of_meets coherent meetsStart there inside)
        (apart_of_meets coherent meetsFinish there inside)⟩
  · change ∃ m ∈ (graphOf (e.asset.modifyGraph owner _) self).nodes, _
    rw [look]
    split
    · rename_i here
      rw [here, graphOf_eq held] at member
      rw [nodes]
      refine ⟨_, List.mem_map_of_mem member, ?_⟩
      rw [if_neg other]
      exact sameFrame_refl _
    · rename_i there
      exact ⟨n, member, joined_apart (apart_of_meets coherent meetsStart there member)
        (apart_of_meets coherent meetsFinish there member)⟩

/-- A transition attaches pins to the two nodes that it joins, and changes no other node of a
property. -/
theorem joined_createTransition (coherent : Coherent none e)
    (accepted : (e.createTransition start finish).2.isSome = true) :
    ∃ base, Stems (joined base start finish) e (e.createTransition start finish).1 ∧
      Lasts (joined base start finish) e (e.createTransition start finish).1 := by
  obtain ⟨owner, g, a, b, f, transition, joining⟩ := createTransition_accepted accepted
  obtain ⟨-, -, new⟩ := createTransitionNode_meets joining.active joining.created
  obtain ⟨-, -, states⟩ := joining_meets coherent joining
  obtain ⟨-, meetsStart, notStart⟩ := states start a joining.first
  obtain ⟨-, meetsFinish, notFinish⟩ := states finish b joining.second
  have made := coherent_createTransitionNode coherent
  have placed := adds_createTransitionNode e
  rw [joining.created] at made placed
  have firm := coherent_ensureSubGraph made transition
  have adds := adds_trans placed (adds_ensureSubGraph f transition)
  have older {self : NodeId} {n : Node} (member : n ∈ (graphOf e.asset self).nodes) : n.id ≠ transition := by
    rintro rfl
    exact absurd (node_drawn coherent (mem_graphOf.mpr ⟨self, member⟩)).2 (Nat.not_lt.mpr new)
  have foreign (n : Node) (inside : n ∈ (graphOf (f.ensureSubGraph transition).asset owner).nodes) (same : n.id = transition) :
      Foreign n := by
    rcases adds.stems owner n inside with foreign | ⟨k, member, frames⟩
    · exact foreign
    · exact absurd (frames.id.symm.trans same) (older member)
  obtain ⟨stems, lasts⟩ := joined_withTransition firm (a.position.midpoint b.position) meetsStart meetsFinish notStart.symm
    notFinish.symm foreign
  have linked := adds_joinTransition
    (coherent_withTransition (a.position.midpoint b.position) firm (voiced_joining coherent joining))
  have turn := turn_joined (f.ensureSubGraph transition).nextId start finish
  rw [joining.result]
  refine ⟨(f.ensureSubGraph transition).nextId, ?_, fun self n member => ?_⟩
  · exact stems_trans turn_id (stems_trans turn adds.stems stems) linked.stems
  · obtain ⟨m, between, first⟩ := adds.lasts self n member
    obtain ⟨k, pinned, second⟩ := lasts self m between (by rw [first.id]; exact older member)
    obtain ⟨r, inside, third⟩ := linked.lasts self k pinned
    exact ⟨r, inside, sameFrame_trans (sameFrame_trans (turn.frames _ _ first) second) third⟩

/-! ## Types and names -/

/-- A change of the nodes that stand for a property. -/
def forProperty (kind : PropertyKind) (name : String) (t : Node → Node) (n : Node) : Node :=
  if Asset.standsFor kind n name then t n else n

/-- A node of a property after the property has got another type. -/
def retagged (name : String) (v : Value) (n : Node) : Node :=
  { n.mapPins (fun p => if p.name = name then p.retag v else p) with color := (PinType.ofValue v).color }

theorem sameFrame_retagged (same : SameFrame n m) : SameFrame (retagged name v n) (retagged name v m) := by
  let retag (p : Pin) : Pin := if p.name = name then p.retag v else p
  have blind (p : Pin) : pinFrame (retag p) = pinFrame (retag (pinFrame p)) := by
    by_cases named : p.name = name <;> simp [retag, pinFrame, Pin.retag, named]
  have whole {ps qs : List Pin} (frames : qs.map pinFrame = ps.map pinFrame) :
      (qs.map retag).map pinFrame = (ps.map retag).map pinFrame := by
    have through := congrArg (List.map (pinFrame ∘ retag)) frames
    rw [List.map_map, List.map_map] at through
    rw [List.map_map, List.map_map]
    exact (List.map_congr_left fun p _ => blind p).trans (through.trans (List.map_congr_left fun p _ => (blind p).symm))
  exact ⟨same.id, same.category, same.name, same.type, whole same.inputs, whole same.outputs⟩

/-- The nodes of the listed identities have got another type. -/
def retaggedIn (name : String) (v : Value) (ids : List NodeId) (n : Node) : Node :=
  if ids.contains n.id then retagged name v n else n

theorem sameFrame_retaggedIn (same : SameFrame n m) :
    SameFrame (retaggedIn name v ids n) (retaggedIn name v ids m) := by
  rw [retaggedIn, retaggedIn, same.id]
  split
  · exact sameFrame_retagged same
  · exact same

theorem origin_retyped {group : NodeId × List NodeId}
    (inside : m ∈ (graphOf (retyped name v e group).asset self).nodes) :
    ∃ n ∈ (graphOf e.asset self).nodes, SameFrame (if self = group.1 then retaggedIn name v group.2 n else n) m := by
  have unlinked := sheds_removeLinksIn e group.1 (((e.asset.graph? group.1).map (·.linksOfNodes group.2)).getD [])
  rw [retyped] at inside
  revert unlinked inside
  generalize (e.removeLinksIn group.1 (((e.asset.graph? group.1).map (·.linksOfNodes group.2)).getD [])).1 = f
  intro inside unlinked
  cases held : f.asset.graph? group.1 with
  | none =>
    rw [modifyGraph, modifyAsset, modifyGraph_missing held] at inside
    obtain ⟨n, member, same⟩ := unlinked.nodes self m inside
    refine ⟨n, member, ?_⟩
    split
    · rename_i here
      rw [here, graphOf_missing held] at inside
      cases inside
    · exact same
  | some h =>
    have look : graphOf (f.modifyGraph group.1 (·.retagProperty name v group.2)).asset self = _ :=
      graphOf_modifyGraph held
    rw [look] at inside
    split
    · rename_i here
      rw [if_pos here] at inside
      obtain ⟨k, between, rfl⟩ := List.mem_map.mp inside
      obtain ⟨n, member, same⟩ := unlinked.nodes self k (by rw [here, graphOf_eq held]; exact between)
      exact ⟨n, member, sameFrame_retaggedIn same⟩
    · rename_i there
      rw [if_neg there] at inside
      exact unlinked.nodes self m inside

/-- The nodes after those of several graphs have got another type. -/
theorem origin_retypedAll (distinct : (groups.map Prod.fst).Nodup)
    (inside : m ∈ (graphOf (groups.foldl (retyped name v) e).asset self).nodes) : ∃ n ∈ (graphOf e.asset self).nodes,
      (∃ ids, (self, ids) ∈ groups ∧ SameFrame (retaggedIn name v ids n) m) ∨
        self ∉ groups.map Prod.fst ∧ SameFrame n m := by
  induction groups generalizing e with
  | nil => exact ⟨m, inside, .inr ⟨List.not_mem_nil, sameFrame_refl m⟩⟩
  | cons group groups ih =>
    rw [List.map_cons, List.nodup_cons] at distinct
    obtain ⟨k, between, after⟩ := ih distinct.2 inside
    obtain ⟨n, member, before⟩ := origin_retyped between
    refine ⟨n, member, ?_⟩
    rcases after with ⟨ids, listed, same⟩ | ⟨apart, same⟩
    · have there : self ≠ group.1 := fun here => distinct.1 (here ▸ List.mem_map_of_mem listed)
      rw [if_neg there] at before
      exact .inl ⟨ids, List.mem_cons_of_mem _ listed, sameFrame_trans (sameFrame_retaggedIn before) same⟩
    · split at before
      · rename_i here
        exact .inl ⟨group.2, by rw [here]; exact List.mem_cons_self, sameFrame_trans before same⟩
      · rename_i there
        refine .inr ⟨?_, sameFrame_trans before same⟩
        rw [List.map_cons, List.mem_cons, not_or]
        exact ⟨there, apart⟩

/-- A property that gets another type passes it on to just the nodes that stand for it. -/
theorem stems_changePropertyType (coherent : Coherent none e) (accepted : (e.changePropertyType kind name v).2 = true) :
    Stems (forProperty kind name (retagged name v)) e (e.changePropertyType kind name v).1 := by
  obtain ⟨current, _, found, -, rfl, result⟩ := retyping_of_accepted accepted
  rw [result]
  intro self m inside
  have firm := coherent_insertProperty coherent (get_mem_keys found) v
  have graphs : (e.modifyProperties kind (·.insert name v)).asset.graphs = e.asset.graphs := by cases kind <;> rfl
  have same : graphOf (e.modifyProperties kind (·.insert name v)).asset self = graphOf e.asset self := by
    rw [graphOf, graphOf, Asset.graph?, Asset.graph?, graphs]
  obtain ⟨n, member, turned⟩ := origin_retypedAll (propertyNodes_distinct _ kind name) inside
  refine .inr ⟨n, same ▸ member, ?_⟩
  rcases turned with ⟨ids, listed, frames⟩ | ⟨apart, frames⟩
  · have exact_ := propertyNodes_exact firm listed n member
    rw [retaggedIn] at frames
    by_cases stands : Asset.standsFor kind n name = true
    · rw [if_pos (by simpa using exact_.mpr stands)] at frames
      rw [forProperty, if_pos stands]
      exact frames
    · rw [if_neg (by simpa using mt exact_.mp stands)] at frames
      rw [forProperty, if_neg stands]
      exact frames
  · have none : ¬Asset.standsFor kind n name = true := fun stands => by
      obtain ⟨ids, listed, -⟩ := propertyNodes_listed member stands
      exact apart (List.mem_map_of_mem listed)
    rw [forProperty, if_neg none]
    exact frames

/-- A property that gets another name passes it on to just the nodes that stand for it. -/
theorem renamed_renameProperty {except : Option NodeId} (coherent : Coherent except e) (different : old ≠ new)
    (accepted : (e.renameProperty kind old new).2 = true) (self : NodeId) :
    (graphOf (e.renameProperty kind old new).1.asset self).nodes =
      (graphOf e.asset self).nodes.map (forProperty kind old (renamed kind old new)) := by
  obtain ⟨ids, listed, same⟩ := graphOf_renameProperty coherent different accepted self
  rw [same]
  refine List.map_congr_left fun n member => ?_
  by_cases stands : Asset.standsFor kind n old = true
  · rw [forProperty, if_pos stands, if_pos (by simpa using (listed n member).mpr stands)]
    rfl
  · rw [forProperty, if_neg stands, if_neg (by simpa using mt (listed n member).mp stands)]

/-! ## All edits -/

/-- Edits that neither place nor change nodes of properties: they are left as they are, or taken
away. -/
def spares : Edit → Bool
  | .renameProperty .. | .changePropertyType .. => false
  | .spawnInput .. | .spawnLocalVariable .. | .createTransition .. => false
  | _ => true

theorem stems_apply (coherent : Coherent none e) (edit : Edit) (other : spares edit = true) :
    Stems id e (edit.apply e) := by
  cases edit with
  | createNode category name => exact (adds_createNode e category name).stems
  | removeNodes ids => exact stems_sheds (sheds_removeNodesIn coherent _ ids)
  | layNode id layout => exact stems_sheds (sheds_editNode (f := layout.applyTo) e id fun _ => rfl)
  | setPinValue pin v => exact stems_sheds (sheds_setPinValue e pin v)
  | createLink start finish => exact stems_createLinkIn e _ start finish
  | removeLinks ids => exact stems_sheds (sheds_removeLinksIn e _ ids)
  | addProperty kind v =>
    refine (adds_of_graphs ?_).stems
    cases kind <;> rfl
  | removeProperty kind name => exact stems_sheds (sheds_removeProperty coherent kind name)
  | setPropertyValue kind name v => exact (adds_setPropertyValue e kind name v).stems
  | renameProperty | changePropertyType | spawnInput | spawnLocalVariable | createTransition => cases other
  | createTransitionNode => exact (adds_createTransitionNode e).stems
  | promoteQuickState id => exact stems_promoteQuickState coherent id
  | ensureEntry => exact stems_sheds (sheds_ensureEntryIn e _)
  | ensureEntries => exact stems_sheds (sheds_ensureEntries e)
  | ensureSubGraph id => exact (adds_ensureSubGraph e id).stems
  | enterNode id =>
    exact (adds_trans (f := e.setPath (some id)) (adds_of_graphs rfl)
      (adds_trans (adds_ensureSubGraph _ id) (adds_invalidate _))).stems
  | setPath target =>
    refine (adds_of_graphs ?_).stems
    rw [Edit.apply, setPath.eq_def]
    split <;> rfl
  | setSkeleton handle => exact (adds_of_graphs rfl).stems
  | setSettings settings => exact (adds_of_graphs rfl).stems
  | sort => exact stems_sheds (sheds_sort e)
  | save => exact stems_sheds (sheds_sort e)
  | compile session =>
    refine stems_trans turn_id (stems_sheds (sheds_sort e)) (adds_of_graphs ?_).stems
    rw [Edit.apply, compile]
    dsimp only
    split <;> rfl

end PoseGraph.PropertyNodes
