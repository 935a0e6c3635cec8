import PoseGraph.Proofs.NodeFaces

/-! Where state machines begin. At most one node of a graph is marked, and a state
machine with states has a node that is. Which nodes lie in a machine is up to its
palette, but for the nodes of properties, which can be placed anywhere. They count as
states to the mark. -/
namespace PoseGraph.EntryStates
open AssetOrder EditOutcomes Editor EditorCoherence EditorSoundness Nesting NodeCraft NodeEdits NodeFaces PlacingEdits

variable {visitors : Prop} {e f : Editor} {g : SubGraph} {m n x y : Node} {owner id place : NodeId} {except : Option NodeId}
variable {other : Option NodeId} {ids doomed : List NodeId} {category name : String} {kind : GraphKind}

/-! ## What nodes are to a machine -/

/-- A state, a quick state or a state machine. -/
def StateKind (n : Node) : Prop := n.kind = .state ∨ n.kind = .quickState ∨ n.kind = .stateMachine

/-- A node of an input or a local variable. -/
def Visitor (n : Node) : Prop := n.category = PropertyKind.input.token ∨ n.category = localVariableCategory

instance (n : Node) : Decidable (StateKind n) := inferInstanceAs (Decidable (_ ∨ _))

instance (n : Node) : Decidable (Visitor n) := inferInstanceAs (Decidable (_ ∨ _))

/-- What a machine holds that counts as a state: states, and visitors where they may be placed. -/
def Kin (visitors : Prop) (n : Node) : Prop := StateKind n ∧ ¬Visitor n ∨ visitors ∧ Visitor n

/-- A node called a state machine owns one, unless it is the node of a variable. -/
def Proper (visitors : Prop) (n : Node) : Prop :=
  n.kind = .stateMachine → n.isSubroutine = true ∨ visitors ∧ n.category = localVariableCategory

theorem machine_name (machine : n.kind = .stateMachine) : n.name = "State Machine" := by
  rw [Node.kind] at machine
  repeat' split at machine
  all_goals first | assumption | cases machine

theorem stateKind_isState (crafted : Crafted n) (kind : StateKind n) : n.isState = true := by
  rw [Node.isState, Bool.and_eq_true, Bool.not_eq_true']
  constructor
  · by_contra comment
    rw [Bool.not_eq_false] at comment
    simp [StateKind, Node.kind, (crafted.comment comment).2] at kind
  · rcases kind with kind | kind | kind <;> rw [kind] <;> decide

/-- Each graph has one mark at most, which a state bears, and a machine with states has
one. In the middle of an edit, one machine may be without. -/
structure Led (visitors : Prop) (except : Option NodeId) (e : Editor) : Prop where
  single : ∀ owner, ∀ x ∈ faces e owner, ∀ y ∈ faces e owner, x.isEntry = true → y.isEntry = true → x.id = y.id
  states : ∀ owner, ∀ x ∈ faces e owner, x.isEntry = true → x.isState = true
  proper : ∀ owner, ∀ x ∈ faces e owner, Proper visitors x
  kin : ∀ place, ∀ m ∈ faces e place, IsMachine m → ∀ x ∈ faces e m.id, x.isState = true → Kin visitors x
  led : ∀ place, ∀ m ∈ faces e place, IsMachine m → some m.id ≠ except → ∀ x ∈ faces e m.id, x.isState = true →
    ∃ y ∈ faces e m.id, y.isEntry = true

theorem led_exempt (led : Led visitors none e) (except : Option NodeId) : Led visitors except e :=
  { led with led := fun place m member machine _ => led.led place m member machine (by simp) }

theorem led_sameFaces (led : Led visitors except e) (same : SameFaces e f) : Led visitors except f := by
  refine ⟨fun owner x inX y inY => ?_, fun owner x inX => ?_, fun owner x inX => ?_, fun place m inM machine x inX => ?_,
    fun place m inM machine spared x inX state => ?_⟩
  · exact led.single owner x ((same owner x).mp inX) y ((same owner y).mp inY)
  · exact led.states owner x ((same owner x).mp inX)
  · exact led.proper owner x ((same owner x).mp inX)
  · exact led.kin place m ((same place m).mp inM) machine x ((same m.id x).mp inX)
  · obtain ⟨y, inY, marked⟩ := led.led place m ((same place m).mp inM) machine spared x ((same m.id x).mp inX) state
    exact ⟨y, (same m.id y).mpr inY, marked⟩

theorem led_invalidate (led : Led visitors except e) : Led visitors except e.invalidate := led_sameFaces led (sameFaces_invalidate e)

/-- What a face can become without the machines noticing. -/
structure Succeeds (visitors : Prop) (y x : Node) : Prop where
  id : x.id = y.id
  state : x.isState = y.isState
  machine : IsMachine x → IsMachine y
  proper : Proper visitors y → Proper visitors x
  kin : Kin visitors y → Kin visitors x

theorem succeeds_refl (visitors : Prop) (x : Node) : Succeeds visitors x x :=
  ⟨rfl, rfl, fun machine => machine, fun proper => proper, fun kin => kin⟩

theorem led_succeeds (led : Led visitors except e)
    (origin : ∀ owner, ∀ x ∈ faces f owner, ∃ y ∈ faces e owner, Succeeds visitors y x)
    (marked : ∀ owner, (∃ y ∈ faces e owner, y.isEntry = true) → ∃ x ∈ faces f owner, x.isEntry = true)
    (single : ∀ owner, ∀ x ∈ faces f owner, ∀ y ∈ faces f owner, x.isEntry = true → y.isEntry = true → x.id = y.id)
    (states : ∀ owner, ∀ x ∈ faces f owner, x.isEntry = true → x.isState = true) : Led visitors except f := by
  refine ⟨single, states, fun owner x inX => ?_, fun place m inM machine x inX state => ?_,
    fun place m inM machine spared x inX state => ?_⟩
  · obtain ⟨y, inY, succeeds⟩ := origin owner x inX
    exact succeeds.proper (led.proper owner y inY)
  · obtain ⟨k, inK, same⟩ := origin place m inM
    obtain ⟨y, inY, succeeds⟩ := origin m.id x inX
    rw [same.id] at inY
    exact succeeds.kin (led.kin place k inK (same.machine machine) y inY (succeeds.state.symm.trans state))
  · obtain ⟨k, inK, same⟩ := origin place m inM
    obtain ⟨y, inY, succeeds⟩ := origin m.id x inX
    rw [same.id] at inY spared
    exact marked m.id (same.id ▸ led.led place k inK (same.machine machine) spared y inY (succeeds.state.symm.trans state))

/-- Where the marks stay on their nodes, there is nothing else to check. -/
theorem led_faithful (led : Led visitors except e)
    (origin : ∀ owner, ∀ x ∈ faces f owner, ∃ y ∈ faces e owner, Succeeds visitors y x ∧ x.isEntry = y.isEntry)
    (marked : ∀ owner, (∃ y ∈ faces e owner, y.isEntry = true) → ∃ x ∈ faces f owner, x.isEntry = true) :
    Led visitors except f := by
  refine led_succeeds led (fun owner x inX => ?_) marked (fun owner x inX y inY markX markY => ?_) fun owner x inX mark => ?_
  · obtain ⟨y, inY, succeeds, -⟩ := origin owner x inX
    exact ⟨y, inY, succeeds⟩
  · obtain ⟨k, inK, sameK, markK⟩ := origin owner x inX
    obtain ⟨l, inL, sameL, markL⟩ := origin owner y inY
    exact (sameK.id.trans (led.single owner k inK l inL (markK.symm.trans markX) (markL.symm.trans markY))).trans sameL.id.symm
  · obtain ⟨y, inY, succeeds, same⟩ := origin owner x inX
    exact succeeds.state.trans (led.states owner y inY (same.symm.trans mark))

/-! ## Marking -/

/-- Nothing is marked where a mark is or no state, and the first state elsewhere. -/
theorem ensureEntry_cases (g : SubGraph) :
    g.ensureEntry = g ∧ ((∃ n ∈ g.nodes, n.isEntry = true) ∨ ∀ n ∈ g.nodes, n.isState = false) ∨
    ∃ before n after, g.nodes = before ++ n :: after ∧ n.isState = true ∧ (∀ k ∈ g.nodes, k.isEntry = false) ∧
      g.ensureEntry.nodes = before ++ { n with isEntry := true } :: after := by
  rw [SubGraph.ensureEntry]
  split
  · rename_i marked
    exact .inl ⟨rfl, .inl (by simpa using marked)⟩
  · rename_i plain
    cases found : g.nodes.find? Node.isState with
    | none =>
      have stateless : ∀ n ∈ g.nodes, n.isState = false := by simpa using List.find?_eq_none.mp found
      rw [modifyFirst_none stateless]
      exact .inl ⟨rfl, .inr stateless⟩
    | some n =>
      obtain ⟨before, after, split, modified, -⟩ := modifyFirst_eq (f := fun n => { n with isEntry := true }) found
      exact .inr ⟨before, n, after, split, List.find?_some found, by simpa using plain, modified⟩

theorem succeeds_marked (visitors : Prop) (x : Node) : Succeeds visitors x { x with isEntry := true } :=
  ⟨rfl, rfl, fun machine => machine, fun proper => proper, fun kin => kin⟩

/-- The first mark of a graph. -/
theorem led_marked {before after : List Node} (led : Led visitors except e) (was : faces e owner = before ++ x :: after)
    (look : ∀ id, faces f id = if id = owner then before ++ { x with isEntry := true } :: after else faces e id)
    (plain : ∀ y ∈ faces e owner, y.isEntry = false) (state : x.isState = true) : Led visitors except f := by
  have here (y : Node) (inside : y ∈ faces f owner) : y ∈ faces e owner ∨ y = { x with isEntry := true } := by
    rw [look, if_pos rfl] at inside
    rw [was]
    simp only [List.mem_append, List.mem_cons] at inside ⊢
    tauto
  have only (y : Node) (inside : y ∈ faces f owner) (mark : y.isEntry = true) : y = { x with isEntry := true } := by
    refine (here y inside).resolve_left fun old => ?_
    rw [plain y old] at mark
    cases mark
  have elsewhere {id : NodeId} (other : id ≠ owner) : faces f id = faces e id := by rw [look, if_neg other]
  refine led_succeeds led (fun id y inside => ?_) (fun id some_ => ?_) (fun id y inY z inZ markY markZ => ?_) fun id y inside mark => ?_
  · by_cases at_ : id = owner
    · subst at_
      rcases here y inside with old | rfl
      · exact ⟨y, old, succeeds_refl visitors y⟩
      · exact ⟨x, by simp [was], succeeds_marked visitors x⟩
    · exact ⟨y, elsewhere at_ ▸ inside, succeeds_refl visitors y⟩
  · by_cases at_ : id = owner
    · subst at_
      obtain ⟨y, inside, mark⟩ := some_
      rw [plain y inside] at mark
      cases mark
    · exact elsewhere at_ ▸ some_
  · by_cases at_ : id = owner
    · subst at_
      rw [only y inY markY, only z inZ markZ]
    · rw [elsewhere at_] at inY inZ
      exact led.single id y inY z inZ markY markZ
  · by_cases at_ : id = owner
    · subst at_
      rw [only y inside mark]
      exact state
    · exact led.states id y (elsewhere at_ ▸ inside) mark

theorem led_ensureEntryIn (led : Led visitors except e) (owner : NodeId) : Led visitors except (e.ensureEntryIn owner) := by
  cases held : e.asset.graph? owner with
  | none =>
    rw [ensureEntryIn, modifyGraph_absent held]
    exact led
  | some g =>
    rcases ensureEntry_cases g with ⟨same, -⟩ | ⟨before, n, after, split, state, plain, marked⟩
    · refine led_sameFaces led fun id x => ?_
      rw [ensureEntryIn, faces_modifyGraph held, same]
      split
      · rename_i here
        rw [here, faces, graphOf_eq held]
      · rfl
    · have was : faces e owner = before.map face ++ face n :: after.map face := by
        rw [faces, graphOf_eq held, split, List.map_append, List.map_cons]
      refine led_marked led was (fun id => ?_) (fun x inside => ?_) state
      · rw [ensureEntryIn, faces_modifyGraph held, marked, List.map_append, List.map_cons]
        rfl
      · rw [faces, graphOf_eq held] at inside
        obtain ⟨k, member, rfl⟩ := List.mem_map.mp inside
        exact plain k member

/-- Where there is a state, there is a mark then. -/
theorem marked_ensureEntryIn (e : Editor) (owner : NodeId) (inside : x ∈ faces (e.ensureEntryIn owner) owner)
    (state : x.isState = true) : ∃ y ∈ faces (e.ensureEntryIn owner) owner, y.isEntry = true := by
  cases held : e.asset.graph? owner with
  | none =>
    rw [ensureEntryIn, modifyGraph_absent held, faces, graphOf_missing held] at inside
    cases inside
  | some g =>
    have look : faces (e.ensureEntryIn owner) owner = g.ensureEntry.nodes.map face := by
      rw [ensureEntryIn, faces_modifyGraph held, if_pos rfl]
    rw [look] at inside ⊢
    rcases ensureEntry_cases g with ⟨same, ⟨n, member, marked⟩ | stateless⟩ | ⟨before, n, after, -, -, -, marked⟩
    · rw [same]
      exact ⟨face n, List.mem_map_of_mem member, marked⟩
    · rw [same] at inside
      obtain ⟨n, member, rfl⟩ := List.mem_map.mp inside
      exact absurd (stateless n member) (by rw [show n.isState = true from state]; decide)
    · refine ⟨{ face n with isEntry := true }, ?_, rfl⟩
      rw [marked, List.map_append, List.map_cons]
      exact List.mem_append_right _ List.mem_cons_self

/-- The owner of a graph is no machine if another kind of node has its identity. -/
theorem other_machine (coherent : Coherent other e) (member : n ∈ allNodes e.asset) (plain : ¬IsMachine n) (place : NodeId) :
    ∀ m ∈ faces e place, IsMachine m → m.id ≠ n.id := by
  intro m inside machine same
  obtain ⟨k, there, rfl⟩ := node_of_face inside
  have equal : k = n := List.inj_on_of_nodup_map (identified_of_coherent coherent).nodes there member same
  exact plain (equal ▸ machine)

theorem machine_owner (coherent : Coherent other e) (inside : m ∈ faces e place) (machine : IsMachine m) :
    e.asset.ownerKind? m.id = some .stateMachine := by
  obtain ⟨n, member, rfl⟩ := node_of_face inside
  exact machine_ownerKind (n := n) coherent member machine

theorem led_ensureEntryOfMachine (coherent : Coherent other e) (led : Led visitors (some owner) e) :
    Led visitors none (e.ensureEntryOfMachine owner) := by
  rw [ensureEntryOfMachine]
  split
  · have after := led_ensureEntryIn led owner
    refine { after with led := fun place m inM machine _ x inX state => ?_ }
    by_cases here : m.id = owner
    · rw [here] at inX ⊢
      exact marked_ensureEntryIn e owner inX state
    · exact after.led place m inM machine (fun same => here (Option.some.inj same)) x inX state
  · rename_i plain
    refine { led with led := fun place m inM machine _ => led.led place m inM machine fun same => plain ?_ }
    exact Option.some.inj same ▸ machine_owner coherent inM machine

theorem led_ensureEntries (led : Led visitors except e) : Led visitors except e.ensureEntries := by
  have fold (owners : List NodeId) (e : Editor) (led : Led visitors except e) :
      Led visitors except (owners.foldl ensureEntryIn e) := by
    induction owners generalizing e with
    | nil => exact led
    | cons owner owners ih => exact ih _ (led_ensureEntryIn led owner)
  exact fold _ e led

/-! ## Placing nodes -/

/-- A node that may be placed in the graph of an owner. No graph waits for it if it is
a machine. -/
structure Arrives (visitors : Prop) (e : Editor) (owner : NodeId) (n : Node) : Prop where
  unmarked : n.isEntry = false
  proper : Proper visitors n
  kin : ∀ place, ∀ m ∈ faces e place, IsMachine m → m.id = owner → n.isState = true → Kin visitors n
  machine : IsMachine n → Kin visitors n ∧ faces e n.id = []

theorem led_addNode (led : Led visitors except e) (arrives : Arrives visitors e owner n)
    (held : e.asset.graph? owner = some g)
    (may : some owner = except ∨ ¬IsMachine n ∧ ∀ place, ∀ m ∈ faces e place, IsMachine m → m.id ≠ owner) :
    Led visitors except (e.modifyGraph owner (·.addNode n)) := by
  have look (id : NodeId) (x : Node) : x ∈ faces (e.modifyGraph owner (·.addNode n)) id ↔
      x ∈ faces e id ∨ id = owner ∧ x = face n := by
    rw [faces_modifyGraph held]
    split
    · rename_i here
      rw [here, faces, graphOf_eq held, SubGraph.addNode, List.map_append, List.mem_append, List.map_singleton,
        List.mem_singleton]
      simp
    · rename_i elsewhere
      simp [elsewhere]
  have marks (id : NodeId) (x : Node) (inside : x ∈ faces (e.modifyGraph owner (·.addNode n)) id) (mark : x.isEntry = true) :
      x ∈ faces e id := by
    refine ((look id x).mp inside).resolve_right ?_
    rintro ⟨-, rfl⟩
    exact absurd mark (by rw [show (face n).isEntry = false from arrives.unmarked]; decide)
  refine ⟨fun id x inX y inY markX markY => led.single id x (marks id x inX markX) y (marks id y inY markY) markX markY,
    fun id x inX mark => led.states id x (marks id x inX mark) mark, fun id x inX => ?_,
    fun place m inM machine x inX state => ?_, fun place m inM machine spared x inX state => ?_⟩
  · rcases (look id x).mp inX with old | ⟨-, rfl⟩
    · exact led.proper id x old
    · exact arrives.proper
  · rcases (look place m).mp inM with old | ⟨-, rfl⟩
    · rcases (look m.id x).mp inX with before | ⟨here, rfl⟩
      · exact led.kin place m old machine x before state
      · exact arrives.kin place m old machine here state
    · obtain ⟨own, empty⟩ := arrives.machine machine
      rcases (look (face n).id x).mp inX with before | ⟨-, rfl⟩
      · rw [show faces e (face n).id = [] from empty] at before
        cases before
      · exact own
  · rcases (look place m).mp inM with old | ⟨-, rfl⟩
    · have here : m.id ≠ owner := may.elim (fun exempt same => spared (same ▸ exempt)) fun none => none.2 place m old machine
      have before : x ∈ faces e m.id := ((look m.id x).mp inX).resolve_right fun new => here new.1
      obtain ⟨y, inY, marked⟩ := led.led place m old machine spared x before state
      exact ⟨y, (look m.id y).mpr (.inl inY), marked⟩
    · have here : n.id ≠ owner := may.elim (fun exempt same => spared (same ▸ exempt)) fun none => absurd machine none.1
      rcases (look (face n).id x).mp inX with before | ⟨same, -⟩
      · rw [show faces e (face n).id = [] from (arrives.machine machine).2] at before
        cases before
      · exact absurd same here

theorem arrives_faces (arrives : Arrives visitors e owner n) (same : faces f = faces e) : Arrives visitors f owner n := by
  refine ⟨arrives.unmarked, arrives.proper, ?_, ?_⟩
  · rw [same]
    exact arrives.kin
  · rw [same]
    exact arrives.machine

/-- Placing a node in a graph that may have to be made first. -/
theorem led_placed (led : Led visitors except e) (arrives : Arrives visitors e owner n)
    (may : some owner = except ∨ ¬IsMachine n ∧ ∀ place, ∀ m ∈ faces e place, IsMachine m → m.id ≠ owner) :
    Led visitors except (e.modifyAsset fun a => (a.ensureGraph owner).modifyGraph owner (·.addNode n)) := by
  have same : faces (e.modifyAsset (·.ensureGraph owner)) = faces e := funext fun _ => faces_ensureGraph
  have held : (e.modifyAsset (·.ensureGraph owner)).asset.graph? owner = some ((e.asset.graph? owner).getD .empty) := by
    change (e.asset.ensureGraph owner).graph? owner = _
    rw [graph_ensureGraph, if_pos rfl]
  refine led_addNode (e := e.modifyAsset (·.ensureGraph owner)) (led_sameFaces led fun id x => ?_)
    (arrives_faces arrives same) held ?_
  · rw [same]
  · rw [same]
    exact may

/-! ## Palettes -/

/-- What holds of a template for the machines in which it may be placed. -/
structure Fitting (kind : GraphKind) (template : Node) : Prop where
  unmarked : template.isEntry = false
  owns : template.kind = .stateMachine → template.isSubroutine = true
  foreign : ¬Visitor template
  native : kind = .stateMachine → template.isState = true → StateKind template

instance (kind : GraphKind) (template : Node) : Decidable (Fitting kind template) :=
  decidable_of_iff (template.isEntry = false ∧ (template.kind = .stateMachine → template.isSubroutine = true) ∧
      ¬Visitor template ∧ (kind = .stateMachine → template.isState = true → StateKind template))
    ⟨fun ⟨unmarked, owns, foreign, native⟩ => ⟨unmarked, owns, foreign, native⟩,
      fun ⟨unmarked, owns, foreign, native⟩ => ⟨unmarked, owns, foreign, native⟩⟩

theorem palettes_fitting (kind : GraphKind) : ∀ shelf ∈ (Palette.ofKind kind).registry.entries,
    ∀ entry ∈ shelf.2.entries, Fitting kind { entry.2 with category := shelf.1 } := by
  cases kind <;> decide +kernel

theorem spawn_fitting (spawned : e.spawn (.ofKind kind) category name = some (n, f)) : Fitting kind n := by
  obtain ⟨template, found, rfl, -⟩ := template_of_spawn spawned
  obtain ⟨shelf, held, entry⟩ := Option.bind_eq_some_iff.mp found
  have fitting := palettes_fitting kind (category, shelf) (get_eq_some_iff.mp held) (name, template) (get_eq_some_iff.mp entry)
  exact ⟨fitting.unmarked, fitting.owns, fitting.foreign, fitting.native⟩

theorem fitting_kin (fitting : Fitting kind n) (machine : IsMachine n) : Kin visitors n :=
  .inl ⟨.inr (.inr machine.2), fitting.foreign⟩

theorem led_ensureSubGraph (coherent : Coherent other e) (led : Led visitors except e) (id : NodeId) :
    Led visitors except (e.ensureSubGraph id) := by
  rcases ensureSubGraph_cases e id with same | ⟨n, opening, ⟨-, same⟩ | ⟨output, graph, category, f, seeding⟩⟩
  · rw [same]
    exact led
  · rw [same]
    exact led_sameFaces led fun id x => by rw [faces_ensureGraph]
  · obtain ⟨member, rfl⟩ := findNode_spec opening.found
    have fitting := spawn_fitting seeding.spawn
    have named := (spawn_spec coherent seeding.spawn).named
    have same : faces f = faces e := faces_of_graphs (by rw [spawn_asset seeding.spawn])
    have plain : output.kind ≠ .stateMachine := fun kind => by simp [machine_name kind] at named
    have other := other_machine coherent member fun owns => seeding.kind owns.2
    have arrives : Arrives visitors e n.id output :=
      ⟨fitting.unmarked, fun kind => absurd kind plain, fun place m inside owns same => absurd same (other place m inside owns),
        fun owns => absurd owns.2 plain⟩
    rw [seeding.result]
    refine led_placed (e := f) (led_sameFaces led fun id x => by rw [same]) (arrives_faces arrives same)
      (.inr ⟨fun owns => plain owns.2, ?_⟩)
    rw [same]
    exact other

theorem led_addNodeTo (coherent : Coherent none e) (led : Led visitors none e) (newcomer : Newcomer e n)
    (arrives : Arrives visitors e owner n) (joined : owner.value < e.nextId ∨ n.kind ≠ .transition) :
    Led visitors none (e.addNode owner n) := by
  have placed := coherent_invalidate (coherent_placed coherent newcomer joined)
  have after := led_invalidate (led_placed (led_exempt led (some owner)) arrives (.inl rfl))
  rw [addNode]
  split
  · exact led_ensureEntryOfMachine (coherent_ensureSubGraph placed n.id) (led_ensureSubGraph placed after n.id)
  · exact led_ensureEntryOfMachine placed after

/-! ## Removing nodes -/

/-- The second editor has fewer nodes, but machines other than one have kept theirs or are gone. -/
structure Thins (owner : NodeId) (e f : Editor) : Prop where
  fewer : ∀ place, ∀ x ∈ faces f place, x ∈ faces e place
  kept : ∀ place, ∀ m ∈ faces f place, m.id ≠ owner → ∀ x ∈ faces e m.id, x ∈ faces f m.id

theorem led_thins (led : Led visitors (some owner) e) (thins : Thins owner e f) : Led visitors (some owner) f := by
  refine ⟨fun id x inX y inY => ?_, fun id x inX => ?_, fun id x inX => ?_, fun place m inM machine x inX => ?_,
    fun place m inM machine spared x inX state => ?_⟩
  · exact led.single id x (thins.fewer id x inX) y (thins.fewer id y inY)
  · exact led.states id x (thins.fewer id x inX)
  · exact led.proper id x (thins.fewer id x inX)
  · exact led.kin place m (thins.fewer place m inM) machine x (thins.fewer m.id x inX)
  · obtain ⟨y, inY, marked⟩ :=
      led.led place m (thins.fewer place m inM) machine spared x (thins.fewer m.id x inX) state
    exact ⟨y, thins.kept place m inM (fun here => spared (congrArg some here)) y inY, marked⟩

theorem led_dropNodes (led : Led visitors (some owner) e) (doomed : List NodeId) :
    Led visitors (some owner) (e.dropNodes owner doomed) := by
  have unlinked := led_sameFaces led (sameFaces_foldl (fun e id => sameFaces_removeDeadLinks e owner id) doomed e)
  refine led_thins unlinked ?_
  rw [dropNodes]
  generalize doomed.foldl (fun e id => e.removeDeadLinks owner id) e = f
  cases held : f.asset.graph? owner with
  | none =>
    rw [modifyGraph_absent held]
    exact ⟨fun _ _ inside => inside, fun _ _ _ _ _ inside => inside⟩
  | some g =>
    refine ⟨fun place x inside => ?_, fun place m _ elsewhere x inside => ?_⟩
    · rw [faces_modifyGraph held] at inside
      split at inside
      · rename_i here
        rw [here, faces, graphOf_eq held]
        obtain ⟨n, member, rfl⟩ := List.mem_map.mp inside
        exact List.mem_map_of_mem (List.mem_filter.mp member).1
      · exact inside
    · rw [faces_modifyGraph held, if_neg elsewhere]
      exact inside

theorem thins_collectOrphans (owner : NodeId) (e : Editor) : Thins owner e (e.modifyAsset (·.collectOrphans)) := by
  have collected := collected_collectOrphans e.asset
  have look {place : NodeId} {x : Node} (inside : x ∈ faces (e.modifyAsset (·.collectOrphans)) place) :
      ∃ g, e.asset.collectOrphans.graph? place = some g ∧ x ∈ g.nodes.map face := by
    cases found : (e.modifyAsset (·.collectOrphans)).asset.graph? place with
    | none =>
      rw [faces, graphOf_missing found] at inside
      cases inside
    | some g =>
      rw [faces, graphOf_eq found] at inside
      exact ⟨g, found, inside⟩
  refine ⟨fun place x inside => ?_, fun place m inM _ x inside => ?_⟩
  · obtain ⟨g, found, member⟩ := look inside
    rw [faces, graphOf_eq (collected.graphs place g found)]
    exact member
  · obtain ⟨g, found, member⟩ := look inM
    obtain ⟨n, inG, rfl⟩ := List.mem_map.mp member
    cases held : e.asset.graph? (face n).id with
    | none =>
      rw [faces, graphOf_missing held] at inside
      cases inside
    | some h =>
      -- The machine is still there, so that its graph is no orphan.
      obtain ⟨k, kept⟩ := hasGraph_iff.mp (collected.kept (face n).id (hasGraph_iff.mpr ⟨h, held⟩)
        (.inr ⟨place, n.type, g, found, n, inG, rfl, rfl⟩))
      have same := collected.graphs (face n).id k kept
      rw [held] at same
      cases same
      rw [faces, graphOf_eq held] at inside
      rw [faces, graphOf_eq (a := (e.modifyAsset (·.collectOrphans)).asset) kept]
      exact inside

theorem led_removeNodesIn (coherent : Coherent none e) (led : Led visitors none e) (owner : NodeId) (ids : List NodeId) :
    Led visitors none (e.removeNodesIn owner ids).1 := by
  rcases removeNodesIn_ends (P := fun f => Coherent (some owner) f ∧ Led visitors (some owner) f)
    (fun f doomed both => ⟨coherent_invalidate (coherent_dropNodes both.1 doomed), led_invalidate (led_dropNodes both.2 doomed)⟩)
    ⟨coherent_exempt coherent _, led_exempt led _⟩ ids with same | ⟨f, ⟨whole, after⟩, same⟩
  · rw [same]
    exact led
  · rw [same]
    exact led_ensureEntryOfMachine (coherent_collectOrphans whole) (led_thins after (thins_collectOrphans owner f))

end PoseGraph.EntryStates
