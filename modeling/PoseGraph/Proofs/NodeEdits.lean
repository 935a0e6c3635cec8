import PoseGraph.Proofs.LinkEdits

/-! Creating and removing nodes keeps an editor coherent: a new node takes
numbers of its own, and what could leave a state machine without an entry is
followed by marking one. -/
namespace PoseGraph.NodeEdits
open AssetOrder EditOutcomes Editor EditorCoherence LinkEdits LoweringSemantics NodeCraft

variable {a : Asset} {e f : Editor} {g h : SubGraph} {m n : Node} {owner id : NodeId} {next : Nat}
variable {except : Option NodeId} {kind : GraphKind} {category name : String} {ids doomed : List NodeId}

/-! ## New nodes -/

/-- The editor after numbers have been drawn. -/
def drawn (e : Editor) (next : Nat) : Editor := { e with nextId := next }

theorem coherent_drawn (coherent : Coherent except e) (more : e.nextId ≤ next) : Coherent except (drawn e next) :=
  coherent_of_graphs coherent rfl more coherent.named

/-- A node whose numbers have just been drawn is a newcomer. -/
theorem newcomer_withFreshIds (coherent : Coherent except e) (start : e.nextId ≤ next) (crafted : Crafted n) :
    Newcomer (drawn e (n.withFreshIds next).2) (n.withFreshIds next).1 := by
  have inside (i : Nat) (member : i ∈ nodeIdentities (n.withFreshIds next).1) :
      next ≤ i ∧ i < next + (n.pins.length + 1) := by
    rw [withFreshIds_identities, List.mem_range'_1] at member
    exact member
  refine ⟨⟨?_, ?_, ?_⟩, withFreshIds_crafted crafted, ?_⟩
  · rw [withFreshIds_identities]
    exact List.nodup_range'
  · intro i member
    have positive := coherent.positive
    have bounds := inside i member
    change 0 < i ∧ i < next + 1 + n.pins.length
    omega
  · intro i member taken
    have before := (coherent.drawn i taken).2
    have bounds := inside i member
    omega
  · intro k held
    apply (coherent.joined _ k held).resolve_right
    intro before
    change next < e.nextId at before
    omega

/-- What spawning a node from a palette yields. -/
structure Spawned (e f : Editor) (category name : String) (n : Node) : Prop where
  rest : f = drawn e f.nextId
  more : e.nextId ≤ f.nextId
  newcomer : Newcomer f n
  plain : n.kind ≠ .transition
  named : n.name = name
  under : n.category = category
  output : name = "Output" → n.isSubroutine = false ∧ n.isComment = false
  state : name = "State" → n.isSubroutine = true
  player : name = "Animation Player" → "Pose" ∈ n.outputs.map Pin.name

theorem spawn_spec (coherent : Coherent except e)
    (spawned : e.spawn (.ofKind kind) category name = some (n, f)) : Spawned e f category name n := by
  have more := spawn_more spawned
  obtain ⟨template, found, rfl, rfl⟩ := template_of_spawn spawned
  have stocked := template_stocked found
  have start : e.nextId ≤ e.nextId + template.pins.length := Nat.le_add_right _ _
  refine ⟨rfl, more, newcomer_withFreshIds coherent start stocked.crafted, stocked.plain, stocked.named, rfl, fun output => ?_,
    fun state => ?_, fun player => ?_⟩
  · have simple : template.type = .simple := stocked.output output
    change (template.type == .subroutine) = false ∧ (template.type == .comment) = false
    rw [simple]
    decide
  · have subroutine : template.type = .subroutine := stocked.state state
    change (template.type == .subroutine) = true
    rw [subroutine]
    decide
  · have names := bindFrom_names ⟨e.nextId + template.pins.length⟩ .output
      (e.nextId + template.pins.length + 1 + template.inputs.length) template.outputs
    exact names.symm ▸ stocked.player player

theorem coherent_spawned (coherent : Coherent except e) (spawned : Spawned e f category name n) :
    Coherent except f := by
  rw [spawned.rest]
  exact coherent_drawn coherent spawned.more

/-! ## Graphs of nodes -/

/-- A graph that is missing is made with its first node. -/
theorem coherent_found (coherent : Coherent except e) (newcomer : Newcomer e n) (plain : n.kind ≠ .transition)
    (missing : e.asset.graph? id = none) :
    Coherent except (e.modifyAsset fun a => (a.ensureGraph id).modifyGraph id (·.addNode n)) := by
  refine coherent_addNode (coherent_ensureGraph coherent id) (newcomer_ensureGraph newcomer id)
    (.inr ⟨plain, fun g held => ?_⟩) (.inr plain)
  change (e.asset.ensureGraph id).graph? id = some g at held
  rw [graph_ensureGraph, if_pos rfl, missing] at held
  cases held
  exact unjoined_empty

theorem coherent_ensureSubGraph (coherent : Coherent except e) (id : NodeId) :
    Coherent except (e.ensureSubGraph id) := by
  rcases ensureSubGraph_cases e id with same | ⟨n, opening, ⟨-, same⟩ | ⟨output, graph, category, f, seeding⟩⟩
  · rw [same]
    exact coherent
  · rw [same]
    exact coherent_ensureGraph coherent id
  · have spawned := spawn_spec coherent seeding.spawn
    rw [seeding.result]
    refine coherent_found (coherent_spawned coherent spawned) spawned.newcomer spawned.plain ?_
    rw [spawn_asset seeding.spawn]
    cases held : e.asset.graph? id with
    | none => rfl
    | some g => exact absurd (hasGraph_iff.mpr ⟨g, held⟩) (by simp [opening.absent])

/-- A node has been placed, but a state machine that it is in may be without an entry. -/
theorem coherent_placed (coherent : Coherent none e) (newcomer : Newcomer e n)
    (joined : owner.value < e.nextId ∨ n.kind ≠ .transition) : Coherent (some owner)
      (e.modifyAsset fun a => (a.ensureGraph owner).modifyGraph owner (·.addNode n)) :=
  coherent_addNode (coherent_ensureGraph (coherent_exempt coherent _) owner)
    (newcomer_ensureGraph newcomer owner) (.inl rfl) joined

theorem coherent_addNodeTo (coherent : Coherent none e) (newcomer : Newcomer e n)
    (joined : owner.value < e.nextId ∨ n.kind ≠ .transition) : Coherent none (e.addNode owner n) := by
  have placed := coherent_placed coherent newcomer joined
  rw [addNode]
  refine coherent_ensureEntryOfMachine ?_
  split
  · exact coherent_ensureSubGraph (coherent_invalidate placed) n.id
  · exact coherent_invalidate placed

theorem coherent_createNode (coherent : Coherent none e) (category name : String) :
    Coherent none (e.createNode category name).1 := by
  rcases createNode_cases e category name with same | ⟨n, f, spawn, same⟩
  · rw [same]
    exact coherent
  · have spawned := spawn_spec coherent spawn
    rw [same]
    exact coherent_addNodeTo (coherent_spawned coherent spawned) spawned.newcomer (.inr spawned.plain)

/-! ## What becomes of nodes -/

/-- Every node is still there, perhaps with other contents. -/
def Persists (e f : Editor) : Prop := ∀ n ∈ allNodes e.asset, ∃ m ∈ allNodes f.asset, Recast n m

theorem persists_refl (e : Editor) : Persists e e := fun n member => ⟨n, member, recast_refl n⟩

theorem persists_trans {k : Editor} (first : Persists e f) (second : Persists f k) : Persists e k := by
  intro n member
  obtain ⟨m, inside, recast⟩ := first n member
  obtain ⟨l, inK, again⟩ := second m inside
  exact ⟨l, inK, recast_trans recast again⟩

theorem persists_invalidate (e : Editor) : Persists e e.invalidate :=
  fun n member => ⟨n, member, recast_refl n⟩

theorem persists_drawn (e : Editor) (next : Nat) : Persists e (drawn e next) :=
  fun n member => ⟨n, member, recast_refl n⟩

theorem persists_modifyGraph {change : SubGraph → SubGraph}
    (keeps : ∀ g, e.asset.graph? owner = some g → ∀ n ∈ g.nodes, ∃ m ∈ (change g).nodes, Recast n m) :
    Persists e (e.modifyGraph owner change) := by
  intro n member
  obtain ⟨id, g, held, inside⟩ := mem_allNodes.mp member
  by_cases here : id = owner
  · subst here
    obtain ⟨m, inChange, recast⟩ := keeps g held n inside
    exact ⟨m, mem_allNodes.mpr ⟨id, change g, graph_modifyGraph_self held, inChange⟩, recast⟩
  · refine ⟨n, mem_allNodes.mpr ⟨id, g, ?_, inside⟩, recast_refl n⟩
    rw [Editor.modifyGraph, modifyAsset, graph_modifyGraph, if_neg here]
    exact held

theorem persists_ensureGraph (e : Editor) (owner : NodeId) : Persists e (e.modifyAsset (·.ensureGraph owner)) := by
  intro n member
  refine ⟨n, ?_, recast_refl n⟩
  change n ∈ allNodes (e.asset.ensureGraph owner)
  rw [allNodes_ensureGraph]
  exact member

theorem persists_addNode (e : Editor) (owner : NodeId) (n : Node) :
    Persists e (e.modifyGraph owner (·.addNode n)) :=
  persists_modifyGraph fun _ _ m member => ⟨m, List.mem_append_left _ member, recast_refl m⟩

theorem persists_ensureSubGraph (e : Editor) (id : NodeId) : Persists e (e.ensureSubGraph id) := by
  rcases ensureSubGraph_cases e id with same | ⟨n, -, ⟨-, same⟩ | ⟨output, graph, category, f, seeding⟩⟩
  · rw [same]
    exact persists_refl e
  · rw [same]
    exact persists_ensureGraph e id
  · have drew : Persists e f := by
      rw [spawn_rest seeding.spawn]
      exact persists_drawn e _
    rw [seeding.result]
    exact persists_trans drew (persists_trans (persists_ensureGraph f id) (persists_addNode _ id output))

theorem persists_ensureEntryOfMachine (e : Editor) (owner : NodeId) :
    Persists e (e.ensureEntryOfMachine owner) := by
  rw [ensureEntryOfMachine]
  split
  · apply persists_modifyGraph
    intro g _ n member
    obtain ⟨m, inside, edited⟩ := origin_of_mem (revised_ensureEntry g).nodes.flip member
    exact ⟨m, inside, edited_recast edited⟩
  · exact persists_refl e

private theorem persists_rest (e : Editor) (owner : NodeId) (n : Node) :
    Persists (e.modifyAsset fun a => (a.ensureGraph owner).modifyGraph owner (·.addNode n)) (e.addNode owner n) := by
  rw [addNode]
  refine persists_trans ?_ (persists_ensureEntryOfMachine _ owner)
  split
  · exact persists_trans (persists_invalidate _) (persists_ensureSubGraph _ n.id)
  · exact persists_invalidate _

theorem persists_addNodeTo (e : Editor) (owner : NodeId) (n : Node) : Persists e (e.addNode owner n) :=
  persists_trans (persists_trans (persists_ensureGraph e owner) (persists_addNode _ owner n))
    (persists_rest e owner n)

/-- The node that is added is there afterwards. -/
theorem member_addNodeTo (e : Editor) (owner : NodeId) (n : Node) :
    ∃ m ∈ allNodes (e.addNode owner n).asset, Recast n m := by
  refine persists_rest e owner n n (mem_allNodes.mpr
    ⟨owner, ((e.asset.graph? owner).getD .empty).addNode n, ?_, ?_⟩)
  · change ((e.asset.ensureGraph owner).modifyGraph owner (·.addNode n)).graph? owner = _
    rw [graph_modifyGraph, if_pos rfl, graph_ensureGraph, if_pos rfl]
    rfl
  · exact List.mem_append_right _ List.mem_cons_self

/-! ## Removing nodes -/

theorem graph_removeDeadLinks (held : e.asset.graph? owner = some g) (id : NodeId) :
    ∃ h, (e.removeDeadLinks owner id).asset.graph? owner = some h ∧ Revised g h := by
  rw [removeDeadLinks, held]
  dsimp only
  split
  · exact ⟨g, held, revised_refl g⟩
  · exact graph_dropLinksIn held g _

theorem coherent_removeDeadLinks (coherent : Coherent except e) (owner id : NodeId) :
    Coherent except (e.removeDeadLinks owner id) := by
  rcases removeDeadLinks_cases e owner id with same | ⟨g, -, same⟩
  · rw [same]
    exact coherent
  · rw [same]
    exact coherent_dropLinksIn coherent owner g _

/-- The graph without some of its nodes. -/
def without (doomed : List NodeId) (g : SubGraph) : SubGraph :=
  { g with nodes := g.nodes.filter fun n => !doomed.contains n.id }

theorem graph_dropNodes (held : e.asset.graph? owner = some g) (doomed : List NodeId) :
    ∃ h, (e.dropNodes owner doomed).asset.graph? owner = some (without doomed h) ∧ Revised g h := by
  have fold (ids : List NodeId) (e : Editor) (g : SubGraph) (held : e.asset.graph? owner = some g) :
      ∃ h, (ids.foldl (fun e id => e.removeDeadLinks owner id) e).asset.graph? owner = some h ∧ Revised g h := by
    induction ids generalizing e g with
    | nil => exact ⟨g, held, revised_refl g⟩
    | cons id ids ih =>
      obtain ⟨h, found, first⟩ := graph_removeDeadLinks held id
      obtain ⟨k, last, second⟩ := ih _ h found
      exact ⟨k, last, revised_trans first second⟩
  obtain ⟨h, found, revised⟩ := fold doomed e g held
  exact ⟨h, graph_modifyGraph_self found, revised⟩

theorem coherent_dropNodes (coherent : Coherent (some owner) e) (doomed : List NodeId) :
    Coherent (some owner) (e.dropNodes owner doomed) := by
  have fold (ids : List NodeId) (e : Editor) (coherent : Coherent (some owner) e) :
      Coherent (some owner) (ids.foldl (fun e id => e.removeDeadLinks owner id) e) := by
    induction ids generalizing e with
    | nil => exact coherent
    | cons id ids ih => exact ih _ (coherent_removeDeadLinks coherent owner id)
  have unlinked := fold doomed e coherent
  refine coherent_develop unlinked newcomers_nil fun g held => ⟨?_, ?_, ?_, .inl rfl, .inr ?_⟩
  · rw [List.append_nil]
    exact ((List.filter_sublist.flatMap nodeIdentities).append (.refl _)).subperm
  · exact fun m inside => graph_crafted unlinked held m (List.mem_filter.mp inside).1
  · exact fun m inside machine => .inl ⟨m, (List.mem_filter.mp inside).1, machine, rfl⟩
  · exact fun unjoined m inside => unjoined m (List.mem_filter.mp inside).1

theorem graph_dropOrphans (held : a.dropOrphans.graph? id = some g) : a.graph? id = some g := by
  rw [Asset.graph?, get_eq_some_iff] at held ⊢
  exact (List.mem_filter.mp held).1

theorem coherent_dropOrphans (coherent : Coherent except e) : Coherent except (e.modifyAsset (·.dropOrphans)) := by
  have kept : (e.asset.dropOrphans.graphs.values).Sublist e.asset.graphs.values := List.filter_sublist.map _
  have nodes : (allNodes e.asset.dropOrphans).Sublist (allNodes e.asset) := kept.flatMap _
  have taken : (allIdentities e.asset.dropOrphans).Sublist (allIdentities e.asset) := kept.flatMap _
  exact ⟨coherent.positive, coherent.distinct.sublist taken, fun i inside => coherent.drawn i (taken.subset inside),
    fun n member => coherent.crafted n (nodes.subset member), coherent.named,
    fun n member machine spared g held => coherent.entered n (nodes.subset member) machine spared g
      (graph_dropOrphans held),
    fun owner g held => coherent.joined owner g (graph_dropOrphans held)⟩

theorem coherent_collectOrphans (coherent : Coherent except e) :
    Coherent except (e.modifyAsset (·.collectOrphans)) := by
  have rounds (count : Nat) (e : Editor) (coherent : Coherent except e) :
      Coherent except (e.modifyAsset (Asset.collectOrphans.go count)) := by
    induction count generalizing e with
    | zero => exact coherent
    | succ count ih =>
      have after := ih _ (coherent_dropOrphans coherent)
      rw [modifyAsset, Asset.collectOrphans.go]
      split
      · exact coherent
      · exact after
  exact rounds _ e coherent

theorem without_shorter (known : ∀ id ∈ doomed, g.hasNode id = true) (some : doomed ≠ []) (revised : Revised g h) :
    (without doomed h).nodes.length < g.nodes.length := by
  obtain ⟨id, inside⟩ := List.exists_mem_of_ne_nil doomed some
  have hit := known id inside
  rw [SubGraph.hasNode, List.any_eq_true] at hit
  obtain ⟨n, member, same⟩ := hit
  obtain ⟨m, inH, edited⟩ := origin_of_mem revised.nodes.flip member
  rw [revised.nodes.length_eq, without]
  refine List.length_filter_lt_length_iff_exists.mpr ⟨m, inH, ?_⟩
  rw [edited.id, beq_iff_eq.mp same]
  simpa using inside

theorem dangling_known (g : SubGraph) : ∀ id ∈ g.danglingTransitions, g.hasNode id = true := by
  intro id inside
  obtain ⟨n, member, rfl⟩ := List.mem_map.mp inside
  rw [SubGraph.hasNode, List.any_eq_true]
  exact ⟨n, (List.mem_filter.mp member).1, by simp⟩

/-- Each round removes a node, so that the rounds come to their end: what every round
keeps holds when the orphans are collected. -/
theorem removeRounds_ends {P : Editor → Prop} {rounds : Nat}
    (drop : ∀ f doomed, P f → P (f.dropNodes owner doomed).invalidate) (start : P e)
    (held : e.asset.graph? owner = some g) (enough : g.nodes.length < rounds)
    (known : ∀ id ∈ doomed, g.hasNode id = true) (some_ : doomed ≠ []) :
    ∃ f, P f ∧ removeRounds owner rounds e doomed = (f.modifyAsset (·.collectOrphans)).ensureEntryOfMachine owner := by
  induction rounds generalizing e g doomed with
  | zero => exact absurd enough (Nat.not_lt_zero _)
  | succ rounds ih =>
    obtain ⟨h, found, revised⟩ := graph_dropNodes held doomed
    have fewer := without_shorter known some_ revised
    have after : (e.dropNodes owner doomed).invalidate.asset.graph? owner = some (without doomed h) := found
    rw [removeRounds]
    simp only [after, Option.map_some, Option.getD_some]
    split
    · exact ⟨_, drop e doomed start, rfl⟩
    · rename_i remain
      exact ih (drop e doomed start) after (by omega) (dangling_known _) (by simpa using remain)

/-- Removing nodes does nothing, or it comes to the collection of orphans. -/
theorem removeNodesIn_ends {P : Editor → Prop} (drop : ∀ f doomed, P f → P (f.dropNodes owner doomed).invalidate)
    (start : P e) (ids : List NodeId) : (e.removeNodesIn owner ids).1 = e ∨
      ∃ f, P f ∧ (e.removeNodesIn owner ids).1 = (f.modifyAsset (·.collectOrphans)).ensureEntryOfMachine owner := by
  rw [removeNodesIn]
  split
  · exact .inl rfl
  · rename_i g held
    dsimp only
    split
    · exact .inl rfl
    · rename_i some_
      exact .inr (removeRounds_ends drop start held (Nat.lt_succ_self _)
        (fun id inside => (List.mem_filter.mp inside).2) (by simpa using some_))

theorem coherent_removeNodesIn (coherent : Coherent none e) (owner : NodeId) (ids : List NodeId) :
    Coherent none (e.removeNodesIn owner ids).1 := by
  rcases removeNodesIn_ends (fun f doomed coherent => coherent_invalidate (coherent_dropNodes coherent doomed))
    (coherent_exempt coherent (some owner)) ids with same | ⟨f, after, same⟩
  · rw [same]
    exact coherent
  · rw [same]
    exact coherent_ensureEntryOfMachine (coherent_collectOrphans after)

/-! ## Literals and layout -/

theorem coherent_setPinValue (coherent : Coherent except e) (pin : PinId) (v : Value) :
    Coherent except (e.setPinValue pin v).1 := by
  have set : Coherent except ((e.modifyGraph e.activeOwner (·.modifyPin pin (·.withValue v))).invalidate) :=
    coherent_invalidate (coherent_revise coherent fun g _ => revised_withValue g pin v)
  rcases setPinValue_cases e pin v with same | ⟨_, rfl, same | ⟨id, label, same⟩⟩
  · rw [same]
    exact coherent
  · rw [same]
    exact set
  · rw [same]
    exact coherent_revise set fun g _ => revised_modifyNode fun n _ _ =>
      ⟨rfl, rfl, rfl, rfl, rfl, .inl rfl, fun marked => marked⟩

theorem coherent_editNode (coherent : Coherent except e) {f : Node → Node} (each : ∀ n, Edited n (f n))
    (id : NodeId) : Coherent except (e.editNode id f) :=
  coherent_invalidate (coherent_revise coherent fun _ _ => revised_modifyNode fun n _ _ => each n)

end PoseGraph.NodeEdits
