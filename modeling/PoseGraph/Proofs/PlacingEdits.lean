import PoseGraph.Proofs.SheddingEdits
import PoseGraph.Proofs.StateEdits

/-! Placing nodes keeps an editor sound. What a palette offers suits the graphs of
its kind, and a node that has just got its identity belongs to no graph and owns
none: callers never have a graph made for an identity before it is drawn. -/
namespace PoseGraph.PlacingEdits
open AssetOrder EditOutcomes Editor EditorCoherence EditorSoundness GraphDependencies GraphWiring NodeCraft NodeEdits NodeFrames
  PropertyEdits Rearrangement SheddingEdits StateEdits

variable {e f : Editor} {m n t : Node} {owner id : NodeId} {next : Nat} {kind : GraphKind}
variable {category name : String} {except : Option NodeId} {names : String → Prop}

/-- No graph has an owner whose identity is drawn between two editors. -/
def Vacant (e f : Editor) : Prop := ∀ id ∈ e.asset.owners, id.value < e.nextId ∨ f.nextId ≤ id.value

theorem vacant_graph (vacant : Vacant e f) (low : e.nextId ≤ id.value) (high : id.value < f.nextId) :
    e.asset.graph? id = none := by
  refine get_eq_none_iff.mpr fun owned => ?_
  have apart := vacant id owned
  omega

theorem sound_drawn (sound : Sound names e) (more : e.nextId ≤ next) : Sound names (drawn e next) :=
  sound_of_graphs sound rfl more

theorem sound_invalidate (sound : Sound names e) : Sound names e.invalidate := sound_sheds sound (sheds_invalidate e)

/-! ## Nodes that may be placed -/

theorem welcome_drawn (welcome : Welcome names e owner n) (next : Nat) : Welcome names (drawn e next) owner n :=
  ⟨welcome.made, welcome.closed, welcome.posed, welcome.ends, welcome.declared, welcome.unset, welcome.awaited,
    welcome.fresh⟩

theorem welcome_ensureGraph (welcome : Welcome names e owner n) (id : NodeId) :
    Welcome names (e.modifyAsset (·.ensureGraph id)) owner n := by
  have nodes : allNodes (e.modifyAsset (·.ensureGraph id)).asset = allNodes e.asset := allNodes_ensureGraph _ _
  have graphs (self : NodeId) : graphOf (e.modifyAsset (·.ensureGraph id)).asset self = graphOf e.asset self :=
    graphOf_ensureGraph
  constructor
  · exact welcome.made
  · exact welcome.closed
  · rw [nodes]
    exact welcome.posed
  · rw [nodes]
    exact welcome.ends
  · exact welcome.declared
  · rw [graphs]
    exact welcome.unset
  · rw [graphs]
    exact welcome.awaited
  · rw [nodes]
    exact welcome.fresh

/-- A node is new if no node bears its identity yet, which has just been drawn. -/
theorem fresh_new (coherent : Coherent except e) (new : e.nextId ≤ n.id.value) : ∀ m ∈ allNodes e.asset, m.id ≠ n.id := by
  intro m member same
  have before := (node_drawn coherent member).2
  rw [same] at before
  exact Nat.not_lt.mpr new before

/-- Graphs whose owner has not been drawn are no exemption. -/
theorem awaited_new (sound : Sound names e) (new : e.nextId ≤ n.id.value) :
    ∀ m ∈ (graphOf e.asset n.id).nodes, Posed m ∧ Sealed m := by
  intro m inside
  constructor
  · exact (sound.posed n.id).resolve_right (fun exempt => Nat.not_lt.mpr new exempt.1) m inside
  · exact (sound.closed n.id).resolve_right (fun exempt => Nat.not_lt.mpr new exempt.2.1) m inside

/-- A node from the palette of a kind of graphs may be placed in a graph of that kind. -/
theorem welcome_spawned (coherent : Coherent except e) (sound : Sound names e)
    (spawn : e.spawn (.ofKind kind) category name = some (n, f))
    (posed : kind = .transition → ∃ t ∈ allNodes e.asset, t.id = owner ∧ t.kind = .transition)
    (ends : kind ≠ .stateMachine → ∀ t ∈ allNodes e.asset, t.id = owner → ¬IsMachine t)
    (vacant : IsMachine n → e.asset.graph? n.id = none) : Welcome names e owner n := by
  obtain ⟨shaped, new⟩ := spawn_shaped spawn
  have foreign : n.category ≠ localVariableCategory := shaped.foreign .localVariable
  refine ⟨shaped.made, shaped.closed, shaped.posed.symm.imp_right posed, fun ending => ends fun machine => ?_,
    fun name reads => absurd (variable_category reads) foreign, fun sets => absurd (setter_category sets) foreign,
    fun m inside => ?_, fresh_new coherent new⟩
  · exact shaped.ends machine ending
  · obtain ⟨posed, closed⟩ := awaited_new sound new m inside
    refine ⟨posed, closed, fun machine => ?_⟩
    rw [graphOf_missing (vacant machine)] at inside
    cases inside

/-- A node that no graph ends at, built by hand. -/
theorem welcome_built (coherent : Coherent except e) (sound : Sound names e) (more : e.nextId ≤ next)
    (titled : Titled n) (plain : ¬Ends n) (ordinary : ¬IsMachine n)
    (declared : ∀ name, (n.withFreshIds next).1.variableName? = some name → names name)
    (unset : (n.withFreshIds next).1.isSetter = true → ∀ m ∈ (graphOf e.asset owner).nodes, m.isSetter = true →
      m.variableName? ≠ (n.withFreshIds next).1.variableName?) : Welcome names e owner (n.withFreshIds next).1 where
  made := made_withFreshIds titled
  closed := sealed_withFreshIds ⟨fun ends => absurd ends plain, fun output => absurd (.inl output) plain⟩
  posed := .inl (posed_withFreshIds fun output => absurd (.inl output) plain)
  ends := fun ends => absurd ends plain
  declared := declared
  unset := unset
  awaited := fun m inside =>
    ⟨(awaited_new sound more m inside).1, (awaited_new sound more m inside).2, fun machine => absurd machine ordinary⟩
  fresh := fresh_new coherent more

/-! ## Placing them -/

theorem sound_found (coherent : Coherent except e) (sound : Sound names e) (welcome : Welcome names e owner n) :
    Sound names (e.modifyAsset fun a => (a.ensureGraph owner).modifyGraph owner (·.addNode n)) := by
  have held : (e.modifyAsset (·.ensureGraph owner)).asset.graph? owner = some ((e.asset.graph? owner).getD .empty) := by
    change (e.asset.ensureGraph owner).graph? owner = _
    rw [graph_ensureGraph, if_pos rfl]
  exact sound_addNode (coherent_ensureGraph coherent owner) (sound_ensureGraph sound owner)
    (welcome_ensureGraph welcome owner) held

theorem sound_ensureSubGraph (coherent : Coherent except e) (sound : Sound names e) (id : NodeId) :
    Sound names (e.ensureSubGraph id) := by
  rcases ensureSubGraph_cases e id with same | ⟨n, opening, ⟨-, same⟩ | ⟨output, graph, category, f, seeding⟩⟩
  · rw [same]
    exact sound
  · rw [same]
    exact sound_ensureGraph sound id
  · have spawned := spawn_spec coherent seeding.spawn
    obtain ⟨member, named⟩ := findNode_spec opening.found
    have only (t : Node) (inside : t ∈ allNodes e.asset) (same : t.id = id) : t = n :=
      List.inj_on_of_nodup_map (identified_of_coherent coherent).nodes inside member (same.trans named.symm)
    -- The first node suits the node that owns the graph.
    have welcome : Welcome names e id output := by
      refine welcome_spawned coherent sound seeding.spawn (fun transition => ⟨n, member, named, seeding.condition transition⟩)
        (fun _ t inside same owns => ?_) (fun owns => ?_)
      · rw [only t inside same] at owns
        exact seeding.kind owns.2
      · exact absurd (.inl spawned.named) (machine_no_end owns)
    have after := sound_found (coherent_drawn coherent spawned.more) (sound_drawn sound spawned.more)
      (welcome_drawn welcome f.nextId)
    rw [← spawned.rest] at after
    rw [seeding.result]
    exact after

theorem sound_addNodeTo (coherent : Coherent none e) (sound : Sound names e) (newcomer : Newcomer e n)
    (welcome : Welcome names e owner n) (joined : owner.value < e.nextId ∨ n.kind ≠ .transition) :
    Sound names (e.addNode owner n) := by
  have placed : Coherent (some owner)
      (e.modifyAsset fun a => (a.ensureGraph owner).modifyGraph owner (·.addNode n)) :=
    coherent_addNode (coherent_ensureGraph (coherent_exempt coherent _) owner)
      (newcomer_ensureGraph newcomer owner) (.inl rfl) joined
  have whole := sound_invalidate (sound_found coherent sound welcome)
  rw [addNode]
  refine sound_sheds ?_ (sheds_ensureEntryOfMachine _ owner)
  split
  · exact sound_ensureSubGraph (coherent_invalidate placed) whole n.id
  · exact whole

/-! ## Operations -/

theorem draws_ensureSubGraph (e : Editor) (id : NodeId) : e.nextId ≤ (e.ensureSubGraph id).nextId := by
  rcases ensureSubGraph_cases e id with same | ⟨n, -, ⟨-, same⟩ | ⟨output, graph, category, f, seeding⟩⟩
  · rw [same]
  · rw [same]
    exact Nat.le_refl _
  · have drew : e.nextId ≤ f.nextId := spawn_more seeding.spawn
    rw [seeding.result]
    exact drew

theorem draws_addNode (e : Editor) (owner : NodeId) (n : Node) : e.nextId ≤ (e.addNode owner n).nextId := by
  have marked (k : Editor) : (k.ensureEntryOfMachine owner).nextId = k.nextId := by
    rw [ensureEntryOfMachine]
    split <;> rfl
  rw [addNode, marked]
  split
  · exact draws_ensureSubGraph
      (e.modifyAsset fun a => (a.ensureGraph owner).modifyGraph owner (·.addNode n)).invalidate n.id
  · exact Nat.le_refl _

theorem sound_createNode (coherent : Coherent none e) (sound : Sound names e) (category name : String)
    (vacant : Vacant e (e.createNode category name).1) : Sound names (e.createNode category name).1 := by
  rcases createNode_cases e category name with same | ⟨n, f, spawn, same⟩
  · rw [same]
    exact sound
  · rw [same] at vacant ⊢
    dsimp only at vacant ⊢
    have spawned := spawn_spec coherent spawn
    have owners : f.activeOwner = e.activeOwner := by rw [spawned.rest]; rfl
    have welcome : Welcome names e e.activeOwner n := by
      refine welcome_spawned coherent sound spawn (fun kind => ?_) (fun kind t inside same machine => kind ?_)
        (fun _ => ?_)
      · -- Conditions are edited only in the graphs of transitions.
        cases owned : e.asset.ownerKind? e.activeOwner with
        | none =>
          rw [graphKind, owned] at kind
          cases kind
        | some owner =>
          rw [graphKind, owned] at kind
          obtain ⟨-, t, inside, same, rfl⟩ := ownerKind_origin (rearranged_refl _) owned
          refine ⟨t, inside, same, ?_⟩
          revert kind
          cases t.kind <;> decide
      · rw [graphKind, ← same, machine_ownerKind coherent inside machine]
        rfl
      · refine vacant_graph vacant (spawn_shaped spawn).2 (Nat.lt_of_lt_of_le ?_ (draws_addNode f f.activeOwner n))
        exact (spawned.newcomer.identities.drawn _ List.mem_cons_self).2
    rw [owners]
    have after := coherent_spawned coherent spawned
    refine sound_addNodeTo after ?_ spawned.newcomer ?_ (.inr spawned.plain)
    · rw [spawned.rest]
      exact sound_drawn sound spawned.more
    · rw [spawned.rest]
      exact welcome_drawn welcome _

/-- Placing a node built by hand. -/
theorem sound_adopt (coherent : Coherent none e) (sound : Sound names e) (crafted : Crafted n)
    (welcome : Welcome names e owner (n.withFreshIds (e.nextId + n.pins.length)).1)
    (joined : owner.value < e.nextId ∨ n.kind ≠ .transition) :
    Sound names ((e.adopt n).2.addNode owner (e.adopt n).1) := by
  have more : e.nextId ≤ (n.withFreshIds (e.nextId + n.pins.length)).2 := by
    change e.nextId ≤ e.nextId + n.pins.length + 1 + n.pins.length
    omega
  exact sound_addNodeTo (coherent_drawn coherent more) (sound_drawn sound more)
    (newcomer_withFreshIds coherent (Nat.le_add_right _ _) crafted) (welcome_drawn welcome _)
    (joined.imp_left fun before => Nat.lt_of_lt_of_le before more)

theorem titled_foreign (foreign : n.category ≠ localVariableCategory) (entry : n.name = "Input" → n.category = PropertyKind.input.token)
    (action : n.name ≠ "Input Action") (plain : ¬Ends n) (ordinary : n.kind ≠ .stateMachine) : Titled n where
  entry := entry
  action := fun same => absurd same action
  ends := fun ends => absurd ends plain
  relay := fun relayed => absurd relayed foreign
  machine := fun machine => absurd machine ordinary

theorem sound_createTransitionNode (coherent : Coherent none e) (sound : Sound names e) :
    Sound names e.createTransitionNode.1 := by
  rw [createTransitionNode]
  split
  · exact sound
  · rename_i owner active
    have foreign : Template.transition.category ≠ localVariableCategory := by decide
    have plain : ¬Ends Template.transition := by decide
    have titled : Titled Template.transition := titled_foreign foreign (by decide) (by decide) plain (by decide)
    refine sound_adopt coherent sound (by decide) ?_ (.inl (owner_drawn coherent (activeMachine_spec active)))
    refine welcome_built coherent sound (Nat.le_add_right _ _) titled plain (fun machine => ?_) (fun name reads => ?_)
      (fun sets => ?_)
    · exact absurd machine.2 (by decide)
    · exact absurd (variable_category reads) foreign
    · exact absurd (setter_category sets) foreign

theorem sound_spawnInput (coherent : Coherent none e) (sound : Sound names e) (name : String) :
    Sound names (e.spawnInput name).1 := by
  rw [spawnInput]
  split
  · exact sound
  · rename_i v found
    have foreign : PropertyKind.input.token ≠ localVariableCategory := by decide
    obtain ⟨crafted, ordinary⟩ := crafted_property .input (n := { Node.ofName PropertyKind.input.token ⟨130, 170, 255⟩ with
      category := PropertyKind.input.token, outputs := [.ofProperty name v .output] }) rfl rfl (show PropertyKind.input.token ≠ "Output" by decide)
    refine sound_adopt coherent sound crafted ?_ (.inr ordinary)
    have plain : ¬Ends { Node.ofName PropertyKind.input.token ⟨130, 170, 255⟩ with
        category := PropertyKind.input.token, outputs := [.ofProperty name v .output] } := by
      simp [Ends, Node.ofName, PropertyKind.token]
    refine welcome_built coherent sound (Nat.le_add_right _ _)
      (titled_foreign foreign (fun _ => rfl) (by simp [Node.ofName, PropertyKind.token]) plain
        (by simp [Node.kind, Node.ofName, PropertyKind.token, stateMachineCategory])) plain ?_ ?_ ?_
    · exact fun machine => absurd machine.1 (by simp [Node.isSubroutine, Node.ofName])
    · exact fun name reads => absurd (variable_category reads) foreign
    · exact fun sets => absurd (setter_category sets) foreign

/-- A node of a declared local variable. There may be no other one that writes it,
if it does. -/
theorem sound_variableNode (owner : NodeId) (inputs outputs : List Pin) {color : Color} {p : Pin}
    (coherent : Coherent none e) (sound : Sound (· ∈ e.asset.localVariables.keys) e) (declared : name ∈ e.asset.localVariables.keys)
    (single : inputs ++ outputs = [p]) (named : p.name = name)
    (unset : inputs ≠ [] → ∀ m ∈ (graphOf e.asset owner).nodes, m.isSetter = true → m.variableName? ≠ some name)
    (built : n = { Node.ofName name color with category := localVariableCategory, inputs, outputs }) :
    Sound (· ∈ e.asset.localVariables.keys) ((e.adopt n).2.addNode owner (e.adopt n).1) := by
  obtain ⟨notInput, notOutput, notEvent⟩ := sound.reserved name declared
  have pins : n.pins = [p] := by rw [built]; exact single
  have title : n.name = name := by rw [built]; rfl
  have category : n.category = localVariableCategory := by rw [built]
  have simple : n.type = .simple := by rw [built]; rfl
  have plain : ¬Ends n := by
    rw [Ends, title]
    exact not_or.mpr ⟨notOutput, notEvent⟩
  have owns : ¬n.isSubroutine = true := by
    rw [Node.isSubroutine, simple]
    decide
  have titled : Titled n :=
    ⟨fun same => absurd (title.symm.trans same) notInput, fun _ => category, fun ends => absurd ends plain,
      fun _ => by simp [pins], fun _ => .inr category⟩
  have reads (next : Nat) : (n.withFreshIds next).1.variableName? = some name := by
    have lengths : (n.withFreshIds next).1.pins.length = n.pins.length := by
      have whole := congrArg List.length (withFreshIds_identities n next)
      rw [nodeIdentities, List.length_cons, List.length_map, List.length_range'] at whole
      omega
    have heads : (n.withFreshIds next).1.pins.map Pin.name = n.pins.map Pin.name := by
      have inputs := bindFrom_names ⟨next⟩ .input (next + 1) n.inputs
      have outputs := bindFrom_names ⟨next⟩ .output (next + 1 + n.inputs.length) n.outputs
      change (Pin.bindFrom _ _ _ n.inputs ++ Pin.bindFrom _ _ _ n.outputs).map Pin.name = _
      rw [List.map_append, inputs, outputs, Node.pins, List.map_append]
    refine variableName_eq_some.mpr ⟨?_, ?_⟩
    · rw [Node.isLocalVariable, lengths, pins]
      simp only [Bool.and_eq_true, beq_iff_eq]
      exact ⟨category, rfl⟩
    · rw [← List.head?_map, heads, pins]
      exact congrArg some named
  obtain ⟨crafted, ordinary⟩ := crafted_property .localVariable category simple (title ▸ notOutput)
  refine sound_adopt coherent sound crafted ?_ (.inr ordinary)
  refine welcome_built coherent sound (Nat.le_add_right _ _) titled plain (fun machine => owns machine.1)
    (fun other same => ?_) (fun sets m inside also => ?_)
  · rw [reads] at same
    exact Option.some.inj same ▸ declared
  · rw [reads]
    refine unset (fun none => ?_) m inside also
    have lengths : (n.withFreshIds (e.nextId + n.pins.length)).1.inputs.length = inputs.length := by
      change (Pin.bindFrom _ _ _ n.inputs).length = _
      rw [bindFrom_length, built]
    rw [Node.isSetter, lengths, none] at sets
    simp at sets

theorem sound_spawnLocalVariable (coherent : Coherent none e) (sound : Sound (· ∈ e.asset.localVariables.keys) e)
    (name : String) (getter : Bool) :
    Sound (· ∈ e.asset.localVariables.keys) (e.spawnLocalVariable name getter).1 := by
  rcases spawnLocalVariable_cases e name getter with same | ⟨v, inputs, outputs, n, found, pins, made, result⟩
  · rw [same]
    exact sound
  · have declared := get_mem_keys found
    rw [result]
    rcases pins with ⟨-, rfl, rfl⟩ | ⟨-, rfl, rfl, free⟩
    · exact sound_variableNode e.activeOwner [] _ coherent sound declared rfl rfl (fun some_ => absurd rfl some_) made
    · refine sound_variableNode e.activeOwner _ [] coherent sound declared rfl rfl (fun _ m inside sets named => ?_) made
      cases active : e.asset.graph? e.activeOwner with
      | none =>
        rw [show graphOf e.asset e.activeOwner = .empty from graphOf_missing active] at inside
        cases inside
      | some g =>
        rw [show graphOf e.asset e.activeOwner = g from graphOf_eq active] at inside
        have setter : (g.setter? name).isSome = true := by
          rw [SubGraph.setter?, List.find?_isSome]
          exact ⟨m, inside, by simp [sets, named]⟩
        simp [activeGraph?, active, setter] at free

end PoseGraph.PlacingEdits
