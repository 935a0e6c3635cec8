import PoseGraph.Proofs.EditNotes
import PoseGraph.Proofs.Validity

/-! A valid asset has the graphs that its nodes own, and those that play have an
output. Making a state of a quick state therefore changes nothing, or it goes all
the way to a link into that output, and then the asset is marked as changed. -/
namespace PoseGraph.StatePromotion
open AssetOrder EditNotes EditOutcomes Editor EditorCoherence GraphDependencies LinkEdits NodeCraft NodeEdits StateEdits Validity

variable {e f : Editor} {g : SubGraph} {m n quick : Node} {p : Pin} {owner id : NodeId} {start finish : PinId}
variable {except : Option NodeId} {clip : Option Value}

/-! ## What validity gives -/

theorem subroutine_text (owns : n.isSubroutine = true) : n.isComment = false := by
  rw [Node.isSubroutine, beq_iff_eq] at owns
  rw [Node.isComment, owns]
  decide

theorem node_nested (coherent : Coherent except e) (member : n ∈ allNodes e.asset) : n.id.isRoot = false := by
  have drawn := (node_drawn coherent member).1
  simp only [NodeId.isRoot, beq_eq_false_iff_ne, ne_eq]
  intro root
  rw [root] at drawn
  exact absurd drawn (by decide)

/-- In a valid asset, every node that owns a graph has it. -/
theorem graph_of_valid (valid : e.validate.errors = []) (member : n ∈ allNodes e.asset)
    (owns : n.isSubroutine = true) : ∃ g, e.asset.graph? n.id = some g := by
  obtain ⟨owner, g, held, inside⟩ := mem_allNodes.mp member
  have reports := graphReport_errors_eq_nil_iff.mp (validate_errors_eq_nil_iff.mp valid owner g held)
  have fine := (nodeErrors_eq_nil_iff.mp (reports.1 n inside (subroutine_text owns))).2.2
  rw [nodeError?, nodeErrorWithin, if_pos owns] at fine
  split at fine
  · cases fine
  · rename_i k body
    exact ⟨k, (Option.filter_eq_some_iff.mp body).1⟩

/-- Outside of state machines and blend spaces, every graph has an output. -/
theorem output_of_valid (coherent : Coherent except e) (valid : e.validate.errors = [])
    (member : n ∈ allNodes e.asset) (machine : n.kind ≠ .stateMachine) (space : n.kind ≠ .blendSpace)
    (held : e.asset.graph? n.id = some g) : ∃ m ∈ g.nodes, m.name = "Output" := by
  have found : ownerNode? e n.id = some n := by
    rw [ownerNode?, node_nested coherent member]
    exact (findNode_eq_some_iff (identified_of_coherent coherent)).mpr ⟨member, rfl⟩
  have reports := graphReport_errors_eq_nil_iff.mp (validate_errors_eq_nil_iff.mp valid n.id g held)
  have outputs := reports.2.1
  rw [found, outputErrors] at outputs
  by_contra missing
  have none : g.nodes.filter (fun n => !n.isComment && n.name == "Output") = [] := by
    refine List.filter_eq_nil_iff.mpr fun m inside passes => missing ⟨m, inside, ?_⟩
    simp only [Bool.and_eq_true, beq_iff_eq] at passes
    exact passes.2
  simp [none, machine, space] at outputs

/-- A valid asset needs no more graphs. -/
theorem ensureSubGraph_of_valid (valid : e.validate.errors = []) (id : NodeId) : e.ensureSubGraph id = e := by
  refine (ensureSubGraph_cases e id).resolve_right ?_
  rintro ⟨n, opening, -⟩
  obtain ⟨member, rfl⟩ := findNode_spec opening.found
  have absent := opening.absent
  rw [hasGraph_iff.mpr (graph_of_valid valid member opening.owns)] at absent
  cases absent

/-! ## Links into outputs -/

/-- Two pins of a graph can always be linked. -/
theorem createLinkIn_isSome (held : e.asset.graph? owner = some g) (first : (g.pin? start).isSome = true)
    (second : (g.pin? finish).isSome = true) : (e.createLinkIn owner start finish).2.isSome = true := by
  obtain ⟨p, left⟩ := Option.isSome_iff_exists.mp first
  obtain ⟨q, right⟩ := Option.isSome_iff_exists.mp second
  have oriented : (orientLink g start finish).isSome = true := by
    by_cases backwards : p.kind = .input
    · simp [orientLink, left, right, backwards]
    · simp [orientLink, left, right, backwards]
  obtain ⟨⟨source, target, type⟩, ends⟩ := Option.isSome_iff_exists.mp oriented
  simp [createLinkIn, held, ends]

/-- A graph with an output has a pin to link to. -/
theorem outputPin_spec (crafted : ∀ n ∈ g.nodes, Crafted n) (member : m ∈ g.nodes) (named : m.name = "Output") :
    ∃ pin, g.outputPin? = some pin ∧ (g.pin? pin).isSome = true := by
  cases found : g.nodeNamed? "Output" with
  | none => simpa [named] using List.find?_eq_none.mp found m member
  | some n =>
    have inside : n ∈ g.nodes := List.mem_of_find?_eq_some found
    have output : n.name = "Output" := by simpa using List.find?_some found
    cases inputs : n.inputs with
    | nil => exact absurd inputs ((crafted n inside).output output)
    | cons p ps =>
      refine ⟨p.id, ?_, pin_isSome inside ?_⟩
      · simp [SubGraph.outputPin?, found, inputs]
      · simp [Node.pins, inputs]

theorem spawn_isSome (e : Editor) (kind : GraphKind) (category name : String)
    (stocked : ((Palette.ofKind kind).template? category name).isSome = true) :
    ∃ n f, e.spawn (.ofKind kind) category name = some (n, f) := by
  obtain ⟨template, found⟩ := Option.isSome_iff_exists.mp stocked
  simp [Editor.spawn, Palette.spawn, found]

theorem loaded_outputs (clip : Option Value) (n : Node) : (loaded clip n).outputs = n.outputs := by
  rw [loaded.eq_def]
  split <;> rfl

/-- Where there is an output, a clip is played into it. -/
theorem playClip_isSome (clip : Option Value) (coherent : Coherent except e) (held : e.asset.graph? owner = some g)
    (member : m ∈ g.nodes) (named : m.name = "Output") : (e.playClip owner clip).2.isSome = true := by
  obtain ⟨player, f, spawn⟩ := spawn_isSome e .animation "Animation" "Animation Player" (by decide +kernel)
  have spawned := spawn_spec coherent spawn
  have same : f.asset.graph? owner = some g := by
    rw [spawned.rest]
    exact held
  obtain ⟨pose, poses, poseNamed⟩ := List.mem_map.mp (spawned.player rfl)
  obtain ⟨sink, output, sinks⟩ := outputPin_spec (graph_crafted coherent held) member named
  have outs : ∃ q, (loaded clip player).outputNamed? "Pose" = some q := by
    rw [← Option.isSome_iff_exists, Node.outputNamed?, loaded_outputs, List.find?_isSome]
    exact ⟨pose, poses, by simpa using poseNamed⟩
  obtain ⟨q, out⟩ := outs
  have played : (f.modifyGraph owner (·.addNode (loaded clip player))).asset.graph? owner =
      some (g.addNode (loaded clip player)) := graph_modifyGraph_self same
  have first : ((g.addNode (loaded clip player)).pin? q.id).isSome = true := by
    refine pin_isSome (n := loaded clip player) (by simp [SubGraph.addNode]) ?_
    exact List.mem_append_right _ (List.mem_of_find?_eq_some out)
  have second : ((g.addNode (loaded clip player)).pin? sink).isSome = true := by
    rw [SubGraph.pin?, SubGraph.addNode, List.findSome?_append, Option.isSome_or]
    exact Bool.or_eq_true_iff.mpr (.inl sinks)
  have linked := createLinkIn_isSome played first second
  have there : (f.asset.graph? owner).bind (·.outputPin?) = some sink := by
    rw [same, Option.bind_some, output]
  rw [playClip_eq, spawn]
  simp only [out, there]
  split
  · rfl
  · rename_i failed
    rw [failed] at linked
    cases linked

/-- A clip that is played marks the asset. -/
theorem playClip_isDirty (played : (e.playClip owner clip).2.isSome = true) :
    (e.playClip owner clip).1.isDirty = true := by
  rcases playClip_cases e owner clip with same | ⟨player, f, -, same | ⟨pose, sink, playing⟩⟩
  · rw [same] at played
    cases played
  · rw [same] at played
    cases played
  · obtain ⟨_, -, same | ⟨same, -⟩⟩ := playing.result
    · rw [same]
      rfl
    · rw [same] at played
      cases played

theorem playClip_marked (marked : e.isDirty = true) (owner : NodeId) (clip : Option Value) :
    (e.playClip owner clip).1.isDirty = true := by
  rcases playClip_cases e owner clip with same | ⟨player, f, spawn, outcome⟩
  · rw [same]
    exact marked
  have drew : f.isDirty = true := (spawn_isDirty spawn).trans marked
  rcases outcome with same | ⟨pose, sink, playing⟩
  · rw [same]
    exact drew
  obtain ⟨_, rfl, same | ⟨same, -⟩⟩ := playing.result
  · rw [same]
    rfl
  · rw [same]
    exact noted_marked (noted_createLinkIn (f.modifyGraph owner (·.addNode (loaded clip player))) owner pose.id sink) drew

/-! ## Promoting a quick state -/

/-- A state without a graph gets one with an output. -/
theorem ensureSubGraph_output (coherent : Coherent except e) (member : n ∈ allNodes e.asset)
    (owns : n.isSubroutine = true) (state : n.kind = .state) (missing : e.asset.graph? n.id = none) :
    ∃ g, (e.ensureSubGraph n.id).asset.graph? n.id = some g ∧ ∃ m ∈ g.nodes, m.name = "Output" := by
  have found : e.asset.findNode? n.id = some n :=
    (findNode_eq_some_iff (identified_of_coherent coherent)).mpr ⟨member, rfl⟩
  have absent : e.asset.hasGraph n.id = false := by
    by_contra present
    obtain ⟨g, held⟩ := hasGraph_iff.mp (by simpa using present)
    rw [missing] at held
    cases held
  have opening : Opening e n.id n := ⟨node_nested coherent member, absent, found, owns⟩
  rcases opening.outcome with ⟨none, -⟩ | ⟨output, graph, category, f, seeding⟩
  · obtain ⟨output, f, spawn⟩ := spawn_isSome e .animation "Animation" "Output" (by decide +kernel)
    rw [state] at none
    exact absurd (spawn.symm.trans none) (by simp)
  · rw [seeding.result, modifyAsset, graph_modifyGraph, if_pos rfl, graph_ensureGraph, if_pos rfl]
    exact ⟨_, rfl, output, by simp [SubGraph.addNode], (spawn_spec coherent seeding.spawn).named⟩

/-- The state that takes the place of a quick state plays into an output: its own
new one, or one in a graph that was there before. -/
theorem promoted_output (coherent : Coherent none e) (active : e.asset.ownerKind? owner = some .stateMachine)
    (spawned : Spawned e f stateMachineCategory "State" n)
    (found : (e.asset.graph? owner).bind (·.node? id) = some quick) (kind : quick.kind = .quickState)
    (plays : ∀ g, e.asset.graph? id = some g → ∃ m ∈ g.nodes, m.name = "Output") :
    ∃ g, ((f.modifyGraph owner (promoted · id n quick)).ensureSubGraph id).asset.graph? id = some g ∧
      ∃ m ∈ g.nodes, m.name = "Output" := by
  have same : f.asset = e.asset := by rw [spawned.rest]; rfl
  obtain ⟨k, owned, inside⟩ := Option.bind_eq_some_iff.mp found
  have member : quick ∈ allNodes e.asset := mem_allNodes.mpr ⟨owner, k, owned, List.mem_of_find?_eq_some inside⟩
  have named : quick.id = id := by simpa using List.find?_some inside
  have apart : id ≠ owner := by
    rintro rfl
    have kinds := ownerKind_of_member coherent member (named.symm ▸ active)
    rw [kind] at kinds
    cases kinds
  have untouched : (f.modifyGraph owner (promoted · id n quick)).asset.graph? id = e.asset.graph? id := by
    change (f.asset.modifyGraph owner _).graph? id = _
    rw [graph_modifyGraph, if_neg apart, same]
  cases before : e.asset.graph? id with
  | some g =>
    refine ⟨g, ?_, plays g before⟩
    rw [before] at untouched
    rw [ensureSubGraph, hasGraph_iff.mpr ⟨g, untouched⟩, Bool.or_true]
    exact untouched
  | none =>
    obtain ⟨there, also⟩ := member_promoted spawned found
    have made := stateNode_stateFromQuick quick ⟨spawned.under, spawned.named⟩
    have whole := ensureSubGraph_output (coherent_promoted coherent spawned found kind) there
      (spawned.state rfl) (stateNode_kind made) (by rw [also, untouched, before])
    rwa [also] at whole

/-- In an editor that is valid unless it is marked, promoting a quick state is
noted. -/
theorem noted_promoteQuickState (coherent : Coherent none e)
    (valid : e.isDirty = false → e.validate.errors = []) (id : NodeId) :
    Noted e (e.promoteQuickState id).1 := by
  rcases promoteQuickState_cases e id with same | ⟨owner, quick, state, f, promotion⟩
  · rw [same]
    exact noted_refl e
  rw [promotion.result]
  apply Or.inl
  cases mark : e.isDirty with
  | true =>
    refine playClip_marked ?_ id _
    rw [ensureSubGraph_isDirty]
    exact (spawn_isDirty promotion.spawn).trans mark
  | false =>
    have spawned := spawn_spec coherent promotion.spawn
    -- A graph that was there before has been validated as that of a quick state.
    have plays (g : SubGraph) (before : e.asset.graph? id = some g) : ∃ m ∈ g.nodes, m.name = "Output" := by
      obtain ⟨k, owned, inside⟩ := Option.bind_eq_some_iff.mp promotion.found
      have named : quick.id = id := by simpa using List.find?_some inside
      exact output_of_valid coherent (valid mark)
        (mem_allNodes.mpr ⟨owner, k, owned, List.mem_of_find?_eq_some inside⟩) (by simp [promotion.kind])
        (by simp [promotion.kind]) (named ▸ before)
    obtain ⟨g, held, m, inside, named⟩ :=
      promoted_output coherent (activeMachine_spec promotion.active) spawned promotion.found promotion.kind plays
    have made := coherent_ensureSubGraph (coherent_promoted coherent spawned promotion.found promotion.kind) id
    exact playClip_isDirty (playClip_isSome _ made held inside named)

end PoseGraph.StatePromotion
