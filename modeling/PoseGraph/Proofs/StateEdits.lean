import PoseGraph.Editor.States
import PoseGraph.Proofs.PropertyEdits

/-! Editing state machines keeps an editor coherent. Transitions get their pins
when they are joined to states, and a state takes the place of a quick state. -/
namespace PoseGraph.StateEdits
open AssetOrder Editor EditorCoherence GraphDependencies LinkEdits LoweringSemantics NodeCraft NodeEdits

variable {e f : Editor} {g h k : SubGraph} {m n quick state : Node} {owner id start finish : NodeId}
variable {extra more : List Nat} {change : Node → Node} {transition : NodeId} {except : Option NodeId}

theorem activeMachine_spec (active : e.activeMachine? = some owner) :
    e.asset.ownerKind? owner = some .stateMachine := by
  rw [activeMachine?] at active
  split at active
  · cases active
    assumption
  · cases active

theorem activeMachine_active (active : e.activeMachine? = some owner) : owner = e.activeOwner := by
  rw [activeMachine?] at active
  split at active
  · exact (Option.some.inj active).symm
  · cases active

theorem coherent_createTransitionNode (coherent : Coherent none e) : Coherent none e.createTransitionNode.1 := by
  rw [createTransitionNode]
  split
  · exact coherent
  · rename_i owner active
    have drawnOwner := owner_drawn coherent (activeMachine_spec active)
    have crafted : Crafted Template.transition := by decide
    have newcomer := newcomer_withFreshIds coherent (Nat.le_refl _) crafted
    have bound : e.nextId ≤ (Template.transition.withFreshIds e.nextId).2 := Nat.le_add_right _ 1
    exact coherent_addNodeTo (coherent_drawn coherent bound) newcomer (.inl (Nat.lt_of_lt_of_le drawnOwner bound))

/-! ## Joining states -/

/-- A change that attaches pins of given numbers to any node but an annotation. -/
structure Attaches (extra : List Nat) (change : Node → Node) : Prop where
  recast : ∀ n, n.isComment = false → Recast n (change n)
  identities : ∀ n, (nodeIdentities (change n)).Perm (nodeIdentities n ++ extra)

/-- A graph after pins of given numbers have been attached to its nodes. -/
structure Attached (extra : List Nat) (g h : SubGraph) : Prop where
  nodes : List.Forall₂ Recast g.nodes h.nodes
  identities : (identities h).Subperm (identities g ++ extra)

theorem attached_trans (first : Attached extra g h) (second : Attached more h k) : Attached (extra ++ more) g k := by
  constructor
  · have joined {xs ys zs : List Node} (left : List.Forall₂ Recast xs ys) (right : List.Forall₂ Recast ys zs) :
        List.Forall₂ Recast xs zs := by
      induction left generalizing zs with
      | nil => cases right; exact .nil
      | cons head tail ih =>
        cases right with
        | cons head' tail' => exact .cons (recast_trans head head') (ih tail')
    exact joined first.nodes second.nodes
  · rw [← List.append_assoc]
    exact second.identities.trans ((List.subperm_append_right _).mpr first.identities)

/-- None of the nodes with an identity is an annotation. -/
def Voiced (g : SubGraph) (id : NodeId) : Prop := ∀ n ∈ g.nodes, n.id = id → n.isComment = false

theorem voiced_attached (voiced : Voiced g id) (attached : Attached extra g h) : Voiced h id := by
  intro m inside same
  obtain ⟨n, member, recast⟩ := origin_of_mem attached.nodes inside
  rw [recast_isComment recast]
  exact voiced n member (recast.id ▸ same)

theorem attached_modifyNode (attaches : Attaches extra change) (voiced : Voiced g id) :
    Attached extra g (g.modifyNode id change) := by
  refine ⟨forall₂_modifyFirst recast_refl fun n member passes =>
    attaches.recast n (voiced n member (by simpa using passes)), ?_⟩
  cases found : g.nodes.find? (·.id == id) with
  | none =>
    have same : g.modifyNode id change = g := by
      rw [SubGraph.modifyNode, modifyFirst_none]
      simpa using List.find?_eq_none.mp found
    rw [same]
    exact (List.sublist_append_left _ _).subperm
  | some n =>
    obtain ⟨before, after, split, modified, -⟩ := modifyFirst_eq (f := change) found
    have more : (nodeIdentities (change n)).Perm (nodeIdentities n ++ extra) := attaches.identities n
    rw [identities, identities, SubGraph.modifyNode, modified, split]
    simp only [List.flatMap_append, List.flatMap_cons, List.append_assoc]
    refine ((List.Perm.append_left _ (more.append_right _)).trans ?_).subperm
    rw [List.append_assoc]
    refine List.Perm.append_left _ (List.Perm.append_left _ ?_)
    rw [← List.append_assoc (after.flatMap nodeIdentities)]
    exact List.perm_append_comm

/-- The pins that join states and transitions. -/
theorem attaches_pins (ins outs : List Pin) (place : Node → Point) : Attaches
    (ins.map (fun p => p.id.value) ++ outs.map fun p => p.id.value) fun n =>
      { n with inputs := n.inputs ++ ins, outputs := n.outputs ++ outs, position := place n } where
  recast := fun n text => ⟨rfl, rfl, rfl, .inl rfl, fun marked => marked, fun comment => by simp [text] at comment,
    fun some => by simp [some]⟩
  identities := by
    intro n
    simp only [nodeIdentities, Node.pins, List.map_append, List.cons_append, List.append_assoc]
    refine .cons _ (List.Perm.append_left _ ?_)
    rw [← List.append_assoc, ← List.append_assoc]
    exact List.Perm.append_right _ List.perm_append_comm

/-- A graph with the pins that join two states by a transition. -/
def withTransition (base : Nat) (start finish transition : NodeId) (middle : Point) (g : SubGraph) : SubGraph :=
  ((g.modifyNode start fun n => { n with outputs := n.outputs ++ [transitionPin base start .output] }).modifyNode
    finish fun n => { n with inputs := n.inputs ++ [transitionPin (base + 3) finish .input] }).modifyNode
    transition fun n =>
      { n with
        inputs := n.inputs ++ [transitionPin (base + 1) transition .input]
        outputs := n.outputs ++ [transitionPin (base + 2) transition .output]
        position := middle }

theorem joinTransition_eq (e : Editor) (owner transition start finish : NodeId) (middle : Point) :
    e.joinTransition owner transition start finish middle =
      match ((drawn e (e.nextId + 4)).modifyGraph owner
        (withTransition e.nextId start finish transition middle)).createLinkIn owner ⟨e.nextId⟩ ⟨e.nextId + 1⟩ with
      | (f, none) => (f, none)
      | (f, some _) =>
        match f.createLinkIn owner ⟨e.nextId + 2⟩ ⟨e.nextId + 3⟩ with
        | (f, none) => (f, none)
        | (f, some _) => (f, some transition) := rfl

/-- The first state is linked to the transition. Unless that fails, the transition is linked to the second state. -/
theorem joinTransition_cases (e : Editor) (owner transition start finish : NodeId) (middle : Point) :
    ∃ f, f = (((drawn e (e.nextId + 4)).modifyGraph owner
        (withTransition e.nextId start finish transition middle)).createLinkIn owner ⟨e.nextId⟩ ⟨e.nextId + 1⟩).1 ∧
      ((e.joinTransition owner transition start finish middle).1 = f ∨
        (e.joinTransition owner transition start finish middle).1 = (f.createLinkIn owner ⟨e.nextId + 2⟩ ⟨e.nextId + 3⟩).1) := by
  refine ⟨_, rfl, ?_⟩
  rw [joinTransition_eq]
  split
  · rename_i f first
    exact .inl (by rw [first])
  · rename_i f _ first
    rw [first]
    split
    · rename_i h second
      exact .inr (by rw [second])
    · rename_i h _ second
      exact .inr (by rw [second])

/-- What holds once a transition has its pins holds in the end, if linking keeps it. -/
theorem joinTransition_keeps {P : Editor → Prop} {e : Editor} {owner transition start finish : NodeId} {middle : Point}
    (pinned : P ((drawn e (e.nextId + 4)).modifyGraph owner (withTransition e.nextId start finish transition middle)))
    (linked : ∀ f a b, P f → P (f.createLinkIn owner a b).1) :
    P (e.joinTransition owner transition start finish middle).1 := by
  obtain ⟨f, rfl, same | same⟩ := joinTransition_cases e owner transition start finish middle
  · rw [same]
    exact linked _ _ _ pinned
  · rw [same]
    exact linked _ _ _ (linked _ _ _ pinned)

theorem attached_withTransition {base : Nat} {middle : Point} (voicedStart : Voiced g start)
    (voicedFinish : Voiced g finish) (voicedTransition : Voiced g transition) :
    Attached [base, base + 3, base + 1, base + 2] g (withTransition base start finish transition middle g) := by
  have first := attached_modifyNode
    (attaches_pins [] [transitionPin base start .output] Node.position) voicedStart
  have second := attached_modifyNode
    (attaches_pins [transitionPin (base + 3) finish .input] [] Node.position)
    (voiced_attached voicedFinish first)
  have third := attached_modifyNode
    (attaches_pins [transitionPin (base + 1) transition .input]
      [transitionPin (base + 2) transition .output] fun _ => middle)
    (voiced_attached (voiced_attached voicedTransition first) second)
  have whole := attached_trans (attached_trans first second) third
  simpa [withTransition, transitionPin] using whole

/-- The numbers of those pins are the next four. -/
theorem newcomers_pins (coherent : Coherent except e) :
    Newcomers (drawn e (e.nextId + 4)) [e.nextId, e.nextId + 3, e.nextId + 1, e.nextId + 2] := by
  have positive := coherent.positive
  refine ⟨by simp, ?_, ?_⟩
  · intro i inside
    change 0 < i ∧ i < e.nextId + 4
    simp only [List.mem_cons, List.not_mem_nil, or_false] at inside
    omega
  · intro i inside taken
    have before := (coherent.drawn i taken).2
    simp only [List.mem_cons, List.not_mem_nil, or_false] at inside
    omega

/-- Attaching the pins to nodes that are no annotations. -/
theorem coherent_withTransition (middle : Point) (coherent : Coherent except e)
    (voiced : ∀ g, e.asset.graph? owner = some g → Voiced g start ∧ Voiced g finish ∧ Voiced g transition) :
    Coherent except
      ((drawn e (e.nextId + 4)).modifyGraph owner (withTransition e.nextId start finish transition middle)) := by
  have drawnPins := coherent_drawn coherent (Nat.le_add_right e.nextId 4)
  apply coherent_develop drawnPins (newcomers_pins coherent)
  intro g held
  obtain ⟨voicedStart, voicedFinish, voicedTransition⟩ := voiced g held
  have joined : Attached _ g (withTransition e.nextId start finish transition middle g) :=
    attached_withTransition voicedStart voicedFinish voicedTransition
  exact develops_of_recast drawnPins held joined.nodes joined.identities

theorem coherent_joinTransition {middle : Point} (coherent : Coherent except e)
    (voiced : ∀ g, e.asset.graph? owner = some g → Voiced g start ∧ Voiced g finish ∧ Voiced g transition) :
    Coherent except (e.joinTransition owner transition start finish middle).1 :=
  joinTransition_keeps (coherent_withTransition middle coherent voiced)
    fun _ a b whole => coherent_createLinkIn whole owner a b

/-- The identity of a node that is no annotation is no annotation's. -/
theorem voiced_of_member (coherent : Coherent except e) (member : m ∈ allNodes e.asset) (same : m.id = id)
    (text : m.isComment = false) (held : e.asset.graph? owner = some g) : Voiced g id := by
  intro n inside also
  have whole : n ∈ allNodes e.asset := mem_allNodes.mpr ⟨owner, g, held, inside⟩
  have equal : n = m := List.inj_on_of_nodup_map (identified_of_coherent coherent).nodes whole member
    (also.trans same.symm)
  rw [equal]
  exact text

theorem createTransitionNode_spec (made : e.createTransitionNode = (f, some transition)) :
    Persists e f ∧ ∃ m ∈ allNodes f.asset, m.id = transition ∧ m.isComment = false := by
  rw [createTransitionNode] at made
  split at made
  · cases made
  · rename_i owner active
    have drew : Persists e (e.adopt Template.transition).2 := persists_drawn e _
    obtain ⟨m, inside, recast⟩ := member_addNodeTo (e.adopt Template.transition).2 owner
      (e.adopt Template.transition).1
    change ((e.adopt Template.transition).2.addNode owner (e.adopt Template.transition).1,
      some (e.adopt Template.transition).1.id) = (f, some transition) at made
    obtain ⟨rfl, same⟩ := Prod.mk.inj made
    exact ⟨persists_trans drew (persists_addNodeTo _ owner _), m, inside,
      recast.id.trans (Option.some.inj same), recast_isComment recast⟩

theorem state_spec (found : g.state? id = some n) : n ∈ g.nodes ∧ n.id = id ∧ n.isState = true := by
  obtain ⟨node, state⟩ := Option.filter_eq_some_iff.mp found
  exact ⟨List.mem_of_find?_eq_some node, by simpa using List.find?_some node, state⟩

theorem state_voiced (state : n.isState = true) : n.isComment = false := by
  rw [Node.isState, Bool.and_eq_true, Bool.not_eq_true'] at state
  exact state.1

/-- How two different states of the active machine are joined: they get linked to a transition that is placed for them. -/
structure Joining (e : Editor) (start finish owner : NodeId) (g : SubGraph) (a b : Node) (f : Editor) (transition : NodeId) :
    Prop where
  active : e.activeMachine? = some owner
  held : e.asset.graph? owner = some g
  first : g.state? start = some a
  second : g.state? finish = some b
  differ : start ≠ finish
  created : e.createTransitionNode = (f, some transition)
  result : e.createTransition start finish =
    (f.ensureSubGraph transition).joinTransition owner transition start finish (a.position.midpoint b.position)

theorem createTransition_cases (e : Editor) (start finish : NodeId) : e.createTransition start finish = (e, none) ∨
    ∃ owner g a b f transition, Joining e start finish owner g a b f transition := by
  cases active : e.activeMachine? with
  | none => exact .inl (by rw [createTransition, active])
  | some owner =>
    have created : e.createTransitionNode = ((e.adopt Template.transition).2.addNode owner (e.adopt Template.transition).1,
        some (e.adopt Template.transition).1.id) := by rw [createTransitionNode, active]
    cases held : e.asset.graph? owner with
    | none => exact .inl (by simp only [createTransition, active, held])
    | some g =>
      cases first : g.state? start with
      | none => exact .inl (by simp only [createTransition, active, held, first])
      | some a =>
        cases second : g.state? finish with
        | none => exact .inl (by simp only [createTransition, active, held, first, second])
        | some b =>
          by_cases same : start = finish
          · exact .inl (by simp only [createTransition, active, held, first, second, if_pos same])
          · refine .inr ⟨owner, g, a, b, _, _, active, held, first, second, same, created, ?_⟩
            simp only [createTransition, active, held, first, second, if_neg same, created]

/-- States are joined where a transition is returned. -/
theorem createTransition_accepted (accepted : (e.createTransition start finish).2.isSome = true) :
    ∃ owner g a b f transition, Joining e start finish owner g a b f transition := by
  refine (createTransition_cases e start finish).resolve_left fun same => ?_
  rw [same] at accepted
  cases accepted

/-- Neither of two states nor a transition that has been made for them is an annotation. -/
theorem voiced_joining {a b : Node} (coherent : Coherent none e) (joining : Joining e start finish owner g a b f transition) :
    ∀ k, (f.ensureSubGraph transition).asset.graph? owner = some k → Voiced k start ∧ Voiced k finish ∧ Voiced k transition := by
  have made := coherent_createTransitionNode coherent
  rw [joining.created] at made
  have after := coherent_ensureSubGraph made transition
  obtain ⟨persists, m, inside, same, text⟩ := createTransitionNode_spec joining.created
  have state {id : NodeId} {n : Node} (known : g.state? id = some n) {k : SubGraph}
      (found : (f.ensureSubGraph transition).asset.graph? owner = some k) : Voiced k id := by
    obtain ⟨member, named, state⟩ := state_spec known
    obtain ⟨x, inX, recast⟩ := persists_trans persists (persists_ensureSubGraph _ transition) n
      (mem_allNodes.mpr ⟨owner, g, joining.held, member⟩)
    exact voiced_of_member after inX (recast.id.trans named) ((recast_isComment recast).trans (state_voiced state)) found
  intro k found
  obtain ⟨x, inX, recast⟩ := persists_ensureSubGraph _ transition m inside
  exact ⟨state joining.first found, state joining.second found,
    voiced_of_member after inX (recast.id.trans same) ((recast_isComment recast).trans text) found⟩

theorem coherent_createTransition (coherent : Coherent none e) (start finish : NodeId) :
    Coherent none (e.createTransition start finish).1 := by
  rcases createTransition_cases e start finish with same | ⟨owner, g, a, b, f, transition, joining⟩
  · rw [same]
    exact coherent
  · have made := coherent_createTransitionNode coherent
    rw [joining.created] at made
    rw [joining.result]
    exact coherent_joinTransition (coherent_ensureSubGraph made transition) (voiced_joining coherent joining)

/-! ## Promoting a quick state -/

theorem quickState_iff : n.kind = .quickState ↔ n.category = stateMachineCategory ∧ n.name = "Quick State" := by
  refine ⟨fun kind => ?_, fun ⟨category, name⟩ => by simp [Node.kind, category, name]⟩
  rw [Node.kind] at kind
  repeat' split at kind
  all_goals first | assumption | cases kind

theorem quickState_isState (crafted : Crafted n) (quick : n.kind = .quickState) : n.isState = true := by
  have text : n.isComment = false := by
    by_contra comment
    have named := (crafted.comment (by simpa using comment)).2
    rw [(quickState_iff.mp quick).2] at named
    exact absurd named (by decide)
  rw [Node.isState, text, quick]
  decide

/-- A node that is made as a state. -/
structure StateNode (n : Node) : Prop where
  category : n.category = stateMachineCategory
  name : n.name = "State"

theorem stateNode_kind (shape : StateNode n) : n.kind = .state := by
  rw [Node.kind, if_pos ⟨shape.category, shape.name⟩]

theorem stateNode_stateFromQuick (quick : Node) (shape : StateNode state) : StateNode (stateFromQuick state quick) :=
  ⟨shape.category, shape.name⟩

theorem stateFromQuick_crafted (crafted : Crafted state) (shape : StateNode state) :
    Crafted (stateFromQuick state quick) := by
  have name := (stateNode_stateFromQuick quick shape).name
  have text : state.isComment = false := by
    by_contra comment
    have named := (crafted.comment (by simpa using comment)).2
    rw [shape.name] at named
    exact absurd named (by decide)
  refine ⟨fun comment => ?_, fun output => ?_, fun _ => ?_⟩
  · have same : state.isComment = true := comment
    rw [text] at same
    cases same
  · rw [name] at output
    exact absurd output (by decide)
  · rw [(stateNode_stateFromQuick quick shape).category]
    decide

theorem stateFromQuick_identities (state quick : Node) :
    (nodeIdentities (stateFromQuick state quick)).Sublist (nodeIdentities quick) := by
  have pins : (stateFromQuick state quick).pins.map (fun p => p.id.value) =
      (quick.inputs.filter Pin.isFlow ++ quick.outputs.filter Pin.isFlow).map fun p => p.id.value := by
    simp [stateFromQuick, Node.withId, Node.mapPins, Node.pins, Function.comp_def]
  have first : (stateFromQuick state quick).id.value = quick.id.value := rfl
  rw [nodeIdentities, nodeIdentities, pins, first]
  exact .cons_cons _ ((List.filter_sublist.append List.filter_sublist).map _)

/-- The graph with a state in place of a quick state. -/
def promoted (g : SubGraph) (id : NodeId) (state quick : Node) : SubGraph :=
  (g.replaceNode id (stateFromQuick state quick)).dropStaleLinks

theorem promoted_nodes (state : Node) (found : g.node? id = some quick) : ∃ before after,
    g.nodes = before ++ quick :: after ∧ (promoted g id state quick).nodes = before ++ stateFromQuick state quick :: after := by
  obtain ⟨before, after, split, replaced, -⟩ :=
    modifyFirst_eq (f := fun _ => stateFromQuick state quick) found
  exact ⟨before, after, split, replaced⟩

theorem promoted_takes (state : Node) (found : g.node? id = some quick) :
    stateFromQuick state quick ∈ (promoted g id state quick).nodes := by
  obtain ⟨before, after, -, replaced⟩ := promoted_nodes state found
  rw [replaced]
  exact List.mem_append_right _ List.mem_cons_self

theorem promoted_origin (found : g.node? id = some quick) (member : m ∈ (promoted g id state quick).nodes) :
    m ∈ g.nodes ∨ m = stateFromQuick state quick := by
  obtain ⟨before, after, split, replaced⟩ := promoted_nodes state found
  rw [replaced] at member
  rw [split]
  simp only [List.mem_append, List.mem_cons] at member ⊢
  tauto

theorem promoted_survivor (state : Node) (found : g.node? id = some quick) (member : n ∈ g.nodes) :
    n ∈ (promoted g id state quick).nodes ∨ n = quick := by
  obtain ⟨before, after, split, replaced⟩ := promoted_nodes state found
  rw [split] at member
  rw [replaced]
  simp only [List.mem_append, List.mem_cons] at member ⊢
  tauto

theorem develops_promoted (coherent : Coherent except e) (held : e.asset.graph? owner = some g)
    (found : g.node? id = some quick) (kind : quick.kind = .quickState) (crafted : Crafted state)
    (shape : StateNode state) : Develops e except owner [] g (promoted g id state quick) := by
  obtain ⟨before, after, split, replaced⟩ := promoted_nodes state found
  have whole := graph_crafted coherent held
  have made := stateNode_stateFromQuick quick shape
  have stateKind := stateNode_kind made
  have inside : quick ∈ g.nodes := by simp [split]
  have origin (m : Node) (member : m ∈ (promoted g id state quick).nodes) :
      m ∈ g.nodes ∨ m = stateFromQuick state quick := promoted_origin found member
  have unjoined (free : Unjoined g) : Unjoined (promoted g id state quick) := by
    intro m member
    rcases origin m member with old | rfl
    · exact free m old
    · rw [stateKind]
      decide
  refine ⟨?_, ?_, ?_, .inr ?_, .inr unjoined⟩
  · rw [List.append_nil, identities, identities, replaced, split]
    simp only [List.flatMap_append, List.flatMap_cons]
    refine (((List.Sublist.refl _).append ((stateFromQuick_identities state quick).append (.refl _))).append ?_).subperm
    exact List.filter_sublist.map _
  · intro m member
    rcases origin m member with old | rfl
    · exact whole m old
    · exact stateFromQuick_crafted crafted shape
  · intro m member machine
    rcases origin m member with old | rfl
    · exact .inl ⟨m, old, machine, rfl⟩
    · have kinds := machine.2
      rw [stateKind] at kinds
      cases kinds
  · rintro (marked | free | stateless)
    · refine .inl ?_
      rw [split] at marked
      rw [replaced]
      have entry : (stateFromQuick state quick).isEntry = quick.isEntry := rfl
      simpa only [List.any_append, List.any_cons, entry] using marked
    · exact .inr (.inl (unjoined free))
    · have state := quickState_isState (whole quick inside) kind
      have none := List.any_eq_false.mp stateless quick inside
      exact absurd state none

/-- A player that plays a clip, if there is one. -/
def loaded (clip : Option Value) (player : Node) : Node :=
  match clip, player.inputs with
  | some v, p :: ps => { player with inputs := p.withValue v :: ps }
  | _, _ => player

theorem playClip_eq (e : Editor) (owner : NodeId) (clip : Option Value) : e.playClip owner clip =
    match e.spawn (.ofKind .animation) "Animation" "Animation Player" with
    | none => (e, none)
    | some (player, f) =>
      match (loaded clip player).outputNamed? "Pose", (f.asset.graph? owner).bind (·.outputPin?) with
      | some pose, some sink =>
        match (f.modifyGraph owner (·.addNode (loaded clip player))).createLinkIn owner pose.id sink with
        | (f, some _) => (f.invalidate, some owner)
        | (f, none) => (f, none)
      | _, _ => (f, none) := rfl

/-- How a clip is played in a graph: a player of it is placed there, and linked to the output of the graph. -/
structure Playing (e : Editor) (owner : NodeId) (clip : Option Value) (player : Node) (f : Editor) (pose : Pin)
    (sink : PinId) : Prop where
  output : (loaded clip player).outputNamed? "Pose" = some pose
  input : (f.asset.graph? owner).bind (·.outputPin?) = some sink
  result : ∃ linked, linked = (f.modifyGraph owner (·.addNode (loaded clip player))).createLinkIn owner pose.id sink ∧
    (e.playClip owner clip = (linked.1.invalidate, some owner) ∨ e.playClip owner clip = (linked.1, none) ∧ linked.2 = none)

/-- Nothing is played without a player, nor in a graph that has no output. -/
theorem playClip_cases (e : Editor) (owner : NodeId) (clip : Option Value) : e.playClip owner clip = (e, none) ∨
    ∃ player f, e.spawn (.ofKind .animation) "Animation" "Animation Player" = some (player, f) ∧
      (e.playClip owner clip = (f, none) ∨ ∃ pose sink, Playing e owner clip player f pose sink) := by
  have whole := playClip_eq e owner clip
  cases spawn : e.spawn (.ofKind .animation) "Animation" "Animation Player" with
  | none => exact .inl (by rw [whole, spawn])
  | some spawned =>
    obtain ⟨player, f⟩ := spawned
    refine .inr ⟨player, f, rfl, ?_⟩
    cases output : (loaded clip player).outputNamed? "Pose" with
    | none => exact .inl (by simp only [whole, spawn, output])
    | some pose =>
      cases input : (f.asset.graph? owner).bind (·.outputPin?) with
      | none => exact .inl (by simp only [whole, spawn, output, input])
      | some sink =>
        refine .inr ⟨pose, sink, output, input, _, rfl, ?_⟩
        rw [whole, spawn]
        simp only [output, input]
        split
        · rename_i h _ linked
          exact .inl (by rw [linked])
        · rename_i h linked
          exact .inr (by rw [linked]; exact ⟨rfl, rfl⟩)

/-- Another literal in an input leaves the numbers of the player. -/
theorem edited_loaded (clip : Option Value) (player : Node) : Edited player (loaded clip player) := by
  rw [loaded.eq_def]
  split
  · rename_i v p ps inputs
    exact ⟨rfl, rfl, rfl, by rw [inputs]; rfl, rfl, .inl rfl, fun marked => marked⟩
  · exact edited_refl player

theorem newcomer_edited (newcomer : Newcomer e n) (edited : Edited n m) : Newcomer e m := by
  refine ⟨?_, edited_crafted edited newcomer.crafted, ?_⟩
  · rw [edited_identities edited]
    exact newcomer.identities
  · rw [edited.id]
    exact newcomer.unjoined

theorem coherent_playClip (clip : Option Value) (coherent : Coherent none e) (member : n ∈ allNodes e.asset)
    (ordinary : n.category ≠ localVariableCategory) (other : n.kind ≠ .stateMachine) :
    Coherent none (e.playClip n.id clip).1 := by
  rcases playClip_cases e n.id clip with same | ⟨player, f, spawn, outcome⟩
  · rw [same]
    exact coherent
  have spawned := spawn_spec coherent spawn
  have after := coherent_spawned coherent spawned
  rcases outcome with same | ⟨pose, sink, playing⟩
  · rw [same]
    exact after
  have newcomer := newcomer_edited spawned.newcomer (edited_loaded clip player)
  have persists : Persists e f := by
    rw [spawned.rest]
    exact persists_drawn e _
  have full : Coherent (some n.id) (f.modifyGraph n.id (·.addNode (loaded clip player))) := by
    obtain ⟨m, inside, recast⟩ := persists n member
    exact coherent_addNode (coherent_exempt after _) newcomer (.inl rfl)
      (.inl (recast.id ▸ (node_drawn after inside).2))
  have settled : Coherent none (f.modifyGraph n.id (·.addNode (loaded clip player))) := by
    refine coherent_unexempt full fun owned => other ?_
    obtain ⟨m, inside, recast⟩ := persists_trans persists (persists_addNode f n.id (loaded clip player)) n member
    rw [← recast_kind recast ordinary]
    exact ownerKind_of_member full inside (recast.id ▸ owned)
  have linked := coherent_createLinkIn settled n.id pose.id sink
  obtain ⟨_, rfl, same | ⟨same, -⟩⟩ := playing.result
  · rw [same]
    exact coherent_invalidate linked
  · rw [same]
    exact linked

/-- How a quick state of the active machine is promoted: a state is put in its place, which plays the same clip. -/
structure Promotion (e : Editor) (id owner : NodeId) (quick state : Node) (f : Editor) : Prop where
  active : e.activeMachine? = some owner
  found : (e.asset.graph? owner).bind (·.node? id) = some quick
  kind : quick.kind = .quickState
  spawn : e.spawn (.ofKind .stateMachine) stateMachineCategory "State" = some (state, f)
  result : e.promoteQuickState id = ((f.modifyGraph owner (promoted · id state quick)).ensureSubGraph id).playClip id
    ((quick.inputNamed? "Animation").map Pin.value)

theorem promoteQuickState_cases (e : Editor) (id : NodeId) : e.promoteQuickState id = (e, none) ∨
    ∃ owner quick state f, Promotion e id owner quick state f := by
  cases active : e.activeMachine? with
  | none => exact .inl (by rw [promoteQuickState, active])
  | some owner =>
    cases found : (e.asset.graph? owner).bind (·.node? id) with
    | none => exact .inl (by simp only [promoteQuickState, active, found])
    | some quick =>
      by_cases other : quick.kind ≠ .quickState
      · exact .inl (by simp only [promoteQuickState, active, found, if_pos other])
      · cases spawn : e.spawn .stateMachine stateMachineCategory "State" with
        | none => exact .inl (by simp only [promoteQuickState, active, found, if_neg other, spawn])
        | some spawned =>
          obtain ⟨state, f⟩ := spawned
          refine .inr ⟨owner, quick, state, f, active, found, not_not.mp other, spawn, ?_⟩
          simp only [promoteQuickState, active, found, if_neg other, spawn]
          rfl

/-- Putting a state in the place of a quick state. -/
theorem coherent_promoted (coherent : Coherent none e) (spawned : Spawned e f stateMachineCategory "State" state)
    (found : (e.asset.graph? owner).bind (·.node? id) = some quick) (kind : quick.kind = .quickState) :
    Coherent none (f.modifyGraph owner (promoted · id state quick)) := by
  have same : f.asset = e.asset := by rw [spawned.rest]; rfl
  apply coherent_develop (coherent_spawned coherent spawned) newcomers_nil
  intro g held
  rw [same] at held
  rw [held, Option.bind_some] at found
  exact develops_promoted (coherent_spawned coherent spawned) (same ▸ held) found kind spawned.newcomer.crafted
    ⟨spawned.under, spawned.named⟩

theorem member_promoted (spawned : Spawned e f stateMachineCategory "State" state)
    (found : (e.asset.graph? owner).bind (·.node? id) = some quick) :
    stateFromQuick state quick ∈ allNodes (f.modifyGraph owner (promoted · id state quick)).asset ∧
      (stateFromQuick state quick).id = id := by
  have same : f.asset = e.asset := by rw [spawned.rest]; rfl
  obtain ⟨g, held, inside⟩ := Option.bind_eq_some_iff.mp found
  refine ⟨mem_allNodes.mpr ⟨owner, _, graph_modifyGraph_self (e := f) (same ▸ held), promoted_takes state inside⟩, ?_⟩
  · have same : quick.id = id := by simpa using List.find?_some inside
    exact same

/-- In the place of the quick state stands a state, when its clip is about to be played. -/
theorem Promotion.stands (promotion : Promotion e id owner quick state f) (coherent : Coherent none e) :
    ∃ m ∈ allNodes ((f.modifyGraph owner (promoted · id state quick)).ensureSubGraph id).asset,
      m.id = id ∧ m.kind = .state ∧ m.category ≠ localVariableCategory := by
  have spawned := spawn_spec coherent promotion.spawn
  obtain ⟨there, same⟩ := member_promoted spawned promotion.found
  obtain ⟨m, inside, recast⟩ := persists_ensureSubGraph _ id _ there
  have made := stateNode_stateFromQuick quick ⟨spawned.under, spawned.named⟩
  have ordinary : (stateFromQuick state quick).category ≠ localVariableCategory := by
    rw [made.category]
    decide
  exact ⟨m, inside, recast.id.trans same, (recast_kind recast ordinary).trans (stateNode_kind made),
    recast.category.symm ▸ ordinary⟩

theorem coherent_promoteQuickState (coherent : Coherent none e) (id : NodeId) :
    Coherent none (e.promoteQuickState id).1 := by
  rcases promoteQuickState_cases e id with same | ⟨owner, quick, state, f, promotion⟩
  · rw [same]
    exact coherent
  · have replaced := coherent_promoted coherent (spawn_spec coherent promotion.spawn) promotion.found promotion.kind
    obtain ⟨m, inside, rfl, kind, ordinary⟩ := promotion.stands coherent
    rw [promotion.result]
    exact coherent_playClip _ (coherent_ensureSubGraph replaced m.id) inside ordinary (by simp [kind])

end PoseGraph.StateEdits
