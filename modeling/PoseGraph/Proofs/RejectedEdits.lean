import PoseGraph.Proofs.LinkInvariant
import PoseGraph.Proofs.ReachableEditors
import PoseGraph.Proofs.StatePromotion

/-! What edits leave that are not made. An operation either turns its arguments away
before it changes anything, or goes all the way; what it needs in its later stages has
been made in its earlier ones. One operation can stop half-way: a quick state becomes
a state before it turns out that there is no output for its clip. -/
namespace PoseGraph.RejectedEdits
open AssetOrder EditOutcomes EditRuns Editor EditorCoherence EditorSoundness GraphDependencies GraphWiring LinkEdits
  LinkInvariant LinkingEdits NodeCraft NodeEdits NodeFrames PropertyKeys ReachableEditors StateEdits StatePromotion

variable {e f : Editor} {g : SubGraph} {n m quick : Node} {p : Pin} {pin : PinId} {owner id a b transition : NodeId}
variable {change : Node → Node} {except : Option NodeId} {edit : Edit}

/-- Whether an operation does what it is asked to. Operations that answer nothing
always do. -/
def accepted (e : Editor) : Edit → Bool
  | .createNode category name => (e.createNode category name).2.isSome
  | .removeNodes ids => (e.removeNodes ids).2
  | .setPinValue pin v => (e.setPinValue pin v).2
  | .createLink start finish => (e.createLink start finish).2.isSome
  | .removeLinks ids => (e.removeLinks ids).2
  | .removeProperty kind name => (e.removeProperty kind name).2
  | .setPropertyValue kind name v => (e.setPropertyValue kind name v).2
  | .renameProperty kind old new => (e.renameProperty kind old new).2
  | .changePropertyType kind name v => (e.changePropertyType kind name v).2
  | .spawnInput name => (e.spawnInput name).2.isSome
  | .spawnLocalVariable name getter => (e.spawnLocalVariable name getter).2.isSome
  | .createTransitionNode => e.createTransitionNode.2.isSome
  | .createTransition start finish => (e.createTransition start finish).2.isSome
  | .promoteQuickState id => (e.promoteQuickState id).2.isSome
  | _ => true

/-- The asset and the place in it are the same. -/
def Unchanged (e f : Editor) : Prop := f.asset = e.asset ∧ f.path = e.path

theorem unchanged_refl (e : Editor) : Unchanged e e := ⟨rfl, rfl⟩

/-- A quick state of the active state machine owns a graph that has no output. -/
def Endless (e : Editor) (id : NodeId) : Prop :=
  ∃ owner quick g, e.activeMachine? = some owner ∧ (e.asset.graph? owner).bind (·.node? id) = some quick ∧
    quick.kind = .quickState ∧ e.asset.graph? id = some g ∧ ∀ m ∈ g.nodes, m.name ≠ "Output"

/-! ## Pins that are there -/

/-- A node that gains pins keeps those it has. -/
theorem pin_modifyNode (keeps : ∀ n p, p ∈ n.pins → p ∈ (change n).pins) (id : NodeId)
    (there : (g.pin? pin).isSome = true) : ((g.modifyNode id change).pin? pin).isSome = true := by
  obtain ⟨n, member, has⟩ := pin_isSome_iff.mp there
  have each : List.Forall₂ (fun n m => ∀ p ∈ n.pins, p ∈ m.pins) g.nodes (g.modifyNode id change).nodes :=
    forall₂_modifyFirst (fun _ _ held => held) fun n _ _ p held => keeps n p held
  obtain ⟨m, inside, more⟩ := LoweringSemantics.origin_of_mem each.flip member
  obtain ⟨p, held, same⟩ := hasPin_iff.mp has
  exact pin_isSome_iff.mpr ⟨m, inside, hasPin_iff.mpr ⟨p, more p held, same⟩⟩

/-- The pins that a node gains are there. -/
theorem pin_attached (inside : id ∈ g.nodes.map Node.id) (gains : ∀ n, p ∈ (change n).pins) :
    ((g.modifyNode id change).pin? p.id).isSome = true := by
  obtain ⟨n, member, same⟩ := List.mem_map.mp inside
  have found : (g.nodes.find? (·.id == id)).isSome = true :=
    List.find?_isSome.mpr ⟨n, member, by simpa using same⟩
  obtain ⟨x, found⟩ := Option.isSome_iff_exists.mp found
  obtain ⟨before, after, -, modified, -⟩ := modifyFirst_eq (f := change) found
  refine pin_isSome (n := change x) ?_ (gains x)
  rw [SubGraph.modifyNode, modified]
  exact List.mem_append_right _ List.mem_cons_self

/-- All four pins by which a transition is joined to two states are there. -/
theorem withTransition_pins {base i : Nat} {middle : Point} (inA : a ∈ g.nodes.map Node.id)
    (inB : b ∈ g.nodes.map Node.id) (inT : transition ∈ g.nodes.map Node.id)
    (listed : i = base ∨ i = base + 1 ∨ i = base + 2 ∨ i = base + 3) :
    ((withTransition base a b transition middle g).pin? ⟨i⟩).isSome = true := by
  have stays {g : SubGraph} {x id : NodeId} {change : Node → Node} (keeps : ∀ n, (change n).id = n.id)
      (inside : x ∈ g.nodes.map Node.id) : x ∈ (g.modifyNode id change).nodes.map Node.id :=
    (map_modifyFirst keeps g.nodes).symm ▸ inside
  have more (ins outs : List Pin) (n : Node) (p : Pin) (held : p ∈ n.pins) :
      p ∈ (n.inputs ++ ins) ++ (n.outputs ++ outs) := by
    simp only [Node.pins, List.mem_append] at held ⊢
    tauto
  rw [withTransition]
  rcases listed with rfl | rfl | rfl | rfl
  · refine pin_modifyNode (fun n p held => ?_) _ (pin_modifyNode (fun n p held => ?_) _ ?_)
    · exact more [transitionPin (i + 1) transition .input] [transitionPin (i + 2) transition .output] n p held
    · simpa [Node.pins] using more [transitionPin (i + 3) b .input] [] n p held
    · exact pin_attached (p := transitionPin i a .output) inA fun n => by simp [Node.pins]
  · exact pin_attached (p := transitionPin (base + 1) transition .input) (stays (fun _ => rfl) (stays (fun _ => rfl) inT))
      fun n => by simp [Node.pins]
  · exact pin_attached (p := transitionPin (base + 2) transition .output) (stays (fun _ => rfl) (stays (fun _ => rfl) inT))
      fun n => by simp [Node.pins]
  · refine pin_modifyNode (fun n p held => ?_) _ ?_
    · exact more [transitionPin (base + 1) transition .input] [transitionPin (base + 2) transition .output] n p held
    · exact pin_attached (p := transitionPin (base + 3) b .input) (stays (fun _ => rfl) inB) fun n => by simp [Node.pins]

/-- Two states and a transition that are in one graph are joined. -/
theorem joinTransition_isSome {middle : Point} (coherent : Coherent except e) (meetsA : Meets e owner a)
    (meetsB : Meets e owner b) (meetsT : Meets e owner transition) :
    (e.joinTransition owner transition a b middle).2.isSome = true := by
  obtain ⟨g, held⟩ := meets_graph meetsA
  have inA := (meets_voiced coherent meetsA held).2
  have inB := (meets_voiced coherent meetsB held).2
  have inT := (meets_voiced coherent meetsT held).2
  have pinned : Coherent except ((drawn e (e.nextId + 4)).modifyGraph owner (withTransition e.nextId a b transition middle)) :=
    coherent_attached coherent meetsA meetsB meetsT
  have there : ((drawn e (e.nextId + 4)).modifyGraph owner (withTransition e.nextId a b transition middle)).asset.graph? owner =
      some (withTransition e.nextId a b transition middle g) :=
    graph_modifyGraph_self (e := drawn e (e.nextId + 4)) held
  have pin (i : Nat) (listed : i = e.nextId ∨ i = e.nextId + 1 ∨ i = e.nextId + 2 ∨ i = e.nextId + 3) :
      ((withTransition e.nextId a b transition middle g).pin? ⟨i⟩).isSome = true := withTransition_pins inA inB inT listed
  have once := createLinkIn_isSome there (pin _ (.inl rfl)) (pin _ (.inr (.inl rfl)))
  rw [joinTransition_eq]
  split
  · rename_i failed
    rw [failed] at once
    cases once
  · rename_i f _ first
    -- The first link leaves the pins of the second one.
    obtain ⟨k, found, nodes⟩ := frames_createLinkIn pinned there ⟨e.nextId⟩ ⟨e.nextId + 1⟩
    rw [first] at found
    have still (i : Nat) (listed : i = e.nextId ∨ i = e.nextId + 1 ∨ i = e.nextId + 2 ∨ i = e.nextId + 3) :
        (k.pin? ⟨i⟩).isSome = true := by
      obtain ⟨n, member, has⟩ := pin_isSome_iff.mp (pin i listed)
      obtain ⟨m, inside, same⟩ := kept_survivor nodes member
      exact pin_isSome_iff.mpr ⟨m, inside, (sameFrame_hasPin same _).trans has⟩
    have twice := createLinkIn_isSome found (still _ (.inr (.inr (.inl rfl)))) (still _ (.inr (.inr (.inr rfl))))
    split
    · rename_i failed
      rw [failed] at twice
      cases twice
    · rfl

/-! ## Operations one by one -/

theorem rejected_createNode {category name : String} (rejected : (e.createNode category name).2.isSome = false) :
    Unchanged e (e.createNode category name).1 := by
  rcases createNode_cases e category name with same | ⟨n, f, -, same⟩
  · rw [same]
    exact unchanged_refl e
  · rw [same] at rejected
    cases rejected

theorem rejected_removeNodes {ids : List NodeId} (rejected : (e.removeNodes ids).2 = false) :
    Unchanged e (e.removeNodes ids).1 := by
  rw [removeNodes, removeNodesIn] at rejected ⊢
  split at rejected
  · exact unchanged_refl e
  · dsimp only at rejected ⊢
    split at rejected
    · rename_i none
      rw [if_pos none]
      exact unchanged_refl e
    · cases rejected

theorem rejected_setPinValue {v : Value} (rejected : (e.setPinValue pin v).2 = false) :
    Unchanged e (e.setPinValue pin v).1 := by
  rcases setPinValue_cases e pin v with same | ⟨f, -, same | ⟨id, label, same⟩⟩ <;> rw [same] at rejected ⊢
  · exact unchanged_refl e
  · cases rejected
  · cases rejected

theorem rejected_createLink {start finish : PinId} (rejected : (e.createLink start finish).2.isSome = false) :
    Unchanged e (e.createLink start finish).1 := by
  rw [createLink, createLinkIn] at rejected ⊢
  split at rejected
  · exact unchanged_refl e
  · cases rejected

theorem rejected_removeLinks {ids : List LinkId} (rejected : (e.removeLinks ids).2 = false) :
    Unchanged e (e.removeLinks ids).1 := by
  rw [removeLinks] at rejected ⊢
  rcases removeLinksIn_cases e e.activeOwner ids with same | ⟨g, -, -, same⟩
  · rw [same]
    exact unchanged_refl e
  · rw [same] at rejected
    cases rejected

section Properties
variable {kind : PropertyKind} {name old new : String} {v : Value}

theorem rejected_removeProperty (rejected : (e.removeProperty kind name).2 = false) :
    Unchanged e (e.removeProperty kind name).1 := by
  rw [removeProperty] at rejected ⊢
  split at rejected
  · cases rejected
  · rename_i missing
    rw [if_neg missing]
    exact unchanged_refl e

theorem rejected_setPropertyValue (rejected : (e.setPropertyValue kind name v).2 = false) :
    Unchanged e (e.setPropertyValue kind name v).1 := by
  rw [Editor.setPropertyValue] at rejected ⊢
  split at rejected
  · cases rejected
  · rename_i missing
    rw [if_neg missing]
    exact unchanged_refl e

theorem rejected_renameProperty (rejected : (e.renameProperty kind old new).2 = false) :
    Unchanged e (e.renameProperty kind old new).1 := by
  rcases renameProperty_cases e kind old new with same | ⟨v, f, renames⟩
  · rw [same]
    exact unchanged_refl e
  · rw [renames.result] at rejected
    cases rejected

theorem rejected_changePropertyType (rejected : (e.changePropertyType kind name v).2 = false) :
    Unchanged e (e.changePropertyType kind name v).1 := by
  rcases changePropertyType_cases e kind name v with same | ⟨current, f, retyping⟩
  · rw [same]
    exact unchanged_refl e
  · rw [retyping.result] at rejected
    cases rejected

theorem rejected_spawnInput (rejected : (e.spawnInput name).2.isSome = false) : Unchanged e (e.spawnInput name).1 := by
  rw [spawnInput] at rejected ⊢
  split at rejected
  · exact unchanged_refl e
  · cases rejected

theorem rejected_spawnLocalVariable {getter : Bool} (rejected : (e.spawnLocalVariable name getter).2.isSome = false) :
    Unchanged e (e.spawnLocalVariable name getter).1 := by
  rcases spawnLocalVariable_cases e name getter with same | ⟨v, inputs, outputs, n, placing⟩
  · rw [same]
    exact unchanged_refl e
  · rw [placing.result] at rejected
    cases rejected

end Properties

theorem rejected_createTransitionNode (rejected : e.createTransitionNode.2.isSome = false) :
    Unchanged e e.createTransitionNode.1 := by
  rw [createTransitionNode] at rejected ⊢
  split at rejected
  · exact unchanged_refl e
  · cases rejected

theorem rejected_createTransition (coherent : Coherent none e) (a b : NodeId)
    (rejected : (e.createTransition a b).2.isSome = false) : Unchanged e (e.createTransition a b).1 := by
  rcases createTransition_cases e a b with same | ⟨owner, g, n, m, f, transition, joining⟩
  · rw [same]
    exact unchanged_refl e
  · have firm := coherent_createTransitionNode coherent
    rw [joining.created] at firm
    obtain ⟨-, meets, states⟩ := joining_meets coherent joining
    rw [joining.result, joinTransition_isSome (coherent_ensureSubGraph firm transition) (states a n joining.first).2.1
      (states b m joining.second).2.1 meets] at rejected
    cases rejected

/-- Promoting a quick state stops half-way only if the graph that its identity owns
already has no output. -/
theorem rejected_promoteQuickState (coherent : Coherent none e) (id : NodeId)
    (rejected : (e.promoteQuickState id).2.isSome = false) :
    Unchanged e (e.promoteQuickState id).1 ∨ Endless e id := by
  rcases promoteQuickState_cases e id with same | ⟨owner, quick, state, f, promotion⟩
  · rw [same]
    exact .inl (unchanged_refl e)
  have spawned := spawn_spec coherent promotion.spawn
  by_cases plays : ∀ g, e.asset.graph? id = some g → ∃ m ∈ g.nodes, m.name = "Output"
  · obtain ⟨g, held, m, inside, named⟩ :=
      promoted_output coherent (activeMachine_spec promotion.active) spawned promotion.found promotion.kind plays
    have made := coherent_ensureSubGraph (coherent_promoted coherent spawned promotion.found promotion.kind) id
    rw [promotion.result, playClip_isSome ((quick.inputNamed? "Animation").map Pin.value) made held inside named] at rejected
    cases rejected
  · obtain ⟨g, held, none⟩ : ∃ g, e.asset.graph? id = some g ∧ ¬∃ m ∈ g.nodes, m.name = "Output" := by
      simpa using plays
    exact .inr ⟨owner, quick, g, promotion.active, promotion.found, promotion.kind, held,
      fun m inside named => none ⟨m, inside, named⟩⟩

/-- Without an output, no clip is played. -/
theorem playClip_endless {clip : Option Value} (held : e.asset.graph? owner = some g)
    (endless : ∀ m ∈ g.nodes, m.name ≠ "Output") : (e.playClip owner clip).1.asset = e.asset := by
  rcases playClip_cases e owner clip with same | ⟨player, f, spawn, same | ⟨pose, sink, playing⟩⟩
  · rw [same]
  · rw [same]
    exact spawn_asset spawn
  · have none : g.nodeNamed? "Output" = none :=
      List.find?_eq_none.mpr fun m inside => by simpa using endless m inside
    have found := playing.input
    rw [spawn_asset spawn, held, Option.bind_some, SubGraph.outputPin?, none] at found
    cases found

/-- The quick state has become a state by then. -/
theorem endless_changes (coherent : Coherent none e) (endless : Endless e id) :
    (e.promoteQuickState id).1.asset ≠ e.asset := by
  obtain ⟨owner, quick, g, active, found, kind, held, none⟩ := endless
  obtain ⟨state, f, spawn⟩ := spawn_isSome e .stateMachine stateMachineCategory "State" (by decide +kernel)
  have spawned := spawn_spec coherent spawn
  obtain ⟨k, owned, first⟩ := Option.bind_eq_some_iff.mp found
  have inside : quick ∈ k.nodes := List.mem_of_find?_eq_some first
  have named : quick.id = id := by simpa using List.find?_some first
  have apart : id ≠ owner := by
    rintro rfl
    have kinds := ownerKind_of_member coherent (mem_allNodes.mpr ⟨id, k, owned, inside⟩)
      (named.symm ▸ activeMachine_spec active)
    rw [kind] at kinds
    cases kinds
  have same : f.asset = e.asset := spawn_asset spawn
  have replaced : (f.modifyGraph owner (promoted · id state quick)).asset.graph? owner =
      some (promoted k id state quick) := graph_modifyGraph_self (e := f) (same ▸ owned)
  have before : (f.modifyGraph owner (promoted · id state quick)).asset.graph? id = some g := by
    change (f.asset.modifyGraph owner _).graph? id = _
    rw [graph_modifyGraph, if_neg apart, same, held]
  have kept : (f.modifyGraph owner (promoted · id state quick)).ensureSubGraph id =
      f.modifyGraph owner (promoted · id state quick) := by
    rw [ensureSubGraph, hasGraph_iff.mpr ⟨g, before⟩, Bool.or_true, if_pos rfl]
  have outcome : (e.promoteQuickState id).1.asset = (f.modifyGraph owner (promoted · id state quick)).asset := by
    rw [promoteQuickState, active]
    simp only [found, kind, ne_eq, not_true_eq_false, ↓reduceIte,
      show e.spawn .stateMachine stateMachineCategory "State" = _ from spawn]
    change (((f.modifyGraph owner (promoted · id state quick)).ensureSubGraph id).playClip id _).1.asset = _
    rw [kept]
    exact playClip_endless before none
  intro unchanged
  rw [← outcome, unchanged, owned] at replaced
  obtain ⟨left, right, -, nodes⟩ := promoted_nodes state first
  have there : stateFromQuick state quick ∈ k.nodes := by
    rw [Option.some.inj replaced, nodes]
    exact List.mem_append_right _ List.mem_cons_self
  have unique := identified_unique (identified_of_coherent coherent) owned
  have equal : stateFromQuick state quick = quick := node_eq_of_id unique there inside rfl
  have renamed : (stateFromQuick state quick).name = "State" := spawned.named
  have names : "State" = quick.name := renamed.symm.trans (congrArg Node.name equal)
  rw [(quickState_iff.mp kind).2] at names
  exact absurd names (by decide)

/-! ## All operations -/

/-- An edit that is turned away leaves the asset and the path, with one exception. -/
theorem rejected_cases (coherent : Coherent none e) (rejected : accepted e edit = false) :
    Unchanged e (edit.apply e) ∨ ∃ id, edit = .promoteQuickState id ∧ Endless e id := by
  cases edit with
  | createNode category name => exact .inl (rejected_createNode rejected)
  | removeNodes ids => exact .inl (rejected_removeNodes rejected)
  | setPinValue pin v => exact .inl (rejected_setPinValue rejected)
  | createLink start finish => exact .inl (rejected_createLink rejected)
  | removeLinks ids => exact .inl (rejected_removeLinks rejected)
  | removeProperty kind name => exact .inl (rejected_removeProperty rejected)
  | setPropertyValue kind name v => exact .inl (rejected_setPropertyValue rejected)
  | renameProperty kind old new => exact .inl (rejected_renameProperty rejected)
  | changePropertyType kind name v => exact .inl (rejected_changePropertyType rejected)
  | spawnInput name => exact .inl (rejected_spawnInput rejected)
  | spawnLocalVariable name getter => exact .inl (rejected_spawnLocalVariable rejected)
  | createTransitionNode => exact .inl (rejected_createTransitionNode rejected)
  | createTransition start finish => exact .inl (rejected_createTransition coherent start finish rejected)
  | promoteQuickState id =>
    exact (rejected_promoteQuickState coherent id rejected).imp_right fun endless => ⟨id, rfl, endless⟩
  | _ => cases rejected

/-- In every editor that edits reach, an edit that is turned away leaves the asset and
the path exactly as they are, unless it promotes a quick state whose identity owns a
graph without an output. -/
theorem rejected_unchanged_iff (reached : Reached e) (rejected : accepted e edit = false) :
    Unchanged e (edit.apply e) ↔ ¬∃ id, edit = .promoteQuickState id ∧ Endless e id := by
  have coherent := coherent_reachable reached
  constructor
  · rintro unchanged ⟨id, rfl, endless⟩
    exact endless_changes coherent endless unchanged.1
  · exact (rejected_cases coherent rejected).resolve_right

/-- A sum is placed inside a quick state, which gives the quick state a graph. -/
def nestedSum : List Edit :=
  [.createNode "Animation" "State Machine", .enterNode ⟨2⟩, .createNode "StateMachine" "Quick State", .enterNode ⟨5⟩,
    .createNode "Math" "Add (Float)", .setPath (some ⟨2⟩)]

/-- The editor after these edits. -/
def sumEditor : Editor := nestedSum.foldl Edit.apply (.ofAsset (.ofName "Wave" ⟨1⟩) .empty .default 1)

/-- Promoting this quick state is turned away, but not without a trace. -/
theorem quick_state_half_promoted : accepted sumEditor (.promoteQuickState ⟨5⟩) = false ∧
    ¬Unchanged sumEditor (sumEditor.promoteQuickState ⟨5⟩).1 := by
  have reached : Reached sumEditor := reached_run (.start "Wave" ⟨1⟩ .empty .default 0) nestedSum
  have rejected : accepted sumEditor (.promoteQuickState ⟨5⟩) = false := by decide +kernel
  have active : sumEditor.activeMachine? = some ⟨2⟩ := by decide +kernel
  have quick : ((sumEditor.asset.graph? ⟨2⟩).bind (·.node? ⟨5⟩)).any (fun n => n.kind == .quickState) = true := by
    decide +kernel
  have nested : (sumEditor.asset.graph? ⟨5⟩).any (fun g => g.nodes.all (·.name != "Output")) = true := by
    decide +kernel
  obtain ⟨n, found, kind⟩ := (Option.any_eq_true _ _).mp quick
  obtain ⟨g, held, none⟩ := (Option.any_eq_true _ _).mp nested
  have endless : Endless sumEditor ⟨5⟩ :=
    ⟨⟨2⟩, n, g, active, found, by simpa using kind, held, by simpa using none⟩
  exact ⟨rejected, fun unchanged => (rejected_unchanged_iff reached rejected).mp unchanged ⟨⟨5⟩, rfl, endless⟩⟩

end PoseGraph.RejectedEdits
