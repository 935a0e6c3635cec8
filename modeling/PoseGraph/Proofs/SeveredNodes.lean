import PoseGraph.Proofs.StandingNodes

/-! Nodes that outlive their property. A node stands for its property as long as it has
the pins that it was made with. Where it is joined to a transition it gets another one,
and then neither removing nor renaming the property finds it any more. -/
namespace PoseGraph.SeveredNodes
open AssetOrder EditRuns Editor EditorCoherence EditorSoundness GraphDependencies NodeFrames PropertyEdits PropertyKeys
  PropertyNodes ReachableEditors RejectedEdits StandingNodes StateEdits

variable {e f : Editor} {g : SubGraph} {m n : Node} {owner start finish : NodeId} {base : Nat} {kind : PropertyKind}
variable {name : String} {edit : Edit}

/-- Every node of an input or a local variable stands for a property that exists, and no
graph has two nodes that set a variable. -/
def Intact (e : Editor) : Prop := ∀ owner g, e.asset.graph? owner = some g →
  (∀ n ∈ g.nodes, (n.category = "Input" → e.asset.isPropertyNodeOf .input n = true) ∧
    (n.category = "Local Variable" → e.asset.isPropertyNodeOf .localVariable n = true)) ∧ OneSetter g

/-- A node of an input or a local variable has the pins that it was made with. -/
structure Whole (n : Node) : Prop where
  input : n.category = "Input" → n.inputs = []
  relay : n.category = "Local Variable" → n.isLocalVariable = true

theorem whole_foreign (foreign : Foreign n) : Whole n :=
  ⟨fun input => absurd input (foreign .input), fun relay => absurd relay (foreign .localVariable)⟩

theorem whole_sameFrame (whole : Whole n) (same : SameFrame n m) : Whole m := by
  refine ⟨fun input => ?_, fun relay => ?_⟩
  · have inputs := same.inputs
    rw [whole.input (same.category ▸ input), List.map_nil] at inputs
    exact List.map_eq_nil_iff.mp inputs
  · rw [sameFrame_isLocalVariable same]
    exact whole.relay (same.category ▸ relay)

/-- Changing the pins of a node in place keeps their number. -/
theorem whole_mapPins {f : Pin → Pin} (whole : Whole n) : Whole (n.mapPins f) := by
  refine ⟨fun category => ?_, fun category => ?_⟩
  · exact List.map_eq_nil_iff.mpr (whole.input category)
  · rw [isLocalVariable_mapPins]
    exact whole.relay category

theorem whole_retagged {v : Value} (whole : Whole n) : Whole (forProperty kind name (retagged name v) n) := by
  rw [forProperty]
  split
  · have kept := whole_mapPins (f := fun p => if p.name = name then p.retag v else p) whole
    exact ⟨kept.input, kept.relay⟩
  · exact whole

theorem whole_renamed {old fresh : String} (whole : Whole n) :
    Whole (forProperty kind old (renamed kind old fresh) n) := by
  rw [forProperty]
  split
  · have kept := whole_mapPins (f := fun p => if p.name = old then { p with name := fresh } else p) whole
    rw [renamed]
    split
    · exact ⟨kept.input, kept.relay⟩
    · exact kept
  · exact whole

/-- Having those pins is all that it takes to stand for a property. -/
theorem intact_iff (registered : Registered e) : Intact e ↔ ∀ owner, ∀ n ∈ (graphOf e.asset owner).nodes, Whole n := by
  constructor
  · intro intact owner n member
    cases held : e.asset.graph? owner with
    | none =>
      rw [graphOf_missing held] at member
      cases member
    | some g =>
      rw [graphOf_eq held] at member
      obtain ⟨input, relay⟩ := (intact owner g held).1 n member
      refine ⟨fun category => ?_, fun category => ?_⟩
      · obtain ⟨name, -, stands⟩ := isPropertyNodeOf_iff.mp (input category)
        exact (stands_input.mp stands).2.1
      · obtain ⟨name, -, stands⟩ := isPropertyNodeOf_iff.mp (relay category)
        exact (variableName_eq_some.mp (stands_variable.mp stands)).1
  · intro whole owner g held
    refine ⟨fun n member => ?_, graphOf_eq held ▸ registered.setters owner⟩
    have inside : n ∈ (graphOf e.asset owner).nodes := by
      rw [graphOf_eq held]
      exact member
    have known := registered.known owner n inside
    refine ⟨fun category => ?_, fun category => ?_⟩
    · obtain ⟨p, ps, outputs⟩ := List.exists_cons_of_ne_nil ((registered.bearing owner n inside).input category)
      have stands : Asset.standsFor .input n p.name = true :=
        stands_input.mpr ⟨category, (whole owner n inside).input category, by simp [outputs]⟩
      exact isPropertyNodeOf_iff.mpr ⟨p.name, known .input p.name stands, stands⟩
    · obtain ⟨p, pins, named⟩ := variable_shape ((whole owner n inside).relay category)
      have stands := stands_variable.mpr named
      exact isPropertyNodeOf_iff.mpr ⟨p.name, known .localVariable p.name stands, stands⟩

/-! ## Transitions -/

/-- A pin that is attached to a node severs it from its property: any pin does where the
property is a variable, an input where it is one. -/
def Severed (start finish : NodeId) (n : Node) : Prop :=
  n.id = finish ∧ n.category = "Input" ∨ (n.id = start ∨ n.id = finish) ∧ n.category = "Local Variable"

/-- A transition that is made has an end at such a node. -/
def Severs (e : Editor) : Edit → Prop
  | .createTransition start finish => (e.createTransition start finish).2.isSome = true ∧
      ∃ n ∈ allNodes e.asset, Severed start finish n
  | _ => False

theorem whole_joined_iff (whole : Whole n) (differ : start ≠ finish) :
    Whole (joined base start finish n) ↔ ¬Severed start finish n := by
  have relays (category : n.category = "Local Variable") (more : n.id = start ∨ n.id = finish) :
      (joined base start finish n).isLocalVariable = false := by
    obtain ⟨p, single, -⟩ := variable_shape (whole.relay category)
    exact joined_plain base (fun _ none => by simp [single] at none) differ more
  constructor
  · rintro joined_ (⟨here, category⟩ | ⟨here, category⟩)
    · have none := joined_.input category
      simp [joined, GraphWiring.attach, here] at none
    · have isVariable := joined_.relay category
      rw [relays category here] at isVariable
      cases isVariable
  · intro spared
    refine ⟨fun category => ?_, fun category => ?_⟩
    · have there : n.id ≠ finish := fun here => spared (.inl ⟨here, category⟩)
      simp [joined, GraphWiring.attach, there, whole.input category]
    · have apart : n.id ≠ start ∧ n.id ≠ finish := not_or.mp fun here => spared (.inr ⟨here, category⟩)
      rw [← sameFrame_isLocalVariable (joined_apart apart.1 apart.2)]
      exact whole.relay category

/-- All nodes of properties go on standing for them unless a transition severs one. -/
theorem intact_apply_iff (coherent : Coherent none e) (registered : Registered e) (intact : Intact e) :
    Intact (edit.apply e) ↔ ¬Severs e edit := by
  rw [intact_iff (registered_apply coherent registered edit)]
  rw [intact_iff registered] at intact
  -- Where nodes are left as they are, or become heirs that are whole, nothing is severed.
  have stays {t : Node → Node} (stems : Stems t e (edit.apply e)) (turn : ∀ n, Whole n → Whole (t n)) (owner : NodeId) :
      ∀ m ∈ (graphOf (edit.apply e).asset owner).nodes, Whole m := by
    intro m inside
    rcases stems owner m inside with foreign | ⟨n, member, same⟩
    · exact whole_foreign foreign
    · exact whole_sameFrame (turn n (intact owner n member)) same
  have placed {kind : PropertyKind} {name : String} {v : Value} {new : Node} {place : NodeId}
      (gains : Gains e (edit.apply e) place new) (made : Fresh kind name v new) (owner : NodeId) :
      ∀ m ∈ (graphOf (edit.apply e).asset owner).nodes, Whole m := by
    intro m inside
    rcases gains owner m inside with foreign | ⟨n, member, same⟩ | ⟨-, same⟩
    · exact whole_foreign foreign
    · exact whole_sameFrame (intact owner n member) same
    · have stands := (sameFrame_fresh same made).stands
      refine ⟨fun category => ?_, fun category => ?_⟩
      · obtain rfl : kind = .input := token_injective ((stands_category stands).symm.trans category)
        exact (stands_input.mp stands).2.1
      · obtain rfl : kind = .localVariable := token_injective ((stands_category stands).symm.trans category)
        exact (variableName_eq_some.mp (stands_variable.mp stands)).1
  have unmoved (same : (edit.apply e).asset = e.asset) (owner : NodeId) :
      ∀ m ∈ (graphOf (edit.apply e).asset owner).nodes, Whole m := by
    rw [same]
    exact intact owner
  cases edit with
  | createTransition start finish =>
    cases accepted : (e.createTransition start finish).2.isSome with
    | false =>
      refine iff_of_true (unmoved (rejected_createTransition coherent start finish accepted).1) fun severs => ?_
      rw [severs.1] at accepted
      cases accepted
    | true =>
      obtain ⟨base, stems, lasts⟩ := joined_createTransition coherent accepted
      obtain ⟨_, _, _, _, _, _, joining⟩ := createTransition_accepted accepted
      constructor
      · rintro whole ⟨-, n, member, severed⟩
        obtain ⟨owner, inside⟩ := mem_graphOf.mp member
        obtain ⟨m, after, same⟩ := lasts owner n inside
        have entire := whole_sameFrame (whole owner m after) (sameFrame_symm same)
        exact (whole_joined_iff (intact owner n inside) joining.differ).mp entire severed
      · intro spared owner m inside
        rcases stems owner m inside with foreign | ⟨n, member, same⟩
        · exact whole_foreign foreign
        · refine whole_sameFrame ((whole_joined_iff (intact owner n member) joining.differ).mpr fun severed => ?_) same
          exact spared ⟨accepted, n, mem_graphOf.mpr ⟨owner, member⟩, severed⟩
  | renameProperty kind old fresh =>
    refine iff_of_true ?_ id
    by_cases same : old = fresh
    · exact unmoved (by rw [Edit.apply, Editor.renameProperty, if_pos same])
    · cases accepted : (e.renameProperty kind old fresh).2 with
      | false => exact unmoved (by rw [Edit.apply, renameProperty_refused accepted])
      | true =>
        intro owner m inside
        rw [Edit.apply, renamed_renameProperty coherent same accepted] at inside
        obtain ⟨n, member, rfl⟩ := List.mem_map.mp inside
        exact whole_renamed (intact owner n member)
  | changePropertyType kind name v =>
    refine iff_of_true ?_ id
    cases accepted : (e.changePropertyType kind name v).2 with
    | false => exact unmoved (rejected_changePropertyType accepted).1
    | true => exact stays (stems_changePropertyType coherent accepted) fun n => whole_retagged
  | spawnInput name =>
    refine iff_of_true ?_ id
    rcases spawnInput_gains e name with same | ⟨v, new, -, made, gains⟩
    · exact unmoved (by rw [Edit.apply, same])
    · exact placed gains made
  | spawnLocalVariable name getter =>
    refine iff_of_true ?_ id
    rcases spawnLocalVariable_gains e name getter with same | ⟨v, new, -, made, -, gains, -⟩
    · exact unmoved (by rw [Edit.apply, same])
    · exact placed gains made
  | _ => exact iff_of_true (stays (stems_apply coherent _ rfl) fun _ whole => whole) id

/-! ## Runs -/

/-- The nodes of properties go with them throughout a run exactly if no transition of it
severs one. A variable has one setter in a graph, and a node that stands for a property at
all stands for one that is there, whatever the run does. -/
theorem property_nodes_exact (label : String) (self : NodeId) (catalog : Catalog) (settings : Settings) (drawn : Nat)
    (edits : List Edit) :
    let start := Editor.ofAsset (.ofName label self) catalog settings (drawn + 1)
    ((∀ earlier, earlier <+: edits → Intact (earlier.foldl Edit.apply start)) ↔
      Run (fun e edit => ¬Severs e edit) start edits) ∧
    ∀ owner g, (edits.foldl Edit.apply start).asset.graph? owner = some g → OneSetter g ∧
      ∀ n ∈ g.nodes, ∀ kind name, Asset.standsFor kind n name = true →
        (edits.foldl Edit.apply start).asset.isPropertyNodeOf kind n = true := by
  intro start
  have reached : Reached start := .start label self catalog settings drawn
  constructor
  · refine holds_throughout_iff Reached (fun e edit known _ => .step known trivial)
      (fun e edit known _ => intact_apply_iff (coherent_reachable known) (registered_reached known)) reached
      (run_any start edits) ?_
    refine (intact_iff (registered_reached reached)).mpr fun owner n inside => ?_
    rw [start_nodes] at inside
    cases inside
  · intro owner g held
    have registered := registered_reached (reached_run reached edits)
    refine ⟨graphOf_eq held ▸ registered.setters owner, fun n member kind name stands => ?_⟩
    have inside : n ∈ (graphOf (edits.foldl Edit.apply start).asset owner).nodes := by
      rw [graphOf_eq held]
      exact member
    exact isPropertyNodeOf_iff.mpr ⟨name, registered.known owner n inside kind name stands, stands⟩

/-- An input is placed in a state machine and joined to a state before it is removed. -/
def haunted : List Edit :=
  [.createNode "Animation" "State Machine", .enterNode ⟨2⟩, .addProperty .input (.int64 0), .spawnInput "New Input",
    .createNode "StateMachine" "State", .createTransition ⟨7⟩ ⟨5⟩, .removeProperty .input "New Input"]

/-- The editor after these edits. -/
def hauntedEditor : Editor := haunted.foldl Edit.apply (.ofAsset (.ofName "Wave" ⟨1⟩) .empty .default 1)

/-- The node of the input is still there, and the asset has no input. -/
theorem severed_outlives : ¬Intact hauntedEditor ∧ hauntedEditor.asset.inputs.keys = [] ∧
    (∃ g, hauntedEditor.asset.graph? ⟨2⟩ = some g ∧ OneSetter g ∧ ∃ n ∈ g.nodes, n.category = "Input") ∧
    ¬Run (fun e edit => ¬Severs e edit) (.ofAsset (.ofName "Wave" ⟨1⟩) .empty .default 1) haunted := by
  have stays : (∃ n ∈ (graphOf hauntedEditor.asset ⟨2⟩).nodes, n.category = "Input") ∧
      hauntedEditor.asset.inputs.keys = [] := by decide +kernel
  obtain ⟨⟨n, member, category⟩, none⟩ := stays
  obtain ⟨g, held⟩ : ∃ g, hauntedEditor.asset.graph? ⟨2⟩ = some g := Option.isSome_iff_exists.mp (by decide +kernel)
  rw [graphOf_eq held] at member
  obtain ⟨throughout, graphs⟩ := property_nodes_exact "Wave" ⟨1⟩ .empty .default 0 haunted
  have outlived : ¬Intact hauntedEditor := fun intact => by
    obtain ⟨name, known, -⟩ := isPropertyNodeOf_iff.mp (((intact ⟨2⟩ g held).1 n member).1 category)
    rw [show (hauntedEditor.asset.properties .input).keys = [] from none] at known
    cases known
  exact ⟨outlived, none, ⟨g, held, (graphs ⟨2⟩ g held).1, n, member, category⟩, fun run =>
    outlived (throughout.mpr run haunted (List.prefix_refl _))⟩

end PoseGraph.SeveredNodes
