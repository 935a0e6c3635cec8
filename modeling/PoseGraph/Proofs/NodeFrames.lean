import PoseGraph.Editor.States
import PoseGraph.Proofs.EditorCoherence

/-! What edits keep of a node beside its identity: its pins are bound to it and
typed for its place, and its name and category go together. Literals and layout
play no part in this; what is left of a node without them is its frame. -/
namespace PoseGraph.NodeFrames
open EditorCoherence GraphDependencies NodeCraft

variable {n m k : Node} {p : Pin} {pin : PinId} {next : Nat} {rename : String → String}
variable {kind : GraphKind} {category name old new : String} {template : Node}

/-! ## Nodes as they are made -/

/-- The pins of a node belong to it, each in the list of its direction. -/
structure Bound (n : Node) : Prop where
  inputs : ∀ p ∈ n.inputs, p.node = n.id ∧ p.kind = .input
  outputs : ∀ p ∈ n.outputs, p.node = n.id ∧ p.kind = .output

/-- A node at which a graph ends. -/
def Ends (n : Node) : Prop := n.name = "Output" ∨ n.name = "Event"

/-- Names that mean something are kept for the nodes that they are meant for. -/
structure Titled (n : Node) : Prop where
  entry : n.name = "Input" → n.category = PropertyKind.input.token
  action : n.name = "Input Action" → n.category = localVariableCategory
  ends : Ends n → ∀ kind : PropertyKind, n.category ≠ kind.token
  relay : n.category = localVariableCategory → n.pins ≠ []
  machine : n.kind = .stateMachine → n.isSubroutine = true ∨ n.category = localVariableCategory

/-- What holds of a node wherever it is. -/
structure Made (n : Node) : Prop where
  bound : Bound n
  titled : Titled n

/-- An output takes a pose first. -/
def Posed (n : Node) : Prop :=
  n.name = "Output" → ∃ p, n.inputs.head? = some p ∧ p.type = .pose ∧ p.storage = .value

/-- Nothing leaves a node at which a graph ends, and outputs take no triggers. -/
structure Sealed (n : Node) : Prop where
  outputs : Ends n → n.outputs = []
  inputs : n.name = "Output" → ∀ p ∈ n.inputs, p.isFlow = false

/-- The second node is what an edit makes of the first. Variables may have got
other names. -/
structure Grown (rename : String → String) (n m : Node) : Prop where
  id : m.id = n.id
  category : m.category = n.category
  made : Made n → Made m
  posed : Made n → Posed n → Posed m
  ends : Ends m → Ends n
  machine : IsMachine m → IsMachine n
  transition : n.kind = .transition → m.kind = .transition
  reads : ∀ name, m.variableName? = some name → ∃ before, n.variableName? = some before ∧ rename before = name
  sets : m.isSetter = true → n.isSetter = true

/-! ## Frames -/

/-- A pin apart from its literal. -/
def pinFrame (p : Pin) : Pin := { p with value := .void }

/-- A node apart from its literals and its layout. -/
def frame (n : Node) : Node :=
  { n with
    description := "", inputs := n.inputs.map pinFrame, outputs := n.outputs.map pinFrame, color := ⟨0, 0, 0⟩
    position := .zero, size := .zero, sortIndex := undefinedSortIndex, isEntry := false, offset := .zero
    lerpSecondsPerUnit := .zero }

/-- What two nodes with one frame have in common. -/
structure SameFrame (n m : Node) : Prop where
  id : m.id = n.id
  category : m.category = n.category
  name : m.name = n.name
  type : m.type = n.type
  inputs : m.inputs.map pinFrame = n.inputs.map pinFrame
  outputs : m.outputs.map pinFrame = n.outputs.map pinFrame

theorem sameFrame_of_frame (same : frame m = frame n) : SameFrame n m :=
  ⟨(congrArg Node.id same :), (congrArg Node.category same :), (congrArg Node.name same :),
    (congrArg Node.type same :), (congrArg Node.inputs same :), (congrArg Node.outputs same :)⟩

theorem sameFrame_trans (first : SameFrame n m) (second : SameFrame m k) : SameFrame n k :=
  ⟨second.id.trans first.id, second.category.trans first.category, second.name.trans first.name,
    second.type.trans first.type, second.inputs.trans first.inputs, second.outputs.trans first.outputs⟩

/-- Pins of lists with one frame correspond to each other. -/
theorem pin_counterpart {ps qs : List Pin} (same : qs.map pinFrame = ps.map pinFrame) (member : p ∈ qs) :
    ∃ q ∈ ps, pinFrame q = pinFrame p := by
  have inside : pinFrame p ∈ ps.map pinFrame := same ▸ List.mem_map_of_mem member
  exact List.mem_map.mp inside

section Same
variable (same : SameFrame n m)
include same

theorem sameFrame_kind : m.kind = n.kind := by
  rw [Node.kind, Node.kind, same.category, same.name]

theorem sameFrame_pins : m.pins.map pinFrame = n.pins.map pinFrame := by
  rw [Node.pins, Node.pins, List.map_append, List.map_append, same.inputs, same.outputs]

theorem sameFrame_isLocalVariable : m.isLocalVariable = n.isLocalVariable := by
  have lengths := congrArg List.length (sameFrame_pins same)
  rw [List.length_map, List.length_map] at lengths
  rw [Node.isLocalVariable, Node.isLocalVariable, same.category, lengths]

theorem sameFrame_variableName : m.variableName? = n.variableName? := by
  have heads := congrArg (fun ps => (List.head? ps).map Pin.name) (sameFrame_pins same)
  simp only [List.head?_map, Option.map_map] at heads
  rw [Node.variableName?, Node.variableName?, sameFrame_isLocalVariable same]
  split
  · exact heads
  · rfl

theorem sameFrame_isSetter : m.isSetter = n.isSetter := by
  have lengths := congrArg List.length same.inputs
  rw [List.length_map, List.length_map] at lengths
  rw [Node.isSetter, Node.isSetter, sameFrame_isLocalVariable same, lengths]

theorem sameFrame_bound (bound : Bound n) : Bound m := by
  constructor
  · intro p inside
    obtain ⟨q, member, frames⟩ := pin_counterpart same.inputs inside
    obtain ⟨node, kind⟩ := bound.inputs q member
    exact ⟨(congrArg Pin.node frames).symm.trans (node.trans same.id.symm), (congrArg Pin.kind frames).symm.trans kind⟩
  · intro p inside
    obtain ⟨q, member, frames⟩ := pin_counterpart same.outputs inside
    obtain ⟨node, kind⟩ := bound.outputs q member
    exact ⟨(congrArg Pin.node frames).symm.trans (node.trans same.id.symm), (congrArg Pin.kind frames).symm.trans kind⟩

theorem sameFrame_made (made : Made n) : Made m where
  bound := sameFrame_bound same made.bound
  titled := by
    refine ⟨?_, ?_, ?_, ?_, ?_⟩
    · rw [same.name, same.category]
      exact made.titled.entry
    · rw [same.name, same.category]
      exact made.titled.action
    · rw [Ends, same.name, same.category]
      exact made.titled.ends
    · rw [same.category]
      intro relayed none
      have pins := sameFrame_pins same
      rw [none, List.map_nil] at pins
      exact made.titled.relay relayed (List.map_eq_nil_iff.mp pins.symm)
    · rw [sameFrame_kind same, Node.isSubroutine, same.type, same.category]
      exact made.titled.machine

theorem sameFrame_posed (posed : Posed n) : Posed m := by
  intro output
  obtain ⟨p, first, pose, single⟩ := posed (same.name ▸ output)
  have heads := congrArg List.head? same.inputs
  rw [List.head?_map, List.head?_map, first, Option.map_some] at heads
  obtain ⟨q, also, frames⟩ := Option.map_eq_some_iff.mp heads
  exact ⟨q, also, (congrArg Pin.type frames).trans pose, (congrArg Pin.storage frames).trans single⟩

theorem sameFrame_sealed (closed : Sealed n) : Sealed m where
  outputs := by
    intro ends
    have outputs := same.outputs
    rw [closed.outputs (by rwa [Ends, ← same.name]), List.map_nil] at outputs
    exact List.map_eq_nil_iff.mp outputs
  inputs := by
    intro output p inside
    obtain ⟨q, member, frames⟩ := pin_counterpart same.inputs inside
    have plain := closed.inputs (same.name ▸ output) q member
    have types : q.type = p.type := (congrArg Pin.type frames :)
    rwa [Pin.isFlow, types] at plain

theorem sameFrame_grown : Grown id n m where
  id := same.id
  category := same.category
  made := sameFrame_made same
  posed := fun _ => sameFrame_posed same
  ends := by
    rw [Ends, Ends, same.name]
    exact fun ends => ends
  machine := by
    rw [IsMachine, IsMachine, Node.isSubroutine, Node.isSubroutine, same.type, sameFrame_kind same]
    exact fun machine => machine
  transition := fun transition => (sameFrame_kind same).trans transition
  reads := fun name reads => ⟨name, sameFrame_variableName same ▸ reads, rfl⟩
  sets := fun sets => sameFrame_isSetter same ▸ sets

end Same

/-! ## New nodes -/

/-- Pins that are bound to a node keep what they were made for. -/
theorem mem_bindFrom {self : NodeId} {direction : PinKind} {ps : List Pin}
    (member : p ∈ Pin.bindFrom self direction next ps) : p.node = self ∧ p.kind = direction ∧
      ∃ q ∈ ps, p.name = q.name ∧ p.type = q.type ∧ p.storage = q.storage ∧ p.value = q.value := by
  induction ps generalizing next with
  | nil => cases member
  | cons q qs ih =>
    rcases List.mem_cons.mp member with rfl | later
    · exact ⟨rfl, rfl, q, List.mem_cons_self, rfl, rfl, rfl, rfl⟩
    · obtain ⟨node, kind, r, inside, same⟩ := ih later
      exact ⟨node, kind, r, List.mem_cons_of_mem _ inside, same⟩

theorem bound_withFreshIds (n : Node) (next : Nat) : Bound (n.withFreshIds next).1 :=
  ⟨fun _ member => ⟨(mem_bindFrom member).1, (mem_bindFrom member).2.1⟩,
    fun _ member => ⟨(mem_bindFrom member).1, (mem_bindFrom member).2.1⟩⟩

theorem titled_withFreshIds (titled : Titled n) : Titled (n.withFreshIds next).1 where
  entry := titled.entry
  action := titled.action
  ends := titled.ends
  relay := by
    intro relayed none
    have lengths := congrArg List.length (withFreshIds_identities n next)
    rw [nodeIdentities, none] at lengths
    have empty : n.pins.length = 0 := by simpa using lengths.symm
    exact titled.relay relayed (List.eq_nil_of_length_eq_zero empty)
  machine := titled.machine

theorem made_withFreshIds (titled : Titled n) : Made (n.withFreshIds next).1 :=
  ⟨bound_withFreshIds n next, titled_withFreshIds titled⟩

theorem posed_withFreshIds (posed : Posed n) : Posed (n.withFreshIds next).1 := by
  intro output
  obtain ⟨p, first, pose, single⟩ := posed output
  obtain ⟨ps, shape⟩ := List.head?_eq_some_iff.mp first
  refine ⟨{ p with id := ⟨next + 1⟩, node := ⟨next⟩, kind := .input }, ?_, pose, single⟩
  change (Pin.bindFrom ⟨next⟩ .input (next + 1) n.inputs).head? = _
  rw [shape]
  rfl

theorem sealed_withFreshIds (closed : Sealed n) : Sealed (n.withFreshIds next).1 where
  outputs := by
    intro ends
    have none := closed.outputs ends
    change Pin.bindFrom ⟨next⟩ .output (next + 1 + n.inputs.length) n.outputs = []
    rw [none]
    rfl
  inputs := by
    intro output p inside
    obtain ⟨-, -, q, member, -, types, -⟩ := mem_bindFrom inside
    rw [Pin.isFlow, types]
    exact closed.inputs output q member

/-- What holds of a template in the palette of a kind of graphs, as far as its
name and pins go. -/
structure Shelved (kind : GraphKind) (category : String) (template : Node) : Prop where
  foreign : ∀ kind : PropertyKind, category ≠ kind.token
  entry : template.name ≠ "Input" ∧ template.name ≠ "Input Action"
  machine : ({ template with category } : Node).kind = .stateMachine → template.isSubroutine = true
  posed : kind = .transition ∨ Posed template
  closed : Sealed template
  ends : kind = .stateMachine → ¬Ends template
  player : template.name = "Animation Player" →
    ∀ p ∈ template.outputs, p.name = "Pose" → p.type = .pose ∧ p.storage = .value

instance (n : Node) : Decidable (Ends n) := inferInstanceAs (Decidable (_ ∨ _))

instance (n : Node) : Decidable (Posed n) :=
  decidable_of_iff (n.name = "Output" → (n.inputs.head?.any fun p => p.type == .pose && p.storage == .value) = true) <| by
    simp only [Posed, Option.any_eq_true, Bool.and_eq_true, beq_iff_eq]

instance (n : Node) : Decidable (Sealed n) :=
  decidable_of_iff ((Ends n → n.outputs.isEmpty = true) ∧ (n.name = "Output" → ∀ p ∈ n.inputs, p.isFlow = false)) <| by
    simp only [List.isEmpty_iff]
    exact ⟨fun both => ⟨both.1, both.2⟩, fun closed => ⟨closed.outputs, closed.inputs⟩⟩

instance (category : String) : Decidable (∀ kind : PropertyKind, category ≠ kind.token) :=
  decidable_of_iff (category ≠ PropertyKind.token .input ∧ category ≠ PropertyKind.token .output ∧
      category ≠ PropertyKind.token .localVariable)
    ⟨fun ⟨input, output, relay⟩ kind => by cases kind <;> assumption, fun all => ⟨all _, all _, all _⟩⟩

instance (kind : GraphKind) (category : String) (template : Node) : Decidable (Shelved kind category template) :=
  decidable_of_iff ((∀ kind : PropertyKind, category ≠ kind.token) ∧
      (template.name ≠ "Input" ∧ template.name ≠ "Input Action") ∧
      (({ template with category } : Node).kind = .stateMachine → template.isSubroutine = true) ∧
      (kind = .transition ∨ Posed template) ∧ Sealed template ∧ (kind = .stateMachine → ¬Ends template) ∧
      (template.name = "Animation Player" →
        ∀ p ∈ template.outputs, p.name = "Pose" → p.type = .pose ∧ p.storage = .value))
    ⟨fun ⟨foreign, entry, machine, posed, closed, ends, player⟩ =>
        ⟨foreign, entry, machine, posed, closed, ends, player⟩,
      fun ⟨foreign, entry, machine, posed, closed, ends, player⟩ =>
        ⟨foreign, entry, machine, posed, closed, ends, player⟩⟩

/-- All templates are made for their place. -/
theorem palettes_shelved (kind : GraphKind) : ∀ shelf ∈ (Palette.ofKind kind).registry.entries,
    ∀ entry ∈ shelf.2.entries, Shelved kind shelf.1 entry.2 := by
  cases kind <;> decide +kernel

theorem template_shelved (found : (Palette.ofKind kind).template? category name = some template) :
    Shelved kind category template := by
  obtain ⟨shelf, held, entry⟩ := Option.bind_eq_some_iff.mp found
  exact palettes_shelved kind (category, shelf) (AssetOrder.get_eq_some_iff.mp held) (name, template)
    (AssetOrder.get_eq_some_iff.mp entry)

/-- A node of a category that names no property. -/
theorem titled_shelved (shelved : Shelved kind category template) : Titled { template with category } where
  entry := fun entry => absurd entry shelved.entry.1
  action := fun action => absurd action shelved.entry.2
  ends := fun _ => shelved.foreign
  relay := fun relayed => absurd relayed (shelved.foreign .localVariable)
  machine := fun machine => .inl (shelved.machine machine)

/-- What holds of a node that has been placed from the palette of a kind of graphs. -/
structure Shaped (kind : GraphKind) (n : Node) : Prop where
  made : Made n
  foreign : ∀ kind : PropertyKind, n.category ≠ kind.token
  posed : kind = .transition ∨ Posed n
  closed : Sealed n
  ends : kind = .stateMachine → ¬Ends n
  player : n.name = "Animation Player" → ∀ p ∈ n.outputs, p.name = "Pose" → p.type = .pose ∧ p.storage = .value

theorem spawn_shaped {e f : Editor} (spawned : e.spawn (.ofKind kind) category name = some (n, f)) :
    Shaped kind n ∧ e.nextId ≤ n.id.value := by
  obtain ⟨template, found, rfl, -⟩ := EditOutcomes.template_of_spawn spawned
  have shelved := template_shelved found
  refine ⟨⟨made_withFreshIds (titled_shelved shelved), shelved.foreign, shelved.posed.imp_right ?_, ?_,
    shelved.ends, ?_⟩, Nat.le_add_right _ _⟩
  · exact fun posed => posed_withFreshIds (n := { template with category }) posed
  · exact sealed_withFreshIds ⟨shelved.closed.outputs, shelved.closed.inputs⟩
  · intro player p inside pose
    obtain ⟨-, -, q, member, names, types, storages, -⟩ := mem_bindFrom inside
    rw [types, storages]
    exact shelved.player player q member (names.symm.trans pose)

/-! ## Edits of one node -/

theorem variable_category (reads : n.variableName? = some name) : n.category = localVariableCategory := by
  have isVariable := (variableName_eq_some.mp reads).1
  rw [Node.isLocalVariable, Bool.and_eq_true, beq_iff_eq] at isVariable
  exact isVariable.1

theorem setter_category (sets : n.isSetter = true) : n.category = localVariableCategory := by
  rw [Node.isSetter, Bool.and_eq_true] at sets
  have isVariable := sets.1
  rw [Node.isLocalVariable, Bool.and_eq_true, beq_iff_eq] at isVariable
  exact isVariable.1

/-- A node of a local variable to which pins are attached is none any more. -/
theorem attached_plain {ins outs : List Pin} (place : Point) (made : Made n) (some_ : ins ++ outs ≠ []) :
    ({ n with inputs := n.inputs ++ ins, outputs := n.outputs ++ outs, position := place } : Node).isLocalVariable = false := by
  by_contra isVariable
  simp only [Node.isLocalVariable, Node.pins, Bool.not_eq_false, Bool.and_eq_true, beq_iff_eq, List.length_append] at isVariable
  have before := made.titled.relay isVariable.1
  rw [← List.length_pos_iff, Node.pins, List.length_append] at before
  rw [← List.length_pos_iff, List.length_append] at some_
  omega

/-- Attaching pins to a node. -/
theorem grown_attached {ins outs : List Pin} {place : Point} (made : Made n)
    (some_ : ins ++ outs ≠ []) (inputs : ∀ p ∈ ins, p.node = n.id ∧ p.kind = .input)
    (outputs : ∀ p ∈ outs, p.node = n.id ∧ p.kind = .output) :
    Grown id n { n with inputs := n.inputs ++ ins, outputs := n.outputs ++ outs, position := place } := by
  have plain := attached_plain place made some_
  refine ⟨rfl, rfl, fun _ => ⟨⟨?_, ?_⟩, ?_⟩, fun _ posed output => ?_, fun ends => ends, fun machine => machine,
    fun transition => transition, fun name reads => ?_, fun sets => ?_⟩
  · exact fun p inside => (List.mem_append.mp inside).elim (made.bound.inputs p) (inputs p)
  · exact fun p inside => (List.mem_append.mp inside).elim (made.bound.outputs p) (outputs p)
  · refine ⟨made.titled.entry, made.titled.action, made.titled.ends, fun relayed none => ?_, made.titled.machine⟩
    refine made.titled.relay relayed ?_
    simp only [Node.pins, List.append_eq_nil_iff] at none ⊢
    exact ⟨none.1.1, none.2.1⟩
  · obtain ⟨p, first, typed⟩ := posed output
    exact ⟨p, by rw [List.head?_append, first, Option.some_or], typed⟩
  · rw [(variableName_eq_some.mp reads).1] at plain
    cases plain
  · rw [Node.isSetter, plain] at sets
    cases sets

/-- A state takes the place of a quick state. -/
theorem grown_stateFromQuick {state quick : Node} (made : Made state) (quickMade : Made quick)
    (kind : quick.category = stateMachineCategory ∧ quick.name = "Quick State")
    (shape : state.category = stateMachineCategory ∧ state.name = "State") :
    Grown id quick (Editor.stateFromQuick state quick) ∧ Sealed (Editor.stateFromQuick state quick) := by
  have category : (Editor.stateFromQuick state quick).category = stateMachineCategory := shape.1
  have named : (Editor.stateFromQuick state quick).name = "State" := shape.2
  have kinds : (Editor.stateFromQuick state quick).kind = .state := by
    rw [Node.kind, if_pos ⟨category, named⟩]
  have foreign : stateMachineCategory ≠ localVariableCategory := by decide
  have plain : ¬Ends (Editor.stateFromQuick state quick) := by
    rw [Ends, named]
    decide
  refine ⟨⟨rfl, category.trans kind.1.symm, fun _ => ⟨⟨?_, ?_⟩, ?_⟩, fun _ _ output => ?_, fun ends => absurd ends plain,
    fun machine => ?_, fun transition => ?_, fun name reads => ?_, fun sets => ?_⟩,
    fun ends => absurd ends plain, fun output => absurd (.inl output) plain⟩
  · intro p inside
    obtain ⟨q, member, rfl⟩ := List.mem_map.mp inside
    exact ⟨rfl, (quickMade.bound.inputs q (List.mem_filter.mp member).1).2⟩
  · intro p inside
    obtain ⟨q, member, rfl⟩ := List.mem_map.mp inside
    exact ⟨rfl, (quickMade.bound.outputs q (List.mem_filter.mp member).1).2⟩
  · refine ⟨made.titled.entry, made.titled.action, made.titled.ends, fun relayed => ?_, made.titled.machine⟩
    exact absurd (category.symm.trans relayed) foreign
  · exact absurd (Or.inl output) plain
  · have other := machine.2
    rw [kinds] at other
    cases other
  · have other := (transition_iff.mp transition).2
    rw [kind.2] at other
    exact absurd other (by decide)
  · exact absurd (category.symm.trans (variable_category reads)) foreign
  · exact absurd (category.symm.trans (setter_category sets)) foreign

/-- Nodes of properties are no ends of graphs. -/
theorem property_not_end {property : PropertyKind} (made : Made n) (category : n.category = property.token) :
    ¬Ends n := fun ends => made.titled.ends ends property category

section Pins
variable {f : Pin → Pin}

theorem pins_mapPins (f : Pin → Pin) (n : Node) : (n.mapPins f).pins = n.pins.map f := by
  rw [Node.pins, Node.pins, List.map_append]
  rfl

theorem isLocalVariable_mapPins (f : Pin → Pin) (n : Node) : (n.mapPins f).isLocalVariable = n.isLocalVariable := by
  rw [Node.isLocalVariable, Node.isLocalVariable, pins_mapPins, List.length_map]
  rfl

theorem isSetter_mapPins (f : Pin → Pin) (n : Node) : (n.mapPins f).isSetter = n.isSetter := by
  rw [Node.isSetter, Node.isSetter, isLocalVariable_mapPins]
  congr 2
  exact List.length_map _

theorem bound_mapPins (keeps : ∀ p, (f p).node = p.node ∧ (f p).kind = p.kind) (bound : Bound n) :
    Bound (n.mapPins f) := by
  constructor
  · intro p inside
    obtain ⟨q, member, rfl⟩ := List.mem_map.mp inside
    exact ⟨(keeps q).1.trans (bound.inputs q member).1, (keeps q).2.trans (bound.inputs q member).2⟩
  · intro p inside
    obtain ⟨q, member, rfl⟩ := List.mem_map.mp inside
    exact ⟨(keeps q).1.trans (bound.outputs q member).1, (keeps q).2.trans (bound.outputs q member).2⟩

end Pins

/-- Giving the pins of a property's node another type. -/
theorem grown_retag {property : PropertyKind} {v : Value} (made : Made n) (category : n.category = property.token) :
    Grown id n { n.mapPins (fun p => if p.name = name then p.retag v else p) with color := (PinType.ofValue v).color } ∧
      Sealed { n.mapPins (fun p => if p.name = name then p.retag v else p) with color := (PinType.ofValue v).color } := by
  have plain := property_not_end made category
  have keeps (p : Pin) : (if p.name = name then p.retag v else p).node = p.node ∧
      (if p.name = name then p.retag v else p).kind = p.kind := by
    split <;> exact ⟨rfl, rfl⟩
  have names (p : Pin) : (if p.name = name then p.retag v else p).name = p.name := by
    split <;> rfl
  have bound := bound_mapPins keeps made.bound
  refine ⟨⟨rfl, rfl, fun _ => ⟨⟨bound.inputs, bound.outputs⟩, ?_⟩, fun _ _ output => absurd (.inl output) plain,
    fun ends => ends, fun machine => machine, fun transition => transition, fun name reads => ⟨name, ?_, rfl⟩,
    fun sets => (isSetter_mapPins _ n).symm.trans sets⟩,
    fun ends => absurd ends plain, fun output => absurd (.inl output) plain⟩
  · refine ⟨made.titled.entry, made.titled.action, made.titled.ends, fun relayed none => ?_, made.titled.machine⟩
    exact made.titled.relay relayed (List.map_eq_nil_iff.mp ((pins_mapPins _ n).symm.trans none))
  · obtain ⟨isVariable, heads⟩ := variableName_eq_some.mp reads
    refine variableName_eq_some.mpr ⟨(isLocalVariable_mapPins _ n).symm.trans isVariable, ?_⟩
    change ((n.mapPins _).pins.head?.map Pin.name) = _ at heads
    rw [pins_mapPins, List.head?_map, Option.map_map] at heads
    rw [← heads]
    congr 1
    funext p
    exact (names p).symm

/-- A node of a property after the property has been renamed. -/
def renamed (kind : PropertyKind) (old new : String) (n : Node) : Node :=
  let n := n.mapPins fun p => if p.name = old then { p with name := new } else p
  if kind = .localVariable then { n with name := new, description := new } else n

/-- The name of a local variable after a property has been renamed. -/
def renamedVariable (kind : PropertyKind) (old new name : String) : String :=
  if kind = .localVariable ∧ name = old then new else name

/-- Renaming the nodes of a property. -/
theorem grown_renamed {kind : PropertyKind} (made : Made n) (crafted : Crafted n)
    (stands : Asset.standsFor kind n old = true)
    (free : kind = .localVariable → new ≠ "Input" ∧ new ≠ "Output" ∧ new ≠ "Event") :
    Grown (renamedVariable kind old new) n (renamed kind old new n) ∧ Sealed (renamed kind old new n) := by
  rw [Asset.standsFor, Bool.and_eq_true, beq_iff_eq] at stands
  obtain ⟨category, names⟩ := stands
  have plain := property_not_end made category
  have keeps (p : Pin) : (if p.name = old then { p with name := new } else p).node = p.node ∧
      (if p.name = old then { p with name := new } else p).kind = p.kind := by
    split <;> exact ⟨rfl, rfl⟩
  have bound := bound_mapPins keeps made.bound
  have some_ (relayed : n.category = localVariableCategory) :
      (n.mapPins fun p => if p.name = old then { p with name := new } else p).pins ≠ [] := by
    rw [pins_mapPins]
    exact mt List.map_eq_nil_iff.mp (made.titled.relay relayed)
  by_cases relayed : kind = .localVariable
  · subst relayed
    obtain ⟨notInput, notOutput, notEvent⟩ := free rfl
    have ordinary : n.isSubroutine ≠ true := fun owns => crafted.ordinary (.inr owns) category
    have title : ¬Ends (renamed .localVariable old new n) := not_or.mpr ⟨notOutput, notEvent⟩
    have foreign : localVariableCategory ≠ stateMachineCategory := by decide
    refine ⟨⟨rfl, rfl, fun _ => ⟨⟨bound.inputs, bound.outputs⟩, ?_⟩, fun _ _ output => absurd (.inl output) title,
      fun ends => absurd ends title, fun machine => absurd machine.1 ordinary, fun transition => ?_,
      fun name reads => ?_, fun sets => (isSetter_mapPins _ n).symm.trans sets⟩,
      fun ends => absurd ends title, fun output => absurd (.inl output) title⟩
    · exact ⟨fun input => absurd input notInput, fun _ => category, fun ends => absurd ends title, some_,
        fun _ => .inr category⟩
    · exact absurd (category.symm.trans (transition_iff.mp transition).1) foreign
    · rw [Asset.propertyPin?] at names
      split at names
      · rename_i isVariable
        obtain ⟨p, shape, named⟩ := variable_shape isVariable
        have same : p.name = old := by simpa [shape] using names
        have heads := (variableName_eq_some.mp reads).2
        change ((n.mapPins _).pins.head?.map Pin.name) = _ at heads
        rw [pins_mapPins, shape, List.map_singleton, List.head?_singleton, if_pos same] at heads
        refine ⟨p.name, named, ?_⟩
        rw [renamedVariable, if_pos ⟨rfl, same⟩]
        exact Option.some.inj heads
      · cases names
  · have shape : renamed kind old new n = n.mapPins fun p => if p.name = old then { p with name := new } else p :=
      if_neg relayed
    have ordinary : n.category ≠ localVariableCategory := by
      rw [category]
      cases kind with
      | input => decide
      | output => decide
      | localVariable => exact absurd rfl relayed
    rw [shape]
    refine ⟨⟨rfl, rfl, fun _ => ⟨bound, ?_⟩, fun _ _ output => absurd (.inl output) plain, fun ends => ends,
      fun machine => machine, fun transition => transition, fun name reads => absurd (variable_category reads) ordinary,
      fun sets => (isSetter_mapPins _ n).symm.trans sets⟩,
      fun ends => absurd ends plain, fun output => absurd (.inl output) plain⟩
    exact ⟨made.titled.entry, made.titled.action, made.titled.ends, some_, made.titled.machine⟩

end PoseGraph.NodeFrames
