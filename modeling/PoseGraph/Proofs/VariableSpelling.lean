import PoseGraph.Proofs.StandingNodes

/-! A graph in which a local variable has got another name. Its nodes bear the new name, and
so do the pins by which they stand for the variable; nothing else is different, and look-ups
lead to the same places. -/
namespace PoseGraph.VariableSpelling
open GraphDependencies IndexRanks NodeFrames PropertyNodes

variable {g : SubGraph} {n : Node} {p q : Pin} {pin : PinId} {old new name word : String}

/-- The name of a variable once the old name has been replaced. -/
def spelling (old new name : String) : String := if name = old then new else name

/-- A node once the variable has got another name. -/
def respelled (old new : String) : Node → Node := forProperty .localVariable old (renamed .localVariable old new)

/-- A pin of a node once the variable has got another name. -/
def respelledPin (old new : String) (n : Node) (p : Pin) : Pin :=
  if n.variableName? = some old ∧ p.name = old then { p with name := new } else p

/-- A graph once the variable has got another name. -/
def respell (old new : String) (g : SubGraph) : SubGraph := ⟨g.nodes.map (respelled old new), g.links⟩

/-- No node stands for a variable of the new name yet, and those of the old one bear it. -/
structure Spelled (old new : String) (g : SubGraph) : Prop where
  free : ∀ n ∈ g.nodes, n.variableName? ≠ some new
  named : ∀ n ∈ g.nodes, n.variableName? = some old → n.name = old

theorem spelling_inj {x y : String} (freeX : x ≠ new) (freeY : y ≠ new)
    (same : spelling old new x = spelling old new y) : x = y := by
  simp only [spelling] at same
  split at same <;> split at same <;> simp_all

/-! ## Nodes -/

theorem respelled_other (other : n.variableName? ≠ some old) : respelled old new n = n :=
  if_neg (mt stands_variable.mp other)

theorem respelled_own (own : n.variableName? = some old) : respelled old new n =
    { n.mapPins (fun p => if p.name = old then { p with name := new } else p) with name := new, description := new } :=
  if_pos (stands_variable.mpr own)

theorem respelled_plain (plain : n.isLocalVariable = false) : respelled old new n = n :=
  respelled_other (by simp [Node.variableName?, plain])

theorem respelledPin_other (other : n.variableName? ≠ some old) : respelledPin old new n = id := by
  funext p
  simp [respelledPin, other]

theorem respelledPin_plain (plain : n.isLocalVariable = false) : respelledPin old new n p = p := by
  simp [respelledPin, Node.variableName?, plain]

section Fields
variable (n : Node)

@[simp] theorem respelled_id : (respelled old new n).id = n.id := by
  rw [respelled, forProperty]
  split <;> rfl

@[simp] theorem respelled_category : (respelled old new n).category = n.category := by
  rw [respelled, forProperty]
  split <;> rfl

@[simp] theorem respelled_type : (respelled old new n).type = n.type := by
  rw [respelled, forProperty]
  split <;> rfl

@[simp] theorem respelled_sortIndex : (respelled old new n).sortIndex = n.sortIndex := by
  rw [respelled, forProperty]
  split <;> rfl

@[simp] theorem respelled_isEntry : (respelled old new n).isEntry = n.isEntry := by
  rw [respelled, forProperty]
  split <;> rfl

@[simp] theorem respelled_offset : (respelled old new n).offset = n.offset := by
  rw [respelled, forProperty]
  split <;> rfl

theorem respelled_withIndex (place : Int) :
    respelled old new { n with sortIndex := place } = { respelled old new n with sortIndex := place } := by
  rw [respelled, forProperty, forProperty]
  change (if Asset.standsFor .localVariable n old = true then _ else _) = _
  split <;> rfl

@[simp] theorem respelled_isSorted : (respelled old new n).isSorted = n.isSorted := by
  rw [Node.isSorted, Node.isSorted, respelled_sortIndex]

@[simp] theorem respelled_isComment : (respelled old new n).isComment = n.isComment := by
  rw [Node.isComment, Node.isComment, respelled_type]

@[simp] theorem respelled_isSubroutine : (respelled old new n).isSubroutine = n.isSubroutine := by
  rw [Node.isSubroutine, Node.isSubroutine, respelled_type]

theorem respelled_inputs : (respelled old new n).inputs = n.inputs.map (respelledPin old new n) := by
  by_cases own : n.variableName? = some old
  · rw [respelled_own own]
    refine List.map_congr_left fun p _ => ?_
    simp [respelledPin, own]
  · rw [respelled_other own, respelledPin_other own, List.map_id]

theorem respelled_outputs : (respelled old new n).outputs = n.outputs.map (respelledPin old new n) := by
  by_cases own : n.variableName? = some old
  · rw [respelled_own own]
    refine List.map_congr_left fun p _ => ?_
    simp [respelledPin, own]
  · rw [respelled_other own, respelledPin_other own, List.map_id]

theorem respelled_pins : (respelled old new n).pins = n.pins.map (respelledPin old new n) := by
  rw [Node.pins, Node.pins, respelled_inputs, respelled_outputs, List.map_append]

@[simp] theorem respelled_isLocalVariable : (respelled old new n).isLocalVariable = n.isLocalVariable := by
  rw [Node.isLocalVariable, Node.isLocalVariable, respelled_category, respelled_pins, List.length_map]

@[simp] theorem respelled_isSetter : (respelled old new n).isSetter = n.isSetter := by
  rw [Node.isSetter, Node.isSetter, respelled_isLocalVariable, respelled_inputs, List.length_map]

theorem respelled_variableName : (respelled old new n).variableName? = n.variableName?.map (spelling old new) := by
  by_cases isVariable : n.isLocalVariable = true
  · obtain ⟨p, pins, named⟩ := variable_shape isVariable
    rw [Node.variableName?, respelled_isLocalVariable, if_pos isVariable, respelled_pins, pins, named]
    by_cases own : p.name = old <;> simp [respelledPin, spelling, named, own]
  · rw [respelled_plain (by simpa using isVariable)]
    simp [Node.variableName?, isVariable]

end Fields

@[simp] theorem respelledPin_id : (respelledPin old new n p).id = p.id := by
  rw [respelledPin]
  split <;> rfl

@[simp] theorem respelledPin_type : (respelledPin old new n p).type = p.type := by
  rw [respelledPin]
  split <;> rfl

@[simp] theorem respelledPin_storage : (respelledPin old new n p).storage = p.storage := by
  rw [respelledPin]
  split <;> rfl

@[simp] theorem respelledPin_value : (respelledPin old new n p).value = p.value := by
  rw [respelledPin]
  split <;> rfl

@[simp] theorem respelledPin_isFlow : (respelledPin old new n p).isFlow = p.isFlow := by
  rw [Pin.isFlow, Pin.isFlow, respelledPin_type]

@[simp] theorem respelledPin_hasLiteral : (respelledPin old new n p).hasLiteral = p.hasLiteral := by
  rw [Pin.hasLiteral, Pin.hasLiteral, respelledPin_value, respelledPin_isFlow]

theorem respelled_hasPin (n : Node) (pin : PinId) : (respelled old new n).hasPin pin = n.hasPin pin := by
  rw [Node.hasPin, Node.hasPin, respelled_pins, List.any_map]
  congr 1
  funext p
  simp

theorem respelled_pin (n : Node) (pin : PinId) :
    (respelled old new n).pin? pin = (n.pin? pin).map (respelledPin old new n) := by
  rw [Node.pin?, Node.pin?, respelled_pins, List.find?_map]
  congr 2
  funext p
  simp

/-- What means something in its own right is the name of a node before if it is afterwards. -/
theorem respelled_name_iff (spelled : Spelled old new g) (member : n ∈ g.nodes) (notOld : word ≠ old)
    (notNew : word ≠ new) :
    (respelled old new n).name = word ↔ n.name = word := by
  by_cases own : n.variableName? = some old
  · rw [respelled_own own, spelled.named n member own]
    exact iff_of_false notNew.symm notOld.symm
  · rw [respelled_other own]

/-! ## Look-ups -/

@[simp] theorem respell_links : (respell old new g).links = g.links := rfl

@[simp] theorem respell_length : (respell old new g).nodes.length = g.nodes.length := List.length_map _

@[simp] theorem respell_isLinked : (respell old new g).isLinked pin = g.isLinked pin := rfl

theorem respell_nodeOfPin : (respell old new g).nodeOfPin? pin = (g.nodeOfPin? pin).map (respelled old new) := by
  rw [SubGraph.nodeOfPin?, SubGraph.nodeOfPin?, respell, List.find?_map]
  congr 2
  funext n
  exact respelled_hasPin n pin

/-- A pin of the graph once the variable has got another name. -/
def pinIn (old new : String) (g : SubGraph) (p : Pin) : Pin :=
  match g.nodeOfPin? p.id with
  | some n => respelledPin old new n p
  | none => p

theorem pinIn_eq (found : g.nodeOfPin? p.id = some n) : pinIn old new g p = respelledPin old new n p := by
  rw [pinIn, found]

@[simp] theorem pinIn_id : (pinIn old new g p).id = p.id := by
  rw [pinIn]
  split
  · exact respelledPin_id
  · rfl

@[simp] theorem pinIn_type : (pinIn old new g p).type = p.type := by
  rw [pinIn]
  split
  · exact respelledPin_type
  · rfl

theorem pin_id (found : g.pin? pin = some p) : p.id = pin := by
  obtain ⟨n, -, held⟩ := List.exists_of_findSome?_eq_some found
  simpa using List.find?_some held

theorem respell_pin : (respell old new g).pin? pin = (g.pin? pin).map (pinIn old new g) := by
  rw [pin_nodeOfPin, respell_nodeOfPin]
  cases owner : g.nodeOfPin? pin with
  | none => simp [pin_nodeOfPin, owner]
  | some n =>
    cases held : n.pin? pin with
    | none => simp [pin_nodeOfPin, owner, held, respelled_pin]
    | some p =>
      have found : g.pin? pin = some p := by rw [pin_nodeOfPin, owner, Option.bind_some, held]
      have same := pin_id found
      subst same
      simp [found, pinIn_eq owner, respelled_pin, held]

theorem respell_neighbour : ((respell old new g).neighbour? pin).isNone = (g.neighbour? pin).isNone := by
  change ((g.linkAt? pin).bind fun l => (respell old new g).nodeOfPin? _).isNone = _
  rw [SubGraph.neighbour?]
  cases g.linkAt? pin with
  | none => rfl
  | some l => rw [Option.bind_some, Option.bind_some, respell_nodeOfPin, Option.isNone_map]

/-- Nodes of a variable, by any test that does not ask for names. -/
theorem respell_named (spelled : Spelled old new g) (free : name ≠ new) {t : Node → Bool}
    (blind : ∀ n, t (respelled old new n) = t n) :
    ((respell old new g).nodes.filter fun n => t n && n.variableName? == some (spelling old new name)) =
      (g.nodes.filter fun n => t n && n.variableName? == some name).map (respelled old new) := by
  rw [respell, List.filter_map]
  congr 1
  refine List.filter_congr fun n member => ?_
  rw [Function.comp_apply, blind, respelled_variableName]
  cases named : n.variableName? with
  | none => rfl
  | some key =>
    have same : spelling old new key = spelling old new name ↔ key = name :=
      ⟨spelling_inj (fun taken => spelled.free n member (taken ▸ named)) free, congrArg _⟩
    congr 1
    rw [Bool.eq_iff_iff]
    simpa using same

theorem respell_setter (spelled : Spelled old new g) (free : name ≠ new) :
    (respell old new g).setter? (spelling old new name) = (g.setter? name).map (respelled old new) := by
  rw [SubGraph.setter?, SubGraph.setter?, ← List.head?_filter, ← List.head?_filter,
    respell_named spelled free respelled_isSetter, List.head?_map]

theorem respell_source (spelled : Spelled old new g) (free : name ≠ new) :
    (respell old new g).source? (spelling old new name) = (g.source? name).map (pinIn old new g) := by
  have producer (pin : PinId) : (respell old new g).producer? pin = (g.producer? pin).map (pinIn old new g) := by
    change ((g.links.find? (·.target == pin)).bind fun l => (respell old new g).pin? l.source) = _
    rw [SubGraph.producer?]
    cases g.links.find? (·.target == pin) with
    | none => rfl
    | some l => exact respell_pin
  rw [SubGraph.source?, SubGraph.source?, respell_setter spelled free]
  cases g.setter? name with
  | none => rfl
  | some n =>
    rw [Option.map_some, Option.bind_some, Option.bind_some, respelled_inputs, List.head?_map]
    cases n.inputs.head? with
    | none => rfl
    | some p => simpa using producer p.id

theorem respell_resolveWithin (spelled : Spelled old new g) (hops : Nat) (member : n ∈ g.nodes)
    (plain : n.isLocalVariable = false → q = p) :
    (respell old new g).resolveWithin hops (respelled old new n) q = g.resolveWithin hops n p := by
  induction hops generalizing n p q with
  | zero =>
    rw [SubGraph.resolveWithin, SubGraph.resolveWithin, respelled_isLocalVariable]
    cases isVariable : n.isLocalVariable with
    | true => rfl
    | false => rw [if_neg Bool.false_ne_true, if_neg Bool.false_ne_true, respelled_plain isVariable, plain isVariable]
  | succ hops ih =>
    rw [SubGraph.resolveWithin, SubGraph.resolveWithin, respelled_isLocalVariable]
    cases isVariable : n.isLocalVariable with
    | false => rw [if_neg Bool.false_ne_true, if_neg Bool.false_ne_true, respelled_plain isVariable, plain isVariable]
    | true =>
      obtain ⟨own, -, named⟩ := variable_shape isVariable
      have free : own.name ≠ new := fun taken => spelled.free n member (taken ▸ named)
      simp only [if_true, respelled_variableName, named, Option.map_some, Option.bind_some, respell_source spelled free]
      cases g.source? own.name with
      | none => rfl
      | some s =>
        simp only [Option.map_some, Option.bind_some, pinIn_id, respell_nodeOfPin]
        cases found : g.nodeOfPin? s.id with
        | none => rfl
        | some m =>
          simp only [Option.map_some, Option.bind_some]
          refine ih (List.mem_of_find?_eq_some found) fun other => ?_
          rw [pinIn_eq found, respelledPin_plain other]

/-- Variables lead back to the same pins. -/
theorem respell_resolve (spelled : Spelled old new g) (member : n ∈ g.nodes)
    (plain : n.isLocalVariable = false → q = p) :
    (respell old new g).resolve (respelled old new n) q = g.resolve n p := by
  rw [SubGraph.resolve, SubGraph.resolve, respell_length]
  exact respell_resolveWithin spelled _ member plain

/-! ## Evaluation order -/

theorem respell_edges : (respell old new g).edges = g.edges := by
  have owner (pin : PinId) : (respell old new g).lastNodeOfPin? pin = g.lastNodeOfPin? pin := by
    rw [SubGraph.lastNodeOfPin?, SubGraph.lastNodeOfPin?, respell, ← List.map_reverse, List.find?_map, Option.map_map]
    have holds : (fun n => Node.hasPin n pin) ∘ respelled old new = fun n => n.hasPin pin :=
      funext fun n => respelled_hasPin n pin
    have ids : Node.id ∘ respelled old new = Node.id := funext respelled_id
    rw [holds, ids]
  rw [SubGraph.edges, SubGraph.edges, respell_links]
  simp only [owner]

theorem respell_feedersOf (edges : List Edge) (id : NodeId) :
    (respell old new g).feedersOf edges id = g.feedersOf edges id := by
  have found : (respell old new g).nodes.reverse.find? (·.id == id) =
      (g.nodes.reverse.find? (·.id == id)).map (respelled old new) := by
    rw [respell, ← List.map_reverse, List.find?_map]
    congr 2
    funext n
    simp
  rw [SubGraph.feedersOf, SubGraph.feedersOf, found]
  cases g.nodes.reverse.find? (·.id == id) with
  | none => rfl
  | some n =>
    rw [Option.map_some]
    simp only [respelled_inputs, List.flatMap_map, respelledPin_id]

theorem respell_variableOf (id : NodeId) :
    (respell old new g).variableOf? id = (g.variableOf? id).map (spelling old new) := by
  rw [SubGraph.variableOf?, SubGraph.variableOf?, respell, ← List.map_reverse, List.findSome?_map, List.map_findSome?]
  congr 1
  funext n
  simp only [Function.comp_apply, respelled_id, respelled_variableName]
  split <;> rfl

/-- The walk asks nothing about names. -/
theorem respell_dependencies (spelled : Spelled old new g) : (respell old new g).dependencies = g.dependencies := by
  have ids : Node.id ∘ respelled old new = Node.id := funext respelled_id
  have free {id : NodeId} {name : String} (named : g.variableOf? id = some name) : name ≠ new := by
    obtain ⟨n, member, reads⟩ := List.exists_of_findSome?_eq_some named
    rintro rfl
    split at reads
    · exact spelled.free n (List.mem_reverse.mp member) reads
    · cases reads
  have nodes {name : String} (untaken : name ≠ new) :
      (respell old new g).variableNodes (spelling old new name) = g.variableNodes name := by
    have same := respell_named spelled untaken (t := fun _ => true) fun _ => rfl
    simp only [Bool.true_and] at same
    rw [SubGraph.variableNodes, SubGraph.variableNodes, same, List.map_map, ids]
  have setter {name : String} (untaken : name ≠ new) :
      (respell old new g).leastSetter? (spelling old new name) = g.leastSetter? name := by
    rw [SubGraph.leastSetter?, SubGraph.leastSetter?, respell_named spelled untaken respelled_isSetter, List.map_map,
      ids]
  simp only [SubGraph.dependencies, respell_edges, respell_variableOf, Dependencies.mk.injEq]
  refine ⟨funext fun id => ?_, funext fun id => ?_, trivial, funext fun id => ?_⟩
  · cases named : g.variableOf? id with
    | none => rfl
    | some name => exact nodes (free named)
  · cases named : g.variableOf? id with
    | none => exact respell_feedersOf _ id
    | some name =>
      have feeders : (respell old new g).feedersOf g.edges = g.feedersOf g.edges := funext (respell_feedersOf g.edges)
      simp only [Option.map_some, setter (free named), feeders]
  · cases named : g.variableOf? id with
    | none => rfl
    | some name => simp only [Option.map_some, setter (free named)]

theorem respell_walk (spelled : Spelled old new g) (output : "Output" ≠ old ∧ "Output" ≠ new)
    (event : "Event" ≠ old ∧ "Event" ≠ new) : (respell old new g).walk = g.walk := by
  have sinks : (respell old new g).sinks = g.sinks := by
    rw [SubGraph.sinks, SubGraph.sinks, respell, List.filter_map, List.map_map]
    congr 1
    have ids : Node.id ∘ respelled old new = Node.id := funext respelled_id
    rw [ids]
    congr 1
    refine List.filter_congr fun n member => ?_
    rw [Function.comp_apply, respelled_isComment]
    congr 1
    rw [Bool.eq_iff_iff]
    simp [respelled_name_iff spelled member output.1 output.2, respelled_name_iff spelled member event.1 event.2]
  rw [SubGraph.walk, SubGraph.walk, sinks, respell_dependencies spelled, respell_length]

theorem respell_inEvaluationOrder (spelled : Spelled old new g) (output : "Output" ≠ old ∧ "Output" ≠ new)
    (event : "Event" ≠ old ∧ "Event" ≠ new) :
    (respell old new g).inEvaluationOrder = respell old new g.inEvaluationOrder := by
  have nodes : SubGraph.applyIndices g.walk.index? (g.nodes.map (respelled old new)) = _ :=
    applyIndices_map respelled_id respelled_withIndex g.walk.index? g.nodes
  have positions (nodes : List Node) :
      SubGraph.lastPosition? (nodes.map (respelled old new)) = SubGraph.lastPosition? nodes :=
    funext (lastPosition_map respelled_hasPin nodes)
  rw [SubGraph.inEvaluationOrder, respell_walk spelled output event, respell_links]
  change SubGraph.mk (SubGraph.applyIndices g.walk.index? (g.nodes.map (respelled old new))) _ = _
  rw [respell, SubGraph.inEvaluationOrder, nodes, SubGraph.sortLinks, SubGraph.sortLinks, positions]
  rfl

theorem respell_entryFirst : (respell old new g).entryFirst = respell old new g.entryFirst := by
  have staged : ((respell old new g).nodes.map fun n => { n with sortIndex := if n.isEntry then 0 else 1 }) =
      (g.nodes.map fun n => { n with sortIndex := if n.isEntry then 0 else 1 }).map (respelled old new) := by
    rw [respell, List.map_map, List.map_map]
    refine List.map_congr_left fun n _ => ?_
    have entry : (if (respelled old new n).isEntry then (0 : Int) else 1) = if n.isEntry then 0 else 1 := by
      rw [respelled_isEntry]
    exact (congrArg (fun place => { respelled old new n with sortIndex := place }) entry).trans
      (respelled_withIndex n _).symm
  rw [SubGraph.entryFirst, SubGraph.entryFirst, staged, respell, respell]
  congr 1
  refine (List.map_mergeSort fun a _ b _ => ?_).symm
  rw [respelled_sortIndex, respelled_sortIndex]

end PoseGraph.VariableSpelling
