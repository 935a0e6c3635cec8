import PoseGraph.Proofs.InputSupply

/-! Edits of one graph keep its inputs supplied: those of literals, of links, of the nodes
of a property and of whole nodes. A state that takes the place of a quick state keeps
the triggers, which are all that leaves a quick state. -/
namespace PoseGraph.SupplyEdits
open GraphDependencies GraphWiring InputSupply LinkEdits NodeCraft NodeEdits NodeFrames PropertyEdits Rearrangement StateEdits

variable {g h : SubGraph} {l : Link} {n m quick state : Node} {p : Pin} {pin : PinId} {v : Value} {ids : List NodeId}
variable {clips : Prop} {except : Option PinId} {self start finish transition : NodeId} {kind : PropertyKind}
variable {name old new : String}

/-! ## Links and literals -/

/-- A new link, whose end is an exception until its other links are gone. -/
theorem supplied_addLink (supplied : Supplied clips (some l.target) g)
    (output : ∃ m ∈ g.nodes, ∃ p ∈ m.outputs, p.id = l.source) (input : ∃ n ∈ g.nodes, ∃ p ∈ n.inputs, p.id = l.target) :
    Supplied clips (some l.target) (g.addLink l) := by
  have either {x : Link} (link : x ∈ (g.addLink l).links) : x ∈ g.links ∨ x = l :=
    (List.mem_append.mp link).imp_right List.mem_singleton.mp
  constructor
  · exact supplied.neat
  · intro x link
    rcases either link with before | rfl
    · exact supplied.directed x before
    · exact ⟨output, input⟩
  · intro x link y also same
    rcases either link with before | rfl
    · rcases either also with old | rfl
      · exact supplied.apart x before y old same
      · exact .inr (congrArg some same)
    · exact .inr rfl
  · rintro n member p inside ⟨x, link, ends⟩
    rcases either link with before | rfl
    · exact supplied.void n member p inside ⟨x, before, ends⟩
    · exact .inr (congrArg some ends.symm)
  · intro n member p inside single void
    refine (supplied.filled n member p inside single void).imp_left ?_
    rintro ⟨x, before, ends⟩
    exact ⟨x, List.mem_append_left _ before, ends⟩

/-- Nodes and links in another order, or with other places and marks. -/
theorem supplied_sameInputs (supplied : Supplied clips except g) (kept : Kept g h) (links : ∀ l ∈ g.links, l ∈ h.links)
    (inputs : ∀ m ∈ h.nodes, ∃ n ∈ g.nodes, SameFrame n m ∧ m.inputs = n.inputs) : Supplied clips except h := by
  have traced : Traced (fun p q => q.value = p.value) g h := by
    intro m inside
    obtain ⟨n, member, same, pins⟩ := inputs m inside
    exact ⟨n, member, same, fun q input => ⟨q, pins ▸ input, rfl, rfl⟩⟩
  exact supplied_traced supplied kept traced fun p q _ value =>
    .inl ⟨value, fun ⟨l, link, ends⟩ => ⟨l, links l link, ends⟩⟩

theorem supplied_alike (supplied : Supplied clips except g) (alike : Alike g h) : Supplied clips except h := by
  refine supplied_sameInputs supplied (kept_alike alike) (fun _ link => alike.links.subset link) fun m inside => ?_
  obtain ⟨n, member, same⟩ := counterpart (alike_symm alike) inside
  have frames : frame m = frame n := (same_blind (f := frame) (fun _ => rfl) same).symm
  exact ⟨n, member, sameFrame_of_frame frames, (same_blind (f := Node.inputs) (fun _ => rfl) same).symm⟩

theorem supplied_modifyNode {f : Node → Node} (supplied : Supplied clips except g)
    (keeps : ∀ n, frame (f n) = frame n ∧ (f n).inputs = n.inputs) (id : NodeId) : Supplied clips except (g.modifyNode id f) := by
  refine supplied_sameInputs supplied (kept_modifyNode (fun n => (keeps n).1) g id) (fun _ link => link) ?_
  have each : List.Forall₂ (fun n m => SameFrame n m ∧ m.inputs = n.inputs) g.nodes (g.modifyNode id f).nodes :=
    forall₂_modifyFirst (fun n => ⟨sameFrame_of_frame rfl, rfl⟩) fun n _ _ => ⟨sameFrame_of_frame (keeps n).1, (keeps n).2⟩
  exact fun m inside => LoweringSemantics.origin_of_mem each inside

theorem supplied_ensureEntry (supplied : Supplied clips except g) : Supplied clips except g.ensureEntry := by
  refine supplied_sameInputs supplied (kept_ensureEntry g) (fun l link => ?_) fun m inside => ?_
  · rw [SubGraph.ensureEntry]
    split <;> exact link
  · rw [SubGraph.ensureEntry] at inside
    split at inside
    · exact ⟨m, inside, sameFrame_of_frame rfl, rfl⟩
    · have each : List.Forall₂ (fun n m : Node => SameFrame n m ∧ m.inputs = n.inputs) g.nodes
          (Node.modifyFirst Node.isState (fun n => { n with isEntry := true }) g.nodes) :=
        forall₂_modifyFirst (fun n => ⟨sameFrame_of_frame rfl, rfl⟩) fun n _ _ => ⟨sameFrame_of_frame rfl, rfl⟩
      exact LoweringSemantics.origin_of_mem each inside

/-- The value of a property goes into inputs that are not linked. -/
theorem supplied_setPropertyValue (supplied : Supplied clips except g) (literal : v.isVoid = false) :
    Supplied clips except (g.setPropertyValue name v ids) := by
  let spares (p : Pin) : Prop := p.name = name ∧ ¬(g.linkedInputs ids).contains p.id
  have traced : Traced (fun p q => q.value = p.value ∨ ¬Fed g p.id ∧ q.value = v) g (g.setPropertyValue name v ids) := by
    intro m inside
    obtain ⟨n, member, rfl⟩ := List.mem_map.mp inside
    split
    · rename_i listed
      refine ⟨n, member, ?_, fun q input => ?_⟩
      · have same (ps : List Pin) : (ps.map fun p =>
            if p.name = name ∧ ¬(g.linkedInputs ids).contains p.id then p.withValue v else p).map pinFrame = ps.map pinFrame := by
          rw [List.map_map]
          refine List.map_congr_left fun p _ => ?_
          rw [Function.comp_apply]
          split <;> rfl
        exact ⟨rfl, rfl, rfl, rfl, same n.inputs, same n.outputs⟩
      · obtain ⟨p, before, rfl⟩ := List.mem_map.mp input
        refine ⟨p, before, by split <;> rfl, ?_⟩
        split
        · rename_i free
          refine .inr ⟨fun fed => free.2 ?_, rfl⟩
          obtain ⟨l, link, ends⟩ := fed
          have linked : g.isLinked p.id = true := List.any_eq_true.mpr ⟨l, link, by simp [Link.touches, ends]⟩
          rw [List.contains_iff_mem]
          exact List.mem_filterMap.mpr ⟨p, List.mem_flatMap.mpr ⟨n, List.mem_filter.mpr ⟨member, listed⟩, before⟩, if_pos linked⟩
        · exact .inl rfl
    · exact ⟨n, member, sameFrame_of_frame rfl, fun q input => ⟨q, input, rfl, .inl rfl⟩⟩
  refine supplied_traced supplied (kept_setPropertyValue g) traced fun p q frames related => ?_
  have ids : p.id = q.id := (congrArg Pin.id frames :)
  rcases related with same | ⟨unfed, set⟩
  · exact .inl ⟨same, fun fed => fed⟩
  · exact .inr (.inl ⟨ids ▸ unfed, fun _ => set ▸ literal⟩)

/-! ## Nodes that change in place -/

/-- A node that has kept its pins, and the literals of all that are linked. -/
structure Redone (g : SubGraph) (n m : Node) : Prop where
  neat : Neat m
  outputs : ∀ p ∈ n.outputs, ∃ q ∈ m.outputs, q.id = p.id
  inputs : ∀ p ∈ n.inputs, ∃ q ∈ m.inputs, q.id = p.id
  literals : ∀ q ∈ m.inputs, (∃ p ∈ n.inputs, p.id = q.id ∧ p.value = q.value ∧ p.storage = q.storage ∧
    (TakesClip n p → TakesClip m q)) ∨ ¬Fed g q.id ∧ (q.storage = .value → q.value.isVoid = false)

theorem supplied_redone (supplied : Supplied clips except g) (links : h.links = g.links)
    (nodes : List.Forall₂ (fun n m => m = n ∨ Redone g n m) g.nodes h.nodes) : Supplied clips except h := by
  have fed {pin : PinId} : Fed h pin ↔ Fed g pin := by rw [Fed, Fed, links]
  refine supplied_served supplied (fun m inside => ?_) ?_ (fun l link => links ▸ link) fun m inside q input => ?_
  · obtain ⟨n, member, rfl | redone⟩ := LoweringSemantics.origin_of_mem nodes inside
    · exact supplied.neat _ member
    · exact redone.neat
  · refine directed_pins supplied.directed (fun l link => links ▸ link) (fun l _ n member p output _ => ?_)
      fun l _ n member p input _ => ?_
    · obtain ⟨m, inside, rfl | redone⟩ := LoweringSemantics.origin_of_mem nodes.flip member
      · exact ⟨_, inside, p, output, rfl⟩
      · exact ⟨m, inside, redone.outputs p output⟩
    · obtain ⟨m, inside, rfl | redone⟩ := LoweringSemantics.origin_of_mem nodes.flip member
      · exact ⟨_, inside, p, input, rfl⟩
      · exact ⟨m, inside, redone.inputs p input⟩
  · obtain ⟨n, member, rfl | redone⟩ := LoweringSemantics.origin_of_mem nodes inside
    · exact .inl ⟨_, member, q, input, rfl, rfl, rfl, fun clip => clip, fed.mpr⟩
    · rcases redone.literals q input with ⟨p, before, id, value, storage, clip⟩ | ⟨unfed, literal⟩
      · exact .inl ⟨n, member, p, before, id, value, storage, clip, fed.mpr⟩
      · refine .inr (.inl ⟨mt fed.mp unfed, fun single void => ?_⟩)
        rw [literal single] at void
        cases void

theorem supplied_mapNodes {f : Node → Node} (supplied : Supplied clips except g)
    (each : ∀ n ∈ g.nodes, n.id ∈ ids → Redone g n (f n)) : Supplied clips except (g.mapNodes ids f) := by
  refine supplied_redone supplied rfl (LoweringSemantics.each_mapped fun n member => ?_)
  split
  · rename_i listed
    exact .inr (each n member (by simpa using listed))
  · exact .inl rfl

/-- The nodes of a property are never arrays, quick states or players. -/
theorem neat_property (kind : PropertyKind) (bound : Bound n) (category : n.category = kind.token) : Neat n where
  bound := bound
  rests := by
    intro array
    rw [category] at array
    cases kind <;> exact absurd array (by decide)
  quick := by
    intro quick
    have machine := (quickState_iff.mp quick).1
    rw [category] at machine
    cases kind <;> exact absurd machine (by decide)

theorem property_takes_no_clip (category : n.category = kind.token) : ¬TakesClip n p := by
  rintro ⟨animation, -⟩
  rw [category] at animation
  cases kind <;> exact absurd animation (by decide)

theorem supplied_retag (supplied : Supplied clips except g) (category : ∀ n ∈ g.nodes, n.id ∈ ids → n.category = kind.token)
    (untouched : Untouched ids g) (literal : v.isVoid = false) : Supplied clips except (g.retagProperty name v ids) := by
  refine supplied_mapNodes supplied fun n member listed => ?_
  have keeps (p : Pin) : (if p.name = name then p.retag v else p).node = p.node ∧
      (if p.name = name then p.retag v else p).kind = p.kind := by
    split <;> exact ⟨rfl, rfl⟩
  have ids (p : Pin) : (if p.name = name then p.retag v else p).id = p.id := by
    split <;> rfl
  have bound := bound_mapPins keeps (supplied.neat n member).bound
  refine ⟨neat_property kind ⟨bound.inputs, bound.outputs⟩ (category n member listed),
    fun p output => ⟨_, List.mem_map_of_mem output, ids p⟩, fun p input => ⟨_, List.mem_map_of_mem input, ids p⟩,
    fun q input => ?_⟩
  obtain ⟨p, before, rfl⟩ := List.mem_map.mp input
  split
  · refine .inr ⟨?_, fun _ => literal⟩
    rintro ⟨l, link, ends⟩
    have apart := (untouched l link n member listed).2
    rw [hasPin_iff.mpr ⟨p, List.mem_append_left _ before, ends.symm⟩] at apart
    cases apart
  · exact .inl ⟨p, before, rfl, rfl, rfl, fun clip => absurd clip (property_takes_no_clip (category n member listed))⟩

theorem supplied_renameProperty (supplied : Supplied clips except g)
    (category : ∀ n ∈ g.nodes, n.id ∈ ids → n.category = kind.token) :
    Supplied clips except (g.renameProperty kind old new ids) := by
  refine supplied_mapNodes (f := renamed kind old new) supplied fun n member listed => ?_
  have keeps (p : Pin) : (if p.name = old then { p with name := new } else p).node = p.node ∧
      (if p.name = old then { p with name := new } else p).kind = p.kind := by
    split <;> exact ⟨rfl, rfl⟩
  have same (p : Pin) : (if p.name = old then { p with name := new } else p).id = p.id ∧
      (if p.name = old then { p with name := new } else p).value = p.value ∧
        (if p.name = old then { p with name := new } else p).storage = p.storage := by
    split <;> exact ⟨rfl, rfl, rfl⟩
  have shape : (renamed kind old new n).id = n.id ∧ (renamed kind old new n).category = n.category ∧
      (renamed kind old new n).inputs = n.inputs.map (fun p => if p.name = old then { p with name := new } else p) ∧
        (renamed kind old new n).outputs = n.outputs.map fun p => if p.name = old then { p with name := new } else p := by
    rw [renamed]
    split <;> exact ⟨rfl, rfl, rfl, rfl⟩
  have mapped := bound_mapPins keeps (supplied.neat n member).bound
  have bound : Bound (renamed kind old new n) := by
    constructor
    · rw [shape.1, shape.2.2.1]
      exact mapped.inputs
    · rw [shape.1, shape.2.2.2]
      exact mapped.outputs
  refine ⟨neat_property kind bound (shape.2.1.trans (category n member listed)), fun p output => ?_, fun p input => ?_,
    fun q input => .inl ?_⟩
  · rw [shape.2.2.2]
    exact ⟨_, List.mem_map_of_mem output, (same p).1⟩
  · rw [shape.2.2.1]
    exact ⟨_, List.mem_map_of_mem input, (same p).1⟩
  · rw [shape.2.2.1] at input
    obtain ⟨p, before, rfl⟩ := List.mem_map.mp input
    exact ⟨p, before, (same p).1.symm, (same p).2.1.symm, (same p).2.2.symm,
      fun clip => absurd clip (property_takes_no_clip (category n member listed))⟩

/-- Triggers by which transitions are joined. -/
structure Trigger (owner : NodeId) (direction : PinKind) (p : Pin) : Prop where
  node : p.node = owner
  kind : p.kind = direction
  name : p.name = "Transition"
  type : p.type = .flow
  storage : p.storage = .value
  value : p.value.isVoid = false

theorem supplied_attach {ins outs : List Pin} {place : Node → Point} (supplied : Supplied clips except g)
    (inputs : ∀ p ∈ ins, Trigger self .input p ∧ ¬Fed g p.id) (outputs : ∀ p ∈ outs, Trigger self .output p) :
    Supplied clips except (g.modifyNode self (attach ins outs place)) := by
  refine supplied_redone supplied rfl (forall₂_modifyFirst (fun _ => .inl rfl) fun n member passes => .inr ?_)
  have named : n.id = self := by simpa using passes
  obtain ⟨bound, rests, quick⟩ := supplied.neat n member
  refine ⟨⟨⟨fun p inside => ?_, fun p inside => ?_⟩, fun array p inside single => ?_, fun isQuick => ⟨fun p inside => ?_,
    fun p inside => ?_⟩⟩, fun p output => ⟨p, List.mem_append_left _ output, rfl⟩,
    fun p input => ⟨p, List.mem_append_left _ input, rfl⟩, fun q inside => ?_⟩
  · refine (List.mem_append.mp inside).elim (bound.inputs p) fun new => ?_
    exact ⟨(inputs p new).1.node.trans named.symm, (inputs p new).1.kind⟩
  · refine (List.mem_append.mp inside).elim (bound.outputs p) fun new => ?_
    exact ⟨(outputs p new).node.trans named.symm, (outputs p new).kind⟩
  · refine (List.mem_append.mp inside).elim (fun old => rests array p old single) fun new => ?_
    rw [(inputs p new).1.name]
    decide
  · refine (List.mem_append.mp inside).elim ((quick isQuick).1 p) fun new => ?_
    rw [Pin.isFlow, (outputs p new).type]
    rfl
  · exact (List.mem_append.mp inside).elim ((quick isQuick).2 p) fun new => (inputs p new).1.storage
  · rcases List.mem_append.mp inside with old | new
    · exact .inl ⟨q, old, rfl, rfl, rfl, fun clip => clip⟩
    · exact .inr ⟨(inputs q new).2, fun _ => (inputs q new).1.value⟩

/-! ## Nodes that come and go -/

theorem supplied_addNode (supplied : Supplied clips except g) (neat : Neat n) (unfed : ∀ p ∈ n.inputs, ¬Fed g p.id)
    (filled : ∀ p ∈ n.inputs, p.storage = .value → p.value.isVoid = true → clips ∧ TakesClip n p) :
    Supplied clips except (g.addNode n) := by
  have either {m : Node} (inside : m ∈ (g.addNode n).nodes) : m ∈ g.nodes ∨ m = n :=
    (List.mem_append.mp inside).imp_right List.mem_singleton.mp
  refine supplied_served supplied (fun m inside => ?_) (fun l link => ?_) (fun _ link => link) fun m inside q input => ?_
  · exact (either inside).elim (supplied.neat m) fun new => new ▸ neat
  · obtain ⟨⟨m, inM, output⟩, k, inK, input⟩ := supplied.directed l link
    exact ⟨⟨m, List.mem_append_left _ inM, output⟩, k, List.mem_append_left _ inK, input⟩
  · rcases either inside with old | rfl
    · exact .inl ⟨m, old, q, input, rfl, rfl, rfl, fun clip => clip, fun fed => fed⟩
    · exact .inr (.inl ⟨unfed q input, filled q input⟩)

/-- Removing nodes that no link touches. -/
theorem supplied_without (supplied : Supplied clips except g) (untouched : Untouched ids g) :
    Supplied clips except (without ids g) := by
  have stays {n : Node} (member : n ∈ g.nodes) {l : Link} (link : l ∈ g.links)
      (touches : n.hasPin l.source = true ∨ n.hasPin l.target = true) : n ∈ (without ids g).nodes := by
    refine List.mem_filter.mpr ⟨member, ?_⟩
    simp only [Bool.not_eq_true', List.contains_eq_mem, decide_eq_false_iff_not]
    intro doomed
    obtain ⟨starts, ends⟩ := untouched l link n member doomed
    simp [starts, ends] at touches
  refine supplied_served supplied (fun m inside => supplied.neat m (List.mem_filter.mp inside).1) ?_ (fun _ link => link)
    fun m inside q input => .inl ⟨m, (List.mem_filter.mp inside).1, q, input, rfl, rfl, rfl, fun clip => clip, fun fed => fed⟩
  refine directed_pins supplied.directed (fun _ link => link) (fun l link n member p output source => ?_)
    fun l link n member p input target => ?_
  · exact ⟨n, stays member link (.inl (hasPin_iff.mpr ⟨p, List.mem_append_right _ output, source⟩)), p, output, rfl⟩
  · exact ⟨n, stays member link (.inr (hasPin_iff.mpr ⟨p, List.mem_append_left _ input, target⟩)), p, input, rfl⟩

/-! ## A state in place of a quick state -/

/-- A link stays if both its pins do. -/
theorem promoted_keeps (distinct : (g.links.map Link.id).Nodup) (link : l ∈ g.links)
    (starts : ((promoted g self state quick).pin? l.source).isSome = true)
    (ends : ((promoted g self state quick).pin? l.target).isSome = true) : l ∈ (promoted g self state quick).links := by
  refine List.mem_filter.mpr ⟨link, ?_⟩
  rw [Bool.not_eq_true', ← Bool.not_eq_true, List.contains_iff_mem]
  intro doomed
  obtain ⟨x, stale, same⟩ := List.mem_map.mp doomed
  obtain ⟨before, missing⟩ := List.mem_filter.mp stale
  obtain rfl := List.inj_on_of_nodup_map distinct before link same
  rw [Option.isSome_iff_ne_none] at starts ends
  rcases Bool.or_eq_true_iff.mp missing with gone | gone
  · exact starts (Option.isNone_iff_eq_none.mp gone)
  · exact ends (Option.isNone_iff_eq_none.mp gone)

theorem neat_stateFromQuick (bound : Bound quick) (shape : StateNode state) :
    Neat (Editor.stateFromQuick state quick) := by
  refine ⟨⟨fun p member => ?_, fun p member => ?_⟩, fun array => ?_, fun isQuick => ?_⟩
  · obtain ⟨q, passes, rfl⟩ := List.mem_map.mp member
    exact ⟨rfl, (bound.inputs q (List.mem_filter.mp passes).1).2⟩
  · obtain ⟨q, passes, rfl⟩ := List.mem_map.mp member
    exact ⟨rfl, (bound.outputs q (List.mem_filter.mp passes).1).2⟩
  · rw [(stateNode_stateFromQuick quick shape).category] at array
    exact absurd array (by decide)
  · rw [stateNode_kind (stateNode_stateFromQuick quick shape)] at isQuick
    cases isQuick

/-- What is at the ends of a link is still there unless it was an input of the quick state. -/
theorem output_promoted (found : g.node? self = some quick) (flows : ∀ p ∈ quick.outputs, p.isFlow = true) (member : n ∈ g.nodes)
    (leaves : p ∈ n.outputs) : ∃ m ∈ (promoted g self state quick).nodes, ∃ q ∈ m.outputs, q.id = p.id := by
  rcases promoted_survivor state found member with still | rfl
  · exact ⟨n, still, p, leaves, rfl⟩
  · refine ⟨_, promoted_takes state found, { p with node := n.id }, ?_, rfl⟩
    exact List.mem_map.mpr ⟨p, List.mem_filter.mpr ⟨leaves, flows p leaves⟩, rfl⟩

theorem fed_promoted (directed : Directed g) (distinct : (g.links.map Link.id).Nodup) (found : g.node? self = some quick)
    (flows : ∀ p ∈ quick.outputs, p.isFlow = true) (member : m ∈ (promoted g self state quick).nodes) (input : p ∈ m.inputs)
    (fed : Fed g p.id) : Fed (promoted g self state quick) p.id := by
  obtain ⟨l, link, ends⟩ := fed
  obtain ⟨⟨n, inside, q, leaves, source⟩, -⟩ := directed l link
  obtain ⟨k, survives, r, also, same⟩ : ∃ k ∈ (promoted g self state quick).nodes, ∃ r ∈ k.outputs, r.id = q.id :=
    output_promoted found flows inside leaves
  refine ⟨l, promoted_keeps distinct link ?_ ?_, ends⟩
  · rw [← source, ← same]
    exact pin_isSome survives (List.mem_append_right _ also)
  · rw [ends]
    exact pin_isSome member (List.mem_append_left _ input)

theorem supplied_promoted (supplied : Supplied clips except g) (unique : UniqueIds g)
    (distinct : (g.links.map Link.id).Nodup) (found : g.node? self = some quick) (kind : quick.kind = .quickState)
    (shape : StateNode state) : Supplied clips except (promoted g self state quick) := by
  have inside : quick ∈ g.nodes := List.mem_of_find?_eq_some found
  have flows := ((supplied.neat quick inside).quick kind).1
  have neat := neat_stateFromQuick (supplied.neat quick inside).bound shape
  refine supplied_served supplied (fun m member => ?_) ?_ (fun l link => (promoted_links link).1) fun m member q input => ?_
  · exact (promoted_origin found member).elim (supplied.neat m) fun new => new ▸ neat
  · refine directed_pins supplied.directed (fun l link => (promoted_links link).1)
      (fun l _ n member p leaves _ => output_promoted found flows member leaves) fun l link n member p input target => ?_
    rcases promoted_survivor state found member with still | rfl
    · exact ⟨n, still, p, input, rfl⟩
    · have flow := promoted_pin unique found (List.mem_append_left _ input) (target ▸ (promoted_links link).2.2)
      refine ⟨_, promoted_takes state found, { p with node := n.id }, ?_, rfl⟩
      exact List.mem_map.mpr ⟨p, List.mem_filter.mpr ⟨input, flow⟩, rfl⟩
  · have fed := fed_promoted supplied.directed distinct found flows member input
    rcases promoted_origin found member with old | rfl
    · exact .inl ⟨m, old, q, input, rfl, rfl, rfl, fun clip => clip, fed⟩
    · obtain ⟨p, passes, rfl⟩ := List.mem_map.mp input
      refine .inl ⟨quick, inside, p, (List.mem_filter.mp passes).1, rfl, rfl, rfl, fun clip => ?_, fed⟩
      have name := (quickState_iff.mp kind).2
      rw [clip.2.1] at name
      exact absurd name (by decide)

/-! ## Joining states -/

section Joining
variable {base : Nat} {middle : Point}

theorem trigger_transitionPin (i : Nat) (owner : NodeId) (direction : PinKind) :
    Trigger owner direction (Editor.transitionPin i owner direction) :=
  ⟨rfl, rfl, rfl, rfl, rfl, rfl⟩

theorem supplied_withTransition (supplied : Supplied clips except g)
    (unfed : ¬Fed g ⟨base + 3⟩ ∧ ¬Fed g ⟨base + 1⟩) :
    Supplied clips except (withTransition base start finish transition middle g) := by
  have only {p q : Pin} (inside : p ∈ [q]) : p = q := List.mem_singleton.mp inside
  rw [withTransition_attach]
  refine supplied_attach (supplied_attach (supplied_attach supplied (List.forall_mem_nil _) fun p new => ?_)
    (fun p new => ?_) (List.forall_mem_nil _)) (fun p new => ?_) fun p new => ?_
  · exact only new ▸ trigger_transitionPin base start .output
  · exact only new ▸ ⟨trigger_transitionPin (base + 3) finish .input, unfed.1⟩
  · exact only new ▸ ⟨trigger_transitionPin (base + 1) transition .input, unfed.2⟩
  · exact only new ▸ trigger_transitionPin (base + 2) transition .output

/-- The pins of a transition bear four numbers, and their directions go by these. -/
def Sided (base : Nat) (p : Pin) : Prop :=
  (p.id = ⟨base⟩ ∨ p.id = ⟨base + 2⟩ → p.kind = .output) ∧ (p.id = ⟨base + 1⟩ ∨ p.id = ⟨base + 3⟩ → p.kind = .input)

theorem sided_attach {ins outs : List Pin} {place : Node → Point} (sided : ∀ n ∈ g.nodes, ∀ p ∈ n.pins, Sided base p)
    (new : ∀ p ∈ ins ++ outs, Sided base p) :
    ∀ n ∈ (g.modifyNode self (attach ins outs place)).nodes, ∀ p ∈ n.pins, Sided base p := by
  have each : List.Forall₂ (fun n m : Node => ∀ p ∈ m.pins, p ∈ n.pins ∨ p ∈ ins ++ outs) g.nodes
      (g.modifyNode self (attach ins outs place)).nodes := by
    refine forall₂_modifyFirst (fun n p inside => .inl inside) fun n _ _ p inside => ?_
    simp only [attach, Node.pins, List.mem_append] at inside ⊢
    tauto
  intro m inside p pin
  obtain ⟨n, member, pins⟩ := LoweringSemantics.origin_of_mem each inside
  exact (pins p pin).elim (sided n member p) (new p)

theorem sided_withTransition (before : ∀ n ∈ g.nodes, ∀ p ∈ n.pins, p.id.value < base) :
    ∀ n ∈ (withTransition base start finish transition middle g).nodes, ∀ p ∈ n.pins, Sided base p := by
  have apart : ∀ n ∈ g.nodes, ∀ p ∈ n.pins, Sided base p := by
    intro n member p inside
    have lower := before n member p inside
    constructor
    · rintro (same | same)
      all_goals
        rw [same] at lower
        exact absurd lower (by simp)
    · rintro (same | same)
      all_goals
        rw [same] at lower
        exact absurd lower (by simp)
  rw [withTransition_attach]
  refine sided_attach (sided_attach (sided_attach apart ?_) ?_) ?_
  all_goals simp [Sided, Editor.transitionPin, Pin.ofType]

/-- Editing literals leaves the directions of pins. -/
theorem sided_frames (frames : (h.nodes.map frame).Perm (g.nodes.map frame)) (sided : ∀ n ∈ g.nodes, ∀ p ∈ n.pins, Sided base p) :
    ∀ n ∈ h.nodes, ∀ p ∈ n.pins, Sided base p := by
  intro m inside p pin
  obtain ⟨n, member, same⟩ := kept_origin frames inside
  obtain ⟨q, before, frame⟩ := pin_counterpart (sameFrame_pins same) pin
  have ids : q.id = p.id := (congrArg Pin.id frame :)
  have kinds : q.kind = p.kind := (congrArg Pin.kind frame :)
  rw [Sided, ← ids, ← kinds]
  exact sided n member q before

end Joining

end PoseGraph.SupplyEdits
