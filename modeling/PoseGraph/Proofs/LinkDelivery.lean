import PoseGraph.Proofs.CompiledGraphs

/-! What becomes of the links of a graph. A link into a runtime node is turned into
one connection, which starts where its variables lead back to; only a trigger that
leads back to nothing is dropped. In the same graphs every input for values gets what
it takes from one side: from a connection if it is linked, and from a literal if not. -/
namespace PoseGraph.LinkDelivery
open AssetOrder CompiledGraphs Editor EditRuns GraphDependencies IndexRanks LoweringSemantics NodeFrames Rearrangement
  Validity VariableChains

variable {e : Editor} {g h : SubGraph} {m n d producer : Node} {s start finish i : Pin} {l : Link} {c : Connection}
variable {owner self : NodeId} {p q : Prototype} {session : CompileSession} {container : Bool} {outcome : Option Connection}
variable {connections : List Connection} {r : RuntimeNode Prototype}

/-- Identifiers of the literals that a node has beside those of its inputs. -/
def extras (n : Node) : List Identifier :=
  (if n.name = "Blend Space Vertex" then [.x, .y] else []) ++
    if n.kind = .blendSpace then [.lerpSecondsPerUnitX, .lerpSecondsPerUnitY] else []

/-- A graph that is built as editing builds it. That links join pins of one type need
not be said, since validation sees to it. -/
structure Tidy (g : SubGraph) : Prop where
  unique : UniqueIds g
  directed : Directed g
  apart : (g.links.map Link.target).Nodup
  void : ∀ l ∈ g.links, ∀ n ∈ g.nodes, ∀ p ∈ n.inputs, p.id = l.target → p.value.isVoid = true
  setters : OneSetter g
  named : ∀ n ∈ g.nodes, ((n.inputs.filter fun p => !p.isFlow).map fun p => Identifier.ofPin p.name).Nodup
  free : ∀ n ∈ g.nodes, ∀ p ∈ n.inputs, p.isFlow = false → Identifier.ofPin p.name ∉ extras n

instance (g : SubGraph) : Decidable (Tidy g) :=
  decidable_of_iff (UniqueIds g ∧ Directed g ∧ (g.links.map Link.target).Nodup ∧
      (∀ l ∈ g.links, ∀ n ∈ g.nodes, ∀ p ∈ n.inputs, p.id = l.target → p.value.isVoid = true) ∧ OneSetter g ∧
      (∀ n ∈ g.nodes, ((n.inputs.filter fun p => !p.isFlow).map fun p => Identifier.ofPin p.name).Nodup) ∧
      ∀ n ∈ g.nodes, ∀ p ∈ n.inputs, p.isFlow = false → Identifier.ofPin p.name ∉ extras n) <| by
    constructor
    · rintro ⟨unique, directed, apart, void, setters, named, free⟩
      exact { unique, directed, apart, void, setters, named, free }
    · intro tidy
      exact ⟨tidy.unique, tidy.directed, tidy.apart, tidy.void, tidy.setters, tidy.named, tidy.free⟩

/-- The pins and nodes at the two ends of a link. -/
structure Spans (g : SubGraph) (l : Link) (start : Pin) (producer : Node) (finish : Pin) (d : Node) : Prop where
  starts : g.pin? l.source = some start
  produces : g.nodeOfPin? l.source = some producer
  ends : g.pin? l.target = some finish
  consumes : g.nodeOfPin? l.target = some d

/-- What a link into a runtime node becomes. -/
structure Delivered (g : SubGraph) (q : Prototype) (start : Pin) (producer : Node) (finish : Pin) (d : Node)
    (outcome : Option Connection) : Prop where
  fed : ∀ m s, LeadsBack g producer start m s →
    ∃ c, outcome = some c ∧ c.source = origin q.id m s ∧ c.destination = ⟨d.id, .ofPin finish.name⟩
  unfed : (¬∃ m s, LeadsBack g producer start m s) → start.isFlow = false →
    ∃ c, outcome = some c ∧ c.source.node = q.id ∧ c.destination = ⟨d.id, .ofPin finish.name⟩
  silent : (¬∃ m s, LeadsBack g producer start m s) → start.isFlow = true → outcome = none

/-- An input of a runtime node takes its value from one side, and from none only if it
holds a text. No other link for values is turned into a connection to it. -/
structure FedOnce (g : SubGraph) (q : Prototype) (made : Link → Option Connection) (r : RuntimeNode Prototype)
    (i : Pin) : Prop where
  drivers : ((g.links.filter (·.target == i.id)).filterMap made).length +
      (r.plugs.map Endpoint.id).count (.ofPin i.name) =
    if g.isLinked i.id = false ∧ i.value.isString = true then 0 else 1
  only : ∀ l ∈ g.links, ∀ start producer finish d c, Spans g l start producer finish d →
    d.id ∈ q.nodes.map RuntimeNode.id → finish.isFlow = false → made l = some c →
      c.destination = ⟨r.id, .ofPin i.name⟩ → l.target = i.id

/-! ## Tidy graphs -/

theorem tidy_alike (alike : Alike g h) (tidy : Tidy g) : Tidy h := by
  have inputs {n m : Node} (same : bare n = bare m) : n.inputs = m.inputs := same_blind (f := Node.inputs) (fun _ => rfl) same
  have back (n : Node) (member : n ∈ h.nodes) : ∃ m ∈ g.nodes, bare m = bare n := counterpart (alike_symm alike) member
  refine ⟨alike_unique alike tidy.unique, fun l link => ?_, ?_, fun l link n member => ?_, ?_, fun n member => ?_,
    fun n member => ?_⟩
  · obtain ⟨⟨m, inM, p, output, source⟩, k, inK, i, input, target⟩ := tidy.directed l (alike.links.mem_iff.mpr link)
    obtain ⟨m', inM', sameM⟩ := counterpart alike inM
    obtain ⟨k', inK', sameK⟩ := counterpart alike inK
    have outputs : m'.outputs = m.outputs := same_blind (f := Node.outputs) (fun _ => rfl) sameM
    exact ⟨⟨m', inM', p, outputs ▸ output, source⟩, k', inK', i, inputs sameK ▸ input, target⟩
  · exact (alike.links.map Link.target).nodup_iff.mp tidy.apart
  · obtain ⟨m, inM, same⟩ := back n member
    rw [← inputs same]
    exact tidy.void l (alike.links.mem_iff.mpr link) m inM
  · intro n₁ in₁ n₂ in₂ sets₁ sets₂ names
    obtain ⟨m₁, inM₁, same₁⟩ := back n₁ in₁
    obtain ⟨m₂, inM₂, same₂⟩ := back n₂ in₂
    have setter {n m : Node} (same : bare m = bare n) : m.isSetter = n.isSetter := same_blind (fun _ => rfl) same
    have variable_ {n m : Node} (same : bare m = bare n) : m.variableName? = n.variableName? := same_blind (fun _ => rfl) same
    rw [← same_id same₁, ← same_id same₂]
    exact tidy.setters m₁ inM₁ m₂ inM₂ ((setter same₁).trans sets₁) ((setter same₂).trans sets₂)
      ((variable_ same₁).trans (names.trans (variable_ same₂).symm))
  · obtain ⟨m, inM, same⟩ := back n member
    rw [← inputs same]
    exact tidy.named m inM
  · obtain ⟨m, inM, same⟩ := back n member
    rw [← inputs same, show extras n = extras m from (same_blind (f := extras) (fun _ => rfl) same).symm]
    exact tidy.free m inM

/-- The ends of a link can be found. -/
theorem spans_of_link (unique : UniqueIds g) (directed : Directed g) (link : l ∈ g.links) :
    ∃ start producer finish d, Spans g l start producer finish d ∧ producer ∈ g.nodes ∧ start ∈ producer.outputs ∧
      d ∈ g.nodes ∧ finish ∈ d.inputs := by
  obtain ⟨⟨m, inM, p, output, source⟩, n, inN, i, input, target⟩ := directed l link
  have outM : p ∈ m.pins := List.mem_append_right _ output
  have inPins : i ∈ n.pins := List.mem_append_left _ input
  refine ⟨p, m, i, n, ⟨?_, ?_, ?_, ?_⟩, inM, output, inN, input⟩
  · exact source ▸ pin_of_member unique inM outM
  · exact source ▸ nodeOfPin_of_member unique inM outM
  · exact target ▸ pin_of_member unique inN inPins
  · exact target ▸ nodeOfPin_of_member unique inN inPins

/-- Validation lets no link join pins of different types. -/
theorem types_of_valid (whole : linkErrors g = []) (link : l ∈ g.links) (spans : Spans g l start producer finish d) :
    start.sameType finish = true := by
  rw [linkErrors, List.map_eq_nil_iff, List.filter_eq_nil_iff] at whole
  have passes := whole l link
  rw [spans.starts, spans.ends] at passes
  simpa using passes

/-! ## One link -/

/-- Each link has its own outcome, and the connections are those that there are. -/
theorem outcomes_of_links (lowered : (e.lowerLinks g container self).result = .ok connections) :
    ∃ made : Link → Option Connection, (∀ l ∈ g.links, (e.lowerLink g container self l).result = .ok (made l)) ∧
      connections = g.links.filterMap made := by
  obtain ⟨outcomes, each, rfl⟩ := lowerLinks_ok_iff.mp lowered
  let made (l : Link) : Option Connection := (e.lowerLink g container self l).result.toOption.join
  have follow (links : List Link) (outcomes : List (Option Connection))
      (each : List.Forall₂ (fun l o => (e.lowerLink g container self l).result = .ok o) links outcomes) :
      (∀ l ∈ links, (e.lowerLink g container self l).result = .ok (made l)) ∧ outcomes = links.map made := by
    induction each with
    | nil => exact ⟨fun _ inside => (nomatch inside), rfl⟩
    | cons head tail ih =>
      have same : made _ = _ := congrArg (fun o => (Except.toOption o).join) head
      refine ⟨List.forall_mem_cons.mpr ⟨same ▸ head, ih.1⟩, ?_⟩
      rw [List.map_cons, ← ih.2, same]
      rfl
  obtain ⟨own, all⟩ := follow g.links outcomes each
  refine ⟨made, own, ?_⟩
  rw [all, List.filterMap_map]
  rfl

section Joined
variable (joined : Joined g container l start producer finish d)
include joined

private theorem joined_places : (!container && !(producer.isSorted && d.isSorted)) = false := by
  rcases joined.placed with whole | ⟨left, right⟩
  · simp [whole]
  · simp [left, right]

/-- A link that leads back to a node is lowered by that node. -/
theorem lowerLink_fed (led : g.resolve producer start = some (m, s)) : e.lowerLink g container self l =
    if m.name = "Input Action" then .fail (.unsupportedInputAction m.id)
    else .ofResult ((connect self m s d finish).map some) := by
  rw [lowerLink, joined.starts, joined.produces, joined.ends, joined.consumes]
  simp only [joined.typed, joined_places joined, joined.unset, led, Bool.not_true, Bool.false_eq_true, ↓reduceIte]

/-- A link that leads back to nothing is lowered by the variable that it reads. -/
theorem lowerLink_unfed (unfed : g.resolve producer start = none) : e.lowerLink g container self l =
    e.connectVariable g self producer start d finish := by
  rw [lowerLink, joined.starts, joined.produces, joined.ends, joined.consumes]
  simp only [joined.typed, joined_places joined, joined.unset, unfed, Bool.not_true, Bool.false_eq_true, ↓reduceIte]

/-- What a link into a node inside its graph becomes. -/
theorem delivered_of_joined (member : producer ∈ g.nodes) (inside : ¬Ends d)
    (lowered : (e.lowerLink g container q.id l).result = .ok outcome) :
    Delivered g q start producer finish d outcome := by
  refine ⟨fun m s leads => ?_, fun unfed value => ?_, fun unfed trigger => ?_⟩
  · rw [lowerLink_fed joined ((resolve_eq_some_iff member).mpr leads)] at lowered
    split at lowered
    · cases lowered
    · cases made : connect q.id m s d finish with
      | error error =>
        rw [made] at lowered
        cases lowered
      | ok c =>
        rw [made] at lowered
        cases lowered
        have conveys := conveys_of_connect made
        exact ⟨c, rfl, conveys.source, conveys.inside inside⟩
  · rw [lowerLink_unfed joined ((resolve_eq_none_iff member).mpr unfed)] at lowered
    cases outcome with
    | none =>
      rw [connectVariable, if_neg (by simp [value])] at lowered
      cases pure_ok.mp lowered
    | some c =>
      obtain ⟨-, reads⟩ := reads_of_connectVariable lowered
      exact ⟨c, rfl, reads.source, reads.inside fun output => inside (.inl output)⟩
  · rw [lowerLink_unfed joined ((resolve_eq_none_iff member).mpr unfed), connectVariable, if_pos trigger] at lowered
    cases lowered
    rfl

end Joined

/-- Every link into a runtime node is delivered. -/
theorem delivered_of_link (staged : Staged container g) (whole : linkErrors g = []) (link : l ∈ g.links)
    (spans : Spans g l start producer finish d) (emitted : d.isEmitted container = true)
    (lowered : (e.lowerLink g container q.id l).result = .ok outcome) :
    Delivered g q start producer finish d outcome := by
  obtain ⟨plain, -, -, -, inside, counts⟩ := emitted_iff.mp emitted
  obtain ⟨inP, producerHas⟩ := nodeOfPin_spec spans.produces
  obtain ⟨inD, dHas⟩ := nodeOfPin_spec spans.consumes
  have placed : container = true ∨ producer.isSorted = true ∧ d.isSorted = true := by
    rcases counts with all | sorted
    · exact .inl all
    · exact (link_counted staged link inP inD producerHas dHas (.inr sorted)).imp_right fun before => ⟨before, sorted⟩
  have joined : Joined g container l start producer finish d :=
    ⟨spans.starts, spans.produces, spans.ends, spans.consumes, types_of_valid whole link spans, placed, plain⟩
  exact delivered_of_joined joined inP inside lowered

/-! ## One input -/

theorem plug_ids (e : Editor) (n : Node) : (e.lowerPlugs n).map Endpoint.id =
    ((n.inputs.filter Pin.hasLiteral).map fun p => Identifier.ofPin p.name) ++ extras n := by
  rw [lowerPlugs, extras]
  simp only [List.map_append, List.map_map, Function.comp_def, List.append_assoc]
  congr 2
  · split <;> rfl
  · split <;> rfl

/-- An input for values has one literal under its name, or none. -/
theorem literal_count (tidy : Tidy g) (member : d ∈ g.nodes) (input : i ∈ d.inputs) (plain : i.isFlow = false) :
    ((e.lowerPlugs d).map Endpoint.id).count (.ofPin i.name) = if i.hasLiteral then 1 else 0 := by
  have value {p : Pin} (literal : p.hasLiteral = true) : p.isFlow = false := by
    simp only [Pin.hasLiteral, Bool.and_eq_true, Bool.not_eq_true'] at literal
    exact literal.2
  have sub : (d.inputs.filter Pin.hasLiteral).Sublist (d.inputs.filter fun p => !p.isFlow) := by
    refine List.monotone_filter_right _ fun p literal => ?_
    simp [value literal]
  have distinct : ((d.inputs.filter Pin.hasLiteral).map fun p => Identifier.ofPin p.name).Nodup :=
    (tidy.named d member).sublist (sub.map _)
  have here : Identifier.ofPin i.name ∈ (d.inputs.filter Pin.hasLiteral).map (fun p => Identifier.ofPin p.name) ↔
      i.hasLiteral = true := by
    constructor
    · intro inside
      obtain ⟨p, kept, same⟩ := List.mem_map.mp inside
      obtain ⟨also, literal⟩ := List.mem_filter.mp kept
      have left : p ∈ d.inputs.filter fun p => !p.isFlow := sub.subset kept
      have right : i ∈ d.inputs.filter fun p => !p.isFlow := List.mem_filter.mpr ⟨input, by simp [plain]⟩
      obtain rfl := List.inj_on_of_nodup_map (tidy.named d member) left right same
      exact literal
    · exact fun literal => List.mem_map.mpr ⟨i, List.mem_filter.mpr ⟨input, literal⟩, rfl⟩
  rw [plug_ids, List.count_append, distinct.count, List.count_eq_zero.mpr (tidy.free d member i input plain), Nat.add_zero]
  simp only [here]

/-- An input is linked if a link ends there. -/
theorem linked_iff (unique : UniqueIds g) (directed : Directed g) (member : d ∈ g.nodes) (input : i ∈ d.inputs) :
    g.isLinked i.id = true ↔ ∃ l ∈ g.links, l.target = i.id := by
  rw [SubGraph.isLinked, List.any_eq_true]
  refine exists_congr fun l => and_congr_right fun link => ?_
  simp only [Link.touches, Bool.or_eq_true, beq_iff_eq]
  refine or_iff_right fun source => ?_
  -- The pin would be an output as well, and the pins of one node differ.
  obtain ⟨⟨m, inM, p, output, same⟩, -⟩ := directed l link
  obtain rfl := node_eq_of_pin unique inM member (hasPin_iff.mpr ⟨p, List.mem_append_right _ output, same⟩)
    (hasPin_iff.mpr ⟨i, List.mem_append_left _ input, source.symm⟩)
  have pins := unique.pins
  rw [List.map_flatMap, List.nodup_flatMap] at pins
  have own := pins.1 m inM
  rw [Node.pins, List.map_append] at own
  have again : i.id ∈ m.outputs.map Pin.id := List.mem_map.mpr ⟨p, output, same.trans source⟩
  exact List.disjoint_of_nodup_append own (List.mem_map_of_mem input) again

/-- One link at most ends at a pin. -/
theorem links_into (apart : (g.links.map Link.target).Nodup) (link : l ∈ g.links) :
    g.links.filter (·.target == l.target) = [l] := by
  obtain ⟨before, after, split⟩ := List.append_of_mem link
  rw [split, List.map_append, List.map_cons, List.nodup_middle, List.nodup_cons, ← List.map_append] at apart
  have others (k : Link) (inside : k ∈ before ++ after) : (k.target == l.target) = false := by
    rw [beq_eq_false_iff_ne]
    exact fun same => apart.1 (same ▸ List.mem_map_of_mem inside)
  have none (links : List Link) (sub : links ⊆ before ++ after) : links.filter (·.target == l.target) = [] :=
    List.filter_eq_nil_iff.mpr fun k inside => by simp [others k (sub inside)]
  rw [split, List.filter_append, List.filter_cons_of_pos (by simp), none before (List.subset_append_left _ _),
    none after (List.subset_append_right _ _), List.nil_append]

/-- An input for values has one connection if it is linked, and one literal otherwise,
unless it holds a text. -/
theorem driver_count {made : Link → Option Connection} (tidy : Tidy g) (member : d ∈ g.nodes) (input : i ∈ d.inputs)
    (plain : i.isFlow = false) (valid : i.value.isVoid = true → g.isLinked i.id = true)
    (feeds : ∀ l ∈ g.links, l.target = i.id → ∃ c, made l = some c) :
    ((g.links.filter (·.target == i.id)).filterMap made).length + ((e.lowerPlugs d).map Endpoint.id).count (.ofPin i.name) =
      if g.isLinked i.id = false ∧ i.value.isString = true then 0 else 1 := by
  rw [literal_count tidy member input plain]
  have ends := linked_iff tidy.unique tidy.directed member input
  cases linked : g.isLinked i.id with
  | true =>
    obtain ⟨l, link, target⟩ := ends.mp linked
    obtain ⟨c, made⟩ := feeds l link target
    have void : i.hasLiteral = false := by simp [Pin.hasLiteral, tidy.void l link d member i input target.symm]
    rw [← target, links_into tidy.apart link, void]
    simp [made]
  | false =>
    have none : g.links.filter (·.target == i.id) = [] := by
      refine List.filter_eq_nil_iff.mpr fun l link target => ?_
      rw [ends.mpr ⟨l, link, by simpa using target⟩] at linked
      cases linked
    have held : i.value.isVoid = false := by
      by_contra void
      rw [valid (by simpa using void)] at linked
      cases linked
    rw [none]
    cases text : i.value.isString <;> simp [Pin.hasLiteral, held, text, plain]

/-! ## Whole graphs -/

/-- A delivered link of values is a connection. -/
theorem delivered_value (delivered : Delivered g q start producer finish d outcome) (value : start.isFlow = false) :
    ∃ c, outcome = some c ∧ c.destination = ⟨d.id, .ofPin finish.name⟩ := by
  by_cases fed : ∃ m s, LeadsBack g producer start m s
  · obtain ⟨m, s, leads⟩ := fed
    obtain ⟨c, made, -, destination⟩ := delivered.fed m s leads
    exact ⟨c, made, destination⟩
  · obtain ⟨c, made, -, destination⟩ := delivered.unfed fed value
    exact ⟨c, made, destination⟩

/-- The inputs of a tidy graph are fed once, if links into runtime nodes are delivered. -/
theorem fed_once {made : Link → Option Connection} (tidy : Tidy g) (whole : linkErrors g = []) (member : d ∈ g.nodes)
    (runs : d.id ∈ q.nodes.map RuntimeNode.id) (sameId : r.id = d.id) (plugs : r.plugs = e.lowerPlugs d)
    (input : i ∈ d.inputs) (plain : i.isFlow = false) (valid : i.value.isVoid = true → g.isLinked i.id = true)
    (delivered : ∀ l ∈ g.links, ∀ start producer finish k, Spans g l start producer finish k →
      k.id ∈ q.nodes.map RuntimeNode.id → Delivered g q start producer finish k (made l)) : FedOnce g q made r i := by
  have value {l : Link} (link : l ∈ g.links) {start finish : Pin} {producer k : Node}
      (spans : Spans g l start producer finish k) (flow : finish.isFlow = false) : start.isFlow = false := by
    have types : start.type = finish.type := by simpa [Pin.sameType] using types_of_valid whole link spans
    rwa [Pin.isFlow, types, ← Pin.isFlow]
  constructor
  · rw [plugs]
    refine driver_count tidy member input plain valid fun l link target => ?_
    obtain ⟨start, producer, finish, k, spans, -⟩ := spans_of_link tidy.unique tidy.directed link
    have inPins : i ∈ d.pins := List.mem_append_left _ input
    have finishAt := spans.ends
    have consumerAt := spans.consumes
    rw [target, pin_of_member tidy.unique member inPins] at finishAt
    rw [target, nodeOfPin_of_member tidy.unique member inPins] at consumerAt
    cases finishAt
    cases consumerAt
    obtain ⟨c, some_, -⟩ := delivered_value (delivered l link _ _ _ _ spans runs) (value link spans plain)
    exact ⟨c, some_⟩
  · intro l link start producer finish k c spans also flow some_ destination
    obtain ⟨c', some_', destination'⟩ := delivered_value (delivered l link _ _ _ _ spans also) (value link spans flow)
    cases some_.symm.trans some_'
    obtain ⟨sameNode, sameName⟩ := ConnectionEnd.mk.inj (destination'.symm.trans destination)
    obtain ⟨inK, inputK⟩ := finish_input tidy.unique tidy.directed link spans.ends spans.consumes
    obtain rfl := node_eq_of_id tidy.unique inK member (sameNode.trans sameId)
    have left : finish ∈ k.inputs.filter fun p => !p.isFlow := List.mem_filter.mpr ⟨inputK, by simp [flow]⟩
    have right : i ∈ k.inputs.filter fun p => !p.isFlow := List.mem_filter.mpr ⟨input, by simp [plain]⟩
    obtain rfl := List.inj_on_of_nodup_map (tidy.named k member) left right sameName
    obtain ⟨-, -, -, target⟩ := pin_spec spans.ends
    exact target.symm

/-- If an asset of tidy graphs is compiled, every connection of a prototype is the
outcome of one link. Each link into a runtime node has one, from where the variables
lead back to, but for triggers that lead back to nothing. Each input for values is fed
by its connection or by its literal, never by both, and by neither only if it holds a
text. -/
theorem links_delivered (tidy : ∀ owner g, e.asset.graph? owner = some g → Tidy g)
    (ran : (e.compile session).2.1 = .ok p) (emits : Emits p owner q) :
    ∃ g h made, e.asset.graph? owner = some g ∧ e.sort.asset.graph? owner = some h ∧ Alike g h ∧
      q.connections = h.links.filterMap made ∧
      (∀ l ∈ h.links, ∃ start producer finish d, Spans h l start producer finish d ∧
        (d.id ∈ q.nodes.map RuntimeNode.id → Delivered h q start producer finish d (made l))) ∧
      ∀ r ∈ q.nodes, ∃ d ∈ h.nodes, d.id = r.id ∧ ∀ i ∈ d.inputs, i.isFlow = false → FedOnce h q made r i := by
  obtain ⟨h, compiled⟩ := compiled_of_emits ran emits
  obtain ⟨valid, -⟩ := compile_ok_iff.mp ran
  obtain ⟨nodesValid, -, -, whole⟩ := graphReport_errors_eq_nil_iff.mp (validate_errors_eq_nil_iff.mp valid owner h compiled.held)
  obtain ⟨g, held, alike, order⟩ := graph_of_sorted (fun owner g held => (tidy owner g held).unique) compiled.held
  have before := tidy owner g held
  have after := tidy_alike alike before
  have staged : Staged (e.sort.isContainer owner) h := by
    refine ⟨after.unique, after.directed, after.setters, ?_⟩
    rcases order with machine | ordered
    · exact .inl (by rw [isContainer, show e.sort.asset.ownerKind? owner = _ from machine])
    · exact .inr ⟨g, before.unique, before.directed, before.setters, ordered⟩
  obtain ⟨made, outcomes, connections⟩ := outcomes_of_links compiled.links
  have delivered (l : Link) (link : l ∈ h.links) (start : Pin) (producer : Node) (finish : Pin) (d : Node)
      (spans : Spans h l start producer finish d) (runs : d.id ∈ q.nodes.map RuntimeNode.id) :
      Delivered h q start producer finish d (made l) := by
    obtain ⟨n, inN, emitted, same⟩ := (runtime_id_iff compiled).mp runs
    obtain rfl := node_eq_of_id after.unique inN (nodeOfPin_spec spans.consumes).1 same
    exact delivered_of_link staged whole link spans emitted (outcomes l link)
  refine ⟨g, h, made, held, compiled.held, alike, connections, fun l link => ?_, fun r member => ?_⟩
  · obtain ⟨start, producer, finish, d, spans, -⟩ := spans_of_link after.unique after.directed link
    exact ⟨start, producer, finish, d, spans, delivered l link start producer finish d spans⟩
  · obtain ⟨depth, each⟩ := compiled.nodes
    obtain ⟨d, kept, lowers⟩ := origin_of_mem each member
    obtain ⟨inside, emitted⟩ := List.mem_filter.mp kept
    refine ⟨d, inside, lowers.id.symm, fun i input plain => ?_⟩
    have checked := (nodeErrors_eq_nil_iff.mp (nodesValid d inside (emitted_iff.mp emitted).2.1)).2.1 i input
    rw [plain] at checked
    exact fed_once after whole inside (List.mem_map.mpr ⟨r, member, lowers.id⟩) lowers.id lowers.plugs input plain
      (fun void => (checked void).resolve_right Bool.false_ne_true) delivered

/-- The weight of a blend is a sum that goes through a variable. -/
def summed : Editor :=
  let edits : List Edit :=
    [.addProperty .localVariable (.float32 .zero), .spawnLocalVariable "New Variable" false,
      .spawnLocalVariable "New Variable" true, .createNode "Math" "Add (Float)", .createNode "Blend" "Pose Blend",
      .createNode "Animation" "Output", .createLink ⟨13⟩ ⟨3⟩, .createLink ⟨6⟩ ⟨22⟩, .createLink ⟨24⟩ ⟨27⟩]
  edits.foldl Edit.apply (.ofAsset (.ofName "Wave" ⟨1⟩) .empty .default 1)

/-- The inputs of the blend are fed once, its weight by the sum. -/
theorem summed_weight_fed : ∃ p, (summed.compile .empty).2.1 = .ok p ∧ ∃ h made,
    summed.sort.asset.graph? .root = some h ∧ p.connections = h.links.filterMap made ∧
      ⟨⟨⟨10⟩, .ofPin "Out"⟩, ⟨⟨19⟩, .ofPin "Weight"⟩, .nodeValueToNodeValue⟩ ∈ p.connections ∧
      ∃ r ∈ p.nodes, r.id = ⟨19⟩ ∧ ∃ d ∈ h.nodes, d.id = r.id ∧ ∀ i ∈ d.inputs, i.isFlow = false → FedOnce h p made r i := by
  have each : ∀ entry ∈ summed.asset.graphs.entries, Tidy entry.2 := by decide +kernel
  have tidy (owner : NodeId) (g : SubGraph) (held : summed.asset.graph? owner = some g) : Tidy g :=
    each (owner, g) (get_eq_some_iff.mp held)
  have sound : (summed.sort.validate.errors.isEmpty && summed.sort.lower.result.toOption.any fun p =>
      p.connections.contains ⟨⟨⟨10⟩, .ofPin "Out"⟩, ⟨⟨19⟩, .ofPin "Weight"⟩, .nodeValueToNodeValue⟩ &&
        p.nodes.any (·.id == ⟨19⟩)) = true := by
    rw [sortByInsertion.2]
    decide +kernel
  obtain ⟨p, ran, checked⟩ := compile_of_check .empty sound
  obtain ⟨connected, runs⟩ := Bool.and_eq_true_iff.mp checked
  obtain ⟨-, h, made, -, held, -, connections, -, inputs⟩ := links_delivered tidy ran .top
  obtain ⟨r, member, named⟩ := List.any_eq_true.mp runs
  exact ⟨p, ran, h, made, held, connections, List.contains_iff_mem.mp connected, r, member, by simpa using named,
    inputs r member⟩

end PoseGraph.LinkDelivery
