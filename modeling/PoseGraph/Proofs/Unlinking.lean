import PoseGraph.Proofs.GraphWiring

/-! What taking links away makes of a graph, exactly. The links are gone, each input in
which one of them ended holds the literal by which it rests, and if that leaves the
graph's output without links, its pose is the bind pose. All else is as before. Taking
links away in two steps comes to the same as taking them away at once. -/
namespace PoseGraph.Unlinking
open AssetOrder EditOutcomes Editor EditorCoherence GraphDependencies GraphWiring LinkEdits NodeCraft NodeFrames

variable {a : Asset} {e : Editor} {g : SubGraph} {n : Node} {p : Pin} {pin : PinId} {pins : List PinId} {l : Link}
variable {owner id : NodeId} {palette : Palette} {rests : Bool} {cut more : Link → Bool}
variable {literal other : Node → Pin → Value}

/-! ## Graphs with other literals -/

/-- The node with other literals in its pins. -/
def resettled (literal : Node → Pin → Value) (n : Node) : Node :=
  n.mapPins fun p => p.withValue (literal n p)

/-- The graph with other literals in its pins. -/
def resettle (literal : Node → Pin → Value) (g : SubGraph) : SubGraph :=
  { g with nodes := g.nodes.map (resettled literal) }

theorem hasPin_resettled : (resettled literal n).hasPin pin = n.hasPin pin := by
  rw [resettled, Node.hasPin, pins_mapPins, List.any_map]
  rfl

theorem ids_resettled (nodes : List Node) : (nodes.map (resettled literal)).map Node.id = nodes.map Node.id := by
  rw [List.map_map]
  rfl

theorem pins_resettled (nodes : List Node) :
    ((nodes.map (resettled literal)).flatMap Node.pins).map Pin.id = (nodes.flatMap Node.pins).map Pin.id := by
  simp only [List.map_flatMap, List.flatMap_map, resettled, pins_mapPins, List.map_map]
  rfl

theorem unique_resettle (unique : UniqueIds g) : UniqueIds (resettle literal g) :=
  ⟨(ids_resettled g.nodes).symm ▸ unique.nodes, (pins_resettled g.nodes).symm ▸ unique.pins⟩

theorem nodeOfPin_resettle : (resettle literal g).nodeOfPin? pin = (g.nodeOfPin? pin).map (resettled literal) := by
  have same : (fun n : Node => n.hasPin pin) ∘ resettled literal = fun n => n.hasPin pin :=
    funext fun _ => hasPin_resettled
  rw [SubGraph.nodeOfPin?, resettle, List.find?_map, same]
  rfl

theorem outputPin_resettle (literal : Node → Pin → Value) (g : SubGraph) :
    (resettle literal g).outputPin? = g.outputPin? := by
  have same : (fun n : Node => n.name == "Output") ∘ resettled literal = fun n => n.name == "Output" := rfl
  rw [SubGraph.outputPin?, SubGraph.outputPin?, SubGraph.nodeNamed?, resettle, List.find?_map, same]
  change (Option.bind (Option.map _ (g.nodeNamed? "Output")) _).map _ = _
  cases g.nodeNamed? "Output" with
  | none => rfl
  | some n =>
    change ((n.inputs.map fun p => p.withValue (literal n p)).head?).map Pin.id = _
    rw [List.head?_map, Option.map_map]
    rfl

theorem restValue_resettled {v : Value} :
    SubGraph.restValue palette (resettled literal n) (p.withValue v) = SubGraph.restValue palette n p := rfl

theorem resettle_congr (same : ∀ n ∈ g.nodes, ∀ p ∈ n.pins, literal n p = other n p) :
    resettle literal g = resettle other g := by
  have nodes : g.nodes.map (resettled literal) = g.nodes.map (resettled other) := by
    refine List.map_congr_left fun n member => ?_
    rw [resettled, resettled, Node.mapPins, Node.mapPins]
    congr 1
    · exact List.map_congr_left fun p inside => by rw [same n member p (List.mem_append_left _ inside)]
    · exact List.map_congr_left fun p inside => by rw [same n member p (List.mem_append_right _ inside)]
  rw [resettle, resettle, nodes]

theorem resettled_id (n : Node) : resettled (fun _ p => p.value) n = n := by
  have same : (fun p : Pin => p.withValue p.value) = fun p => p := rfl
  rw [resettled, same, Node.mapPins, List.map_id', List.map_id']

theorem resettle_id (g : SubGraph) : resettle (fun _ p => p.value) g = g := by
  have same : g.nodes.map (resettled fun _ p => p.value) = g.nodes := by
    rw [List.map_congr_left fun n _ => resettled_id n, List.map_id']
  rw [resettle, same]

theorem resettle_resettle : resettle other (resettle literal g) =
    resettle (fun n p => other (resettled literal n) (p.withValue (literal n p))) g := by
  have nodes : (g.nodes.map (resettled literal)).map (resettled other) =
      g.nodes.map (resettled fun n p => other (resettled literal n) (p.withValue (literal n p))) := by
    rw [List.map_map]
    refine List.map_congr_left fun n _ => ?_
    simp only [Function.comp_apply, resettled, Node.mapPins, List.map_map]
    rfl
  rw [resettle, resettle, resettle, nodes]

/-! ## Changing one pin -/

private theorem modifyFirst_pins {f : Pin → Pin} {ps : List Pin} (distinct : (ps.map Pin.id).Nodup) :
    Node.modifyFirst (·.id == pin) f ps = ps.map fun p => if p.id = pin then f p else p := by
  induction ps with
  | nil => rfl
  | cons p ps ih =>
    obtain ⟨fresh, rest⟩ := List.nodup_cons.mp distinct
    rw [Node.modifyFirst, List.map_cons]
    by_cases here : p.id = pin
    · have others : (ps.map fun p => if p.id = pin then f p else p) = ps := by
        refine (List.map_congr_left fun q inside => if_neg fun same => ?_).trans (List.map_id' ps)
        exact fresh (here.trans same.symm ▸ List.mem_map_of_mem inside)
      rw [if_pos (beq_iff_eq.mpr here), if_pos here, others]
    · rw [if_neg (mt beq_iff_eq.mp here), if_neg here, ih rest]

private theorem map_away {f : Pin → Pin} {ps : List Pin} (absent : ∀ p ∈ ps, p.id ≠ pin) :
    (ps.map fun p => if p.id = pin then f p else p) = ps :=
  (List.map_congr_left fun p inside => if_neg (absent p inside)).trans (List.map_id' ps)

private theorem mapPins_spared {f : Pin → Pin} (absent : n.hasPin pin ≠ true) :
    n.mapPins (fun p => if p.id = pin then f p else p) = n := by
  rw [ne_eq, hasPin_iff] at absent
  push Not at absent
  rw [Node.mapPins, map_away fun p inside => absent p (List.mem_append_left _ inside),
    map_away fun p inside => absent p (List.mem_append_right _ inside)]

/-- A node has the pin among its inputs or among its outputs, and not twice. -/
private theorem modifyPin_node {f : Pin → Pin} (distinct : (n.pins.map Pin.id).Nodup) :
    n.modifyPin pin f = n.mapPins fun p => if p.id = pin then f p else p := by
  rw [Node.pins, List.map_append, List.nodup_append] at distinct
  rw [Node.modifyPin, Node.mapPins]
  split
  · rename_i input
    obtain ⟨p, inside, same⟩ := List.any_eq_true.mp input
    rw [modifyFirst_pins distinct.1, map_away fun q output apart => distinct.2.2 p.id (List.mem_map_of_mem inside) q.id
      (List.mem_map_of_mem output) ((beq_iff_eq.mp same).trans apart.symm)]
  · rename_i absent
    rw [modifyFirst_pins distinct.2.1, map_away fun q input same => absent
      (List.any_eq_true.mpr ⟨q, input, beq_iff_eq.mpr same⟩)]

/-- Where pins are told apart, changing a pin changes all pins of that identity. -/
theorem modifyPin_eq (unique : UniqueIds g) (pin : PinId) (f : Pin → Pin) : g.modifyPin pin f =
    { g with nodes := g.nodes.map (·.mapPins fun p => if p.id = pin then f p else p) } := by
  have nodes : Node.modifyFirst (·.hasPin pin) (·.modifyPin pin f) g.nodes =
      g.nodes.map (·.mapPins fun p => if p.id = pin then f p else p) := by
    cases found : g.nodes.find? (·.hasPin pin) with
    | none =>
      have missing := List.find?_eq_none.mp found
      rw [modifyFirst_none fun n member => Bool.eq_false_iff.mpr (missing n member)]
      exact ((List.map_congr_left fun n member => mapPins_spared (missing n member)).trans (List.map_id' _)).symm
    | some n =>
      obtain ⟨before, after, shape, modified, unmet⟩ := modifyFirst_eq (f := (·.modifyPin pin f)) found
      have member : n ∈ g.nodes := List.mem_of_find?_eq_some found
      have first : n.hasPin pin = true := by simpa using List.find?_some found
      have pins := unique.pins
      rw [List.map_flatMap, List.nodup_flatMap] at pins
      have apart : ∀ m ∈ after, m.hasPin pin ≠ true := by
        intro m later has
        have ids := unique.nodes
        rw [shape, List.map_append, List.map_cons, List.nodup_append, List.nodup_cons] at ids
        obtain rfl : m = n := node_eq_of_pin unique (shape ▸ by simp [later]) member has first
        exact ids.2.1.1 (List.mem_map_of_mem later)
      rw [modified, shape, List.map_append, List.map_cons, modifyPin_node (pins.1 n member),
        List.map_congr_left fun m earlier => mapPins_spared (Bool.eq_false_iff.mp (unmet m earlier)),
        List.map_congr_left fun m later => mapPins_spared (apart m later), List.map_id', List.map_id']
  rw [SubGraph.modifyPin, nodes]

theorem withValue_eq (unique : UniqueIds g) (pin : PinId) (v : Value) : g.modifyPin pin (·.withValue v) =
    resettle (fun _ p => if p.id = pin then v else p.value) g := by
  have each : (fun p : Pin => if p.id = pin then p.withValue v else p) =
      fun p => p.withValue (if p.id = pin then v else p.value) := by
    funext p
    split <;> rfl
  rw [modifyPin_eq unique, each]
  rfl

/-! ## Resetting inputs -/

theorem pin_eq_some_iff (unique : UniqueIds g) (member : n ∈ g.nodes) :
    n.pin? pin = some p ↔ p ∈ n.pins ∧ p.id = pin := by
  constructor
  · intro found
    exact ⟨List.mem_of_find?_eq_some found, by simpa using List.find?_some found⟩
  · rintro ⟨inside, rfl⟩
    exact find_unique inside (beq_self_eq_true _) fun q also same =>
      pin_eq_of_id unique member member also inside (beq_iff_eq.mp same)

theorem resetPin_eq (unique : UniqueIds g) (pin : PinId) : g.resetPin palette pin =
    resettle (fun n p => if p.id = pin ∧ p.kind = .input then SubGraph.restValue palette n p else p.value) g := by
  have idle (none : ∀ n ∈ g.nodes, ∀ p ∈ n.pins, ¬(p.id = pin ∧ p.kind = .input)) : g =
      resettle (fun n p => if p.id = pin ∧ p.kind = .input then SubGraph.restValue palette n p else p.value) g := by
    refine (resettle_id g).symm.trans (resettle_congr fun n member p inside => ?_)
    rw [if_neg (none n member p inside)]
  rw [SubGraph.resetPin]
  split
  · rename_i missing
    refine idle fun n member p inside here => ?_
    exact List.find?_eq_none.mp missing n member (hasPin_iff.mpr ⟨p, inside, here.1⟩)
  · rename_i n found
    obtain ⟨member, has⟩ := nodeOfPin_spec found
    split
    · rename_i missing
      obtain ⟨p, inside, same⟩ := hasPin_iff.mp has
      exact absurd same (by simpa using List.find?_eq_none.mp missing p inside)
    · rename_i p held
      obtain ⟨inside, rfl⟩ := (pin_eq_some_iff unique member).mp held
      have only {m : Node} {q : Pin} (inG : m ∈ g.nodes) (inM : q ∈ m.pins) (same : q.id = p.id) : m = n ∧ q = p := by
        have here : m = n := node_eq_of_pin unique inG member (hasPin_iff.mpr ⟨q, inM, same⟩) has
        exact ⟨here, pin_eq_of_id unique inG member inM inside same⟩
      split
      · rename_i output
        refine idle fun m inG q inM here => ?_
        obtain ⟨-, rfl⟩ := only inG inM here.1
        rw [output] at here
        exact nomatch here.2
      · rename_i input
        rw [withValue_eq unique]
        refine resettle_congr fun m inG q inM => ?_
        by_cases same : q.id = p.id
        · obtain ⟨rfl, rfl⟩ := only inG inM same
          have kind : q.kind = .input := by
            cases kind : q.kind with
            | input => rfl
            | output => exact absurd kind input
          rw [if_pos rfl, if_pos ⟨rfl, kind⟩]
        · rw [if_neg same, if_neg fun here => same here.1]

theorem resetPins_eq (unique : UniqueIds g) (pins : List PinId) : pins.foldl (SubGraph.resetPin palette) g =
    resettle (fun n p => if p.id ∈ pins ∧ p.kind = .input then SubGraph.restValue palette n p else p.value) g := by
  induction pins generalizing g with
  | nil => exact (resettle_id g).symm.trans (resettle_congr fun n _ p _ => by simp)
  | cons pin pins ih =>
    rw [List.foldl_cons, resetPin_eq unique, ih (unique_resettle unique), resettle_resettle]
    refine resettle_congr fun n _ p _ => ?_
    simp only [restValue_resettled, List.mem_cons]
    by_cases input : p.kind = .input
    · by_cases later : p.id ∈ pins
      · simp [Pin.withValue, later, input]
      · simp [Pin.withValue, later]
    · simp [Pin.withValue, input]

/-! ## Taking links away from a graph -/

/-- Links are taken away, and none is left at the pose of the graph's output, which rests then. -/
def Bared (rests : Bool) (cut : Link → Bool) (g : SubGraph) (pin : PinId) : Prop :=
  rests = true ∧ g.outputPin? = some pin ∧ (∃ l ∈ g.links, cut l = true) ∧
    ∀ l ∈ g.links, l.touches pin = true → cut l = true

/-- A link into the pin is taken away. -/
def Severed (cut : Link → Bool) (g : SubGraph) (pin : PinId) : Prop := ∃ l ∈ g.links, cut l = true ∧ l.target = pin

instance : Decidable (Bared rests cut g pin) := inferInstanceAs (Decidable (_ ∧ _ ∧ _ ∧ _))

instance : Decidable (Severed cut g pin) := inferInstanceAs (Decidable (∃ l ∈ g.links, _))

/-- The literal of a pin after links have been taken away. -/
def cutLiteral (palette : Palette) (rests : Bool) (cut : Link → Bool) (g : SubGraph) (n : Node) (p : Pin) : Value :=
  if Bared rests cut g p.id then .int64 0
  else if p.kind = .input ∧ Severed cut g p.id then SubGraph.restValue palette n p
  else p.value

/-- The graph after links have been taken away. -/
def unlinked (palette : Palette) (rests : Bool) (cut : Link → Bool) (g : SubGraph) : SubGraph :=
  { resettle (cutLiteral palette rests cut g) g with links := g.links.filter fun l => !cut l }

theorem severed_congr (same : ∀ l ∈ g.links, cut l = more l) : Severed cut g pin ↔ Severed more g pin := by
  refine exists_congr fun l => and_congr_right fun link => ?_
  rw [same l link]

theorem bared_congr (same : ∀ l ∈ g.links, cut l = more l) : Bared rests cut g pin ↔ Bared rests more g pin := by
  refine and_congr_right fun _ => and_congr_right fun _ => and_congr (exists_congr fun l => and_congr_right fun link => ?_)
    (forall_congr' fun l => forall_congr' fun link => ?_)
  · rw [same l link]
  · rw [same l link]

/-- Only what becomes of the graph's own links matters. -/
theorem unlinked_congr (same : ∀ l ∈ g.links, cut l = more l) : unlinked palette rests cut g = unlinked palette rests more g := by
  have literals : cutLiteral palette rests cut g = cutLiteral palette rests more g := by
    funext n p
    simp only [cutLiteral, severed_congr same, bared_congr same]
  have links : (g.links.filter fun l => !cut l) = g.links.filter fun l => !more l :=
    List.filter_congr fun l link => by rw [same l link]
  rw [unlinked, unlinked, literals, links]

theorem unlinked_idle (none : ∀ l ∈ g.links, cut l = false) : unlinked palette rests cut g = g := by
  have literals : resettle (cutLiteral palette rests cut g) g = g := by
    refine (resettle_congr fun n _ p _ => ?_).trans (resettle_id g)
    rw [cutLiteral, if_neg, if_neg]
    · rintro ⟨-, l, link, gone, -⟩
      simp [none l link] at gone
    · rintro ⟨-, -, ⟨l, link, gone⟩, -⟩
      simp [none l link] at gone
  have links : (g.links.filter fun l => !cut l) = g.links :=
    List.filter_eq_self.mpr fun l link => by rw [none l link]; rfl
  rw [unlinked, literals, links]

theorem unique_unlinked (unique : UniqueIds g) : UniqueIds (unlinked palette rests cut g) :=
  ⟨(unique_resettle unique).nodes, (unique_resettle unique).pins⟩

theorem mem_unlinked : l ∈ (unlinked palette rests cut g).links ↔ l ∈ g.links ∧ cut l = false := by
  change l ∈ g.links.filter (fun l => !cut l) ↔ _
  simp

theorem outputPin_unlinked : (unlinked palette rests cut g).outputPin? = g.outputPin? :=
  outputPin_resettle (cutLiteral palette rests cut g) g

/-- The pose of the output comes to rest if links are taken away and none is left at it. -/
theorem bared_iff (palette : Palette) (resting : Bool) : Bared rests cut g pin ↔ (∃ l ∈ g.links, cut l = true) ∧ rests = true ∧
    (unlinked palette resting cut g).outputPin? = some pin ∧ (unlinked palette resting cut g).isLinked pin = false := by
  have free : (unlinked palette resting cut g).isLinked pin = false ↔ ∀ l ∈ g.links, l.touches pin = true → cut l = true := by
    simp only [SubGraph.isLinked, List.any_eq_false, mem_unlinked, and_imp]
    refine forall₂_congr fun l _ => ?_
    cases cut l <;> simp
  rw [Bared, outputPin_unlinked, free]
  tauto

/-- Taking links away, and then others, is taking all of them away. -/
theorem unlinked_unlinked (g : SubGraph) : unlinked palette rests more (unlinked palette rests cut g) =
    unlinked palette rests (fun l => cut l || more l) g := by
  have links : ((g.links.filter fun l => !cut l).filter fun l => !more l) =
      g.links.filter fun l => !(cut l || more l) := by
    rw [List.filter_filter]
    exact List.filter_congr fun l _ => by rw [Bool.not_or, Bool.and_comm]
  have severed (pin : PinId) : Severed (fun l => cut l || more l) g pin ↔
      Severed cut g pin ∨ Severed more (unlinked palette rests cut g) pin := by
    simp only [Severed, mem_unlinked]
    grind
  have bared (pin : PinId) : Bared rests (fun l => cut l || more l) g pin ↔
      Bared rests more (unlinked palette rests cut g) pin ∨ Bared rests cut g pin := by
    simp only [Bared, mem_unlinked, outputPin_unlinked]
    grind
  -- A pose that rests after the first step has no links left for the second.
  have rested (pin : PinId) (first : Bared rests cut g pin) : ¬Severed more (unlinked palette rests cut g) pin := by
    rintro ⟨l, link, -, ends⟩
    obtain ⟨inside, kept⟩ := mem_unlinked.mp link
    have gone := first.2.2.2 l inside (by simp [Link.touches, ends])
    rw [kept] at gone
    cases gone
  have literals : resettle (cutLiteral palette rests more (unlinked palette rests cut g))
      (resettle (cutLiteral palette rests cut g) g) = resettle (cutLiteral palette rests (fun l => cut l || more l) g) g := by
    rw [resettle_resettle]
    refine resettle_congr fun n _ p _ => ?_
    simp only [cutLiteral, Pin.withValue, bared, severed]
    by_cases second : Bared rests more (unlinked palette rests cut g) p.id
    · simp only [second, true_or, if_true]
    · by_cases first : Bared rests cut g p.id
      · simp only [second, first, rested p.id first, or_true, and_false, if_true, if_false]
      · by_cases input : p.kind = .input
        · by_cases later : Severed more (unlinked palette rests cut g) p.id
          · simp only [second, first, input, later, or_self, or_true, and_self, if_true, if_false]
            rfl
          · simp [second, first, input, later]
        · simp [second, first, input]
  have nodes := congrArg SubGraph.nodes literals
  rw [unlinked, unlinked.eq_def palette rests (fun l => cut l || more l)]
  exact congrArg₂ SubGraph.mk nodes links

/-! ## Dropping links -/

theorem dropLinks_eq (unique : UniqueIds g) (distinct : (g.links.map Link.id).Nodup) (cut : Link → Bool) :
    g.dropLinks palette (g.links.filter cut) = unlinked palette false cut g := by
  have ends (pin : PinId) : pin ∈ (g.links.filter cut).map Link.target ↔ Severed cut g pin := by
    simp [Severed, and_assoc]
  have links : (g.links.filter fun l => !(g.links.filter cut).any fun d => d.id == l.id) = g.links.filter fun l => !cut l := by
    refine List.filter_congr fun l link => congrArg (! ·) (Bool.eq_iff_iff.mpr ?_)
    rw [List.any_eq_true]
    constructor
    · rintro ⟨d, dead, same⟩
      obtain ⟨also, gone⟩ := List.mem_filter.mp dead
      rwa [List.inj_on_of_nodup_map distinct also link (beq_iff_eq.mp same)] at gone
    · exact fun gone => ⟨l, List.mem_filter.mpr ⟨link, gone⟩, beq_self_eq_true _⟩
  have literals : resettle (fun n p => if p.id ∈ (g.links.filter cut).map Link.target ∧ p.kind = .input then
      SubGraph.restValue palette n p else p.value) g = resettle (cutLiteral palette false cut g) g := by
    refine resettle_congr fun n _ p _ => ?_
    have awake : ¬Bared false cut g p.id := fun bared => nomatch bared.1
    simp only [cutLiteral, if_neg awake, ends, and_comm]
  rw [SubGraph.dropLinks, resetPins_eq unique, literals]
  exact congrArg (SubGraph.mk _) links

theorem restPose_eq (unique : UniqueIds g) : g.restPose =
    resettle (fun _ p => if g.outputPin? = some p.id ∧ g.isLinked p.id = false then .int64 0 else p.value) g := by
  rw [SubGraph.restPose]
  split
  · rename_i missing
    refine (resettle_id g).symm.trans (resettle_congr fun n _ p _ => ?_)
    rw [SubGraph.outputPin?, missing]
    exact (if_neg (by simp)).symm
  · rename_i q found
    have output : g.outputPin? = some q.id := by rw [SubGraph.outputPin?, found, Option.map_some]
    split
    · rename_i linked
      refine (resettle_id g).symm.trans (resettle_congr fun n _ p _ => ?_)
      rw [if_neg]
      rintro ⟨here, free⟩
      rw [output] at here
      rw [Option.some.inj here, free] at linked
      cases linked
    · rename_i free
      rw [withValue_eq unique]
      refine resettle_congr fun n _ p _ => ?_
      by_cases here : p.id = q.id
      · rw [if_pos here, if_pos ⟨here ▸ output, here ▸ Bool.eq_false_iff.mpr free⟩]
      · rw [if_neg here, if_neg]
        rintro ⟨same, -⟩
        rw [output] at same
        exact here (Option.some.inj same).symm

/-- Dropping links, and then putting the pose of the output to rest. -/
theorem restPose_unlinked (unique : UniqueIds g) (some_ : ∃ l ∈ g.links, cut l = true) :
    (unlinked palette false cut g).restPose = unlinked palette true cut g := by
  have free (pin : PinId) : ((unlinked palette false cut g).outputPin? = some pin ∧
      (unlinked palette false cut g).isLinked pin = false) ↔ Bared true cut g pin := by
    rw [bared_iff palette false]
    exact ⟨fun both => ⟨some_, rfl, both⟩, fun all => all.2.2⟩
  have literals : resettle (fun _ p => if (unlinked palette false cut g).outputPin? = some p.id ∧
      (unlinked palette false cut g).isLinked p.id = false then .int64 0 else p.value)
        (resettle (cutLiteral palette false cut g) g) = resettle (cutLiteral palette true cut g) g := by
    rw [resettle_resettle]
    refine resettle_congr fun n _ p _ => ?_
    have awake : ¬Bared false cut g p.id := fun bared => nomatch bared.1
    simp only [Pin.withValue, free, cutLiteral, if_neg awake]
  rw [restPose_eq (unique_unlinked unique)]
  exact congrArg₂ SubGraph.mk (congrArg SubGraph.nodes literals) rfl

/-! ## Removing links in an editor -/

section Assets
variable {change after : SubGraph → SubGraph}

theorem modifyGraph_modifyGraph (a : Asset) (owner : NodeId) (change after : SubGraph → SubGraph) :
    (a.modifyGraph owner change).modifyGraph owner after = a.modifyGraph owner (after ∘ change) := by
  have keys : ((a.graphs.modify owner change).modify owner after).keys = (a.graphs.modify owner (after ∘ change)).keys := by
    simp [Table.keys, Table.modify, Table.mapValues]
  have graphs : (a.graphs.modify owner change).modify owner after = a.graphs.modify owner (after ∘ change) := by
    refine table_ext keys fun k => ?_
    simp only [get_modify]
    split <;> simp
  exact congrArg (fun graphs => { a with graphs }) graphs

theorem modifyGraph_congr (same : ∀ g, a.graph? owner = some g → change g = after g) :
    a.modifyGraph owner change = a.modifyGraph owner after := by
  have graphs : a.graphs.modify owner change = a.graphs.modify owner after := by
    refine table_ext (by simp [Table.keys, Table.modify, Table.mapValues]) fun k => ?_
    simp only [get_modify]
    split
    · rename_i here
      subst here
      cases held : a.graphs.get? k with
      | none => rfl
      | some g => rw [Option.map_some, Option.map_some, same g held]
    · rfl
  exact congrArg (fun graphs => { a with graphs }) graphs

theorem modifyGraph_self (same : ∀ g, a.graph? owner = some g → change g = g) : a.modifyGraph owner change = a := by
  have idle : a.modifyGraph owner (fun g => g) = a := by
    have graphs : a.graphs.modify owner (fun g => g) = a.graphs := by
      refine table_ext (by simp [Table.keys, Table.modify, Table.mapValues]) fun k => ?_
      rw [get_modify]
      split <;> simp
    exact congrArg (fun graphs => { a with graphs }) graphs
  exact (modifyGraph_congr same).trans idle

/-- The kind of an owner changes only where its node does. -/
theorem ownerKind_modifyGraph (same : ∀ g, a.graph? owner = some g →
    ((change g).node? id).map Node.kind = (g.node? id).map Node.kind) :
    (a.modifyGraph owner change).ownerKind? id = a.ownerKind? id := by
  have search (b : Asset) : (b.findNode? id).map Node.kind =
      (b.graphs.entries.map fun entry => (entry.2.node? id).map Node.kind).findSome? fun kind => kind := by
    rw [Asset.findNode?, List.map_findSome?, Table.values, List.findSome?_map, List.findSome?_map]
    rfl
  have entries : ((a.modifyGraph owner change).graphs.entries.map fun entry => (entry.2.node? id).map Node.kind) =
      a.graphs.entries.map fun entry => (entry.2.node? id).map Node.kind := by
    change (List.map _ (a.graphs.entries.map _)) = _
    rw [List.map_map]
    refine List.map_congr_left fun entry inside => ?_
    by_cases here : entry.1 = owner
    · have held : a.graph? owner = some entry.2 := get_eq_some_iff.mpr (here ▸ inside)
      simp only [Function.comp_apply, if_pos here, same entry.2 held]
    · simp only [Function.comp_apply, if_neg here]
  rw [Asset.ownerKind?, Asset.ownerKind?, search, search, entries]

end Assets

/-- Whether the output of an owner's graph rests at the bind pose while nothing is linked to it. -/
def posesRest (a : Asset) (owner : NodeId) : Bool := owner.isRoot || a.ownerKind? owner = some .state

theorem afterUnlink_asset (e : Editor) (owner : NodeId) : (e.afterUnlink owner).asset =
    if posesRest e.asset owner then e.asset.modifyGraph owner (·.restPose) else e.asset := by
  rw [afterUnlink, posesRest]
  split <;> rfl

/-- The graph of an owner after links have been taken away from it. -/
def unlinkedIn (e : Editor) (owner : NodeId) (cut : Link → Bool) (g : SubGraph) : SubGraph :=
  unlinked (e.palette owner) (posesRest e.asset owner) cut g

/-- Nothing is linked to the pose of a graph's output, and it can rest. -/
def Resting (a : Asset) (owner : NodeId) (g : SubGraph) (pin : PinId) : Prop :=
  posesRest a owner = true ∧ g.outputPin? = some pin ∧ g.isLinked pin = false

instance (a : Asset) (owner : NodeId) (g : SubGraph) (pin : PinId) : Decidable (Resting a owner g pin) :=
  inferInstanceAs (Decidable (_ ∧ _ ∧ _))

section Kinds
variable {b : Asset} {f : Editor}

theorem posesRest_congr (same : b.ownerKind? owner = a.ownerKind? owner) : posesRest b owner = posesRest a owner := by
  rw [posesRest, posesRest, same]

theorem palette_congr (same : f.asset.ownerKind? owner = e.asset.ownerKind? owner) : f.palette owner = e.palette owner := by
  rw [Editor.palette, Editor.palette, graphKind, graphKind, same]

/-- What an editor does to a graph depends on the kind of its owner. -/
theorem unlinkedIn_congr (same : f.asset.ownerKind? owner = e.asset.ownerKind? owner) :
    unlinkedIn f owner cut g = unlinkedIn e owner cut g := by
  rw [unlinkedIn, unlinkedIn, palette_congr same, posesRest_congr same]

end Kinds

/-- Other literals do not change the kind of any node. -/
theorem ownerKind_resettled {change : SubGraph → SubGraph} (a : Asset) (owner id : NodeId)
    (nodes : ∀ g, ∃ literal, (change g).nodes = g.nodes.map (resettled literal)) :
    (a.modifyGraph owner change).ownerKind? id = a.ownerKind? id := by
  refine ownerKind_modifyGraph fun g _ => ?_
  obtain ⟨literal, same⟩ := nodes g
  rw [SubGraph.node?, same, List.find?_map, Option.map_map]
  rfl

theorem ownerKind_unlinked (a : Asset) (owner id : NodeId) :
    (a.modifyGraph owner (unlinked palette rests cut)).ownerKind? id = a.ownerKind? id :=
  ownerKind_resettled a owner id fun g => ⟨cutLiteral palette rests cut g, rfl⟩

theorem path_dropLinksIn (e : Editor) (owner : NodeId) (g : SubGraph) (dead : List Link) :
    (e.dropLinksIn owner g dead).path = e.path := by
  rw [dropLinksIn, afterUnlink]
  split <;> rfl

theorem dropLinksIn_asset (unique : UniqueIds g) (distinct : (g.links.map Link.id).Nodup)
    (held : e.asset.graph? owner = some g) (some_ : ∃ l ∈ g.links, cut l = true) :
    (e.dropLinksIn owner g (g.links.filter cut)).asset = e.asset.modifyGraph owner (unlinkedIn e owner cut) := by
  have dropped (count : Nat) : ((e.spend count).modifyGraph owner fun g' =>
      g'.dropLinks (e.palette owner) (g.links.filter cut)).asset = e.asset.modifyGraph owner (unlinked (e.palette owner) false cut) :=
    modifyGraph_congr fun g' also => by
      obtain rfl : g = g' := Option.some.inj (held.symm.trans also)
      exact dropLinks_eq unique distinct cut
  have rests : posesRest (e.asset.modifyGraph owner (unlinked (e.palette owner) false cut)) owner = posesRest e.asset owner :=
    posesRest_congr (ownerKind_unlinked e.asset owner owner)
  rw [dropLinksIn, afterUnlink_asset, dropped, rests]
  split
  · rename_i rests
    rw [modifyGraph_modifyGraph]
    refine modifyGraph_congr fun g' also => ?_
    obtain rfl : g = g' := Option.some.inj (held.symm.trans also)
    rw [Function.comp_apply, restPose_unlinked unique some_, unlinkedIn, rests]
  · rename_i awake
    refine modifyGraph_congr fun g' also => ?_
    rw [unlinkedIn, Bool.eq_false_iff.mpr awake]

/-- Removing links by their identities. -/
theorem removeLinksIn_asset (unique : UniqueIds g) (distinct : (g.links.map Link.id).Nodup)
    (held : e.asset.graph? owner = some g) (ids : List LinkId) : (e.removeLinksIn owner ids).1.asset =
      e.asset.modifyGraph owner (unlinkedIn e owner fun l => ids.contains l.id) := by
  rw [removeLinksIn, held]
  dsimp only
  split
  · rename_i none
    refine (modifyGraph_self fun g' also => ?_).symm
    obtain rfl : g = g' := Option.some.inj (held.symm.trans also)
    exact unlinked_idle fun l link => by simpa using List.filter_eq_nil_iff.mp (List.isEmpty_iff.mp none) l link
  · rename_i some_
    rw [List.isEmpty_iff, List.filter_eq_nil_iff] at some_
    push Not at some_
    exact dropLinksIn_asset unique distinct held some_

/-- Removing the links that pass a test. -/
theorem removeLinksIn_filter (unique : UniqueIds g) (distinct : (g.links.map Link.id).Nodup)
    (held : e.asset.graph? owner = some g) (cut : Link → Bool) :
    (e.removeLinksIn owner ((g.links.filter cut).map Link.id)).1.asset = e.asset.modifyGraph owner (unlinkedIn e owner cut) := by
  have named (l : Link) (link : l ∈ g.links) : ((g.links.filter cut).map Link.id).contains l.id = cut l := by
    rw [Bool.eq_iff_iff, List.contains_iff_mem]
    constructor
    · intro listed
      obtain ⟨x, doomed, same⟩ := List.mem_map.mp listed
      obtain ⟨inside, gone⟩ := List.mem_filter.mp doomed
      rwa [List.inj_on_of_nodup_map distinct inside link same] at gone
    · exact fun gone => List.mem_map_of_mem (List.mem_filter.mpr ⟨link, gone⟩)
  rw [removeLinksIn_asset unique distinct held]
  refine modifyGraph_congr fun g' also => ?_
  obtain rfl : g = g' := Option.some.inj (held.symm.trans also)
  exact unlinked_congr named

theorem path_removeLinksIn (e : Editor) (owner : NodeId) (ids : List LinkId) :
    (e.removeLinksIn owner ids).1.path = e.path := by
  rcases removeLinksIn_cases e owner ids with same | ⟨g, -, -, same⟩
  · rw [same]
  · rw [same]
    exact path_dropLinksIn e owner _ _

theorem removeLinksIn_accepted (held : e.asset.graph? owner = some g) (ids : List LinkId) :
    (e.removeLinksIn owner ids).2 = true ↔ ∃ l ∈ g.links, l.id ∈ ids := by
  rw [removeLinksIn, held]
  dsimp only
  split
  · rename_i none
    have absent := List.filter_eq_nil_iff.mp (List.isEmpty_iff.mp none)
    simpa using absent
  · rename_i some_
    rw [List.isEmpty_iff, List.filter_eq_nil_iff] at some_
    push Not at some_
    simpa using some_

end PoseGraph.Unlinking
