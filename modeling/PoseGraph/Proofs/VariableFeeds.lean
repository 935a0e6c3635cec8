import PoseGraph.Proofs.GraphWiring
import PoseGraph.Proofs.VariableChains
import PoseGraph.Proofs.VariablePlugs
import Mathlib.Data.Fintype.Card
import Mathlib.Data.Set.Finite.Basic
import Mathlib.Logic.Relation

/-! Local variables that feed each other. Following a variable back either ends, at a
node that is no variable or at a variable that nothing feeds, or it comes to a circle.
Where links fit, the variable that feeds another one is found at the link to its setter. -/
namespace PoseGraph.VariableFeeds
open EditorCoherence GraphDependencies GraphWiring NodeCraft NodeFrames Relation SubGraph Validity VariableChains VariablePlugs

variable {g h : SubGraph} {n m k : Node} {p s : Pin} {pin : PinId} {l : Link} {name before last : String} {rename : String → String}

/-! ## Circles -/

/-- The variable that is linked to the setter of another one. -/
def feeder? (g : SubGraph) (name : String) : Option String :=
  (g.source? name).bind fun fed => (g.nodeOfPin? fed.id).bind Node.variableName?

/-- The first variable is fed by the second one. -/
def FedBy (g : SubGraph) (name before : String) : Prop := feeder? g name = some before

instance : Decidable (FedBy g name before) := inferInstanceAs (Decidable (_ = _))

/-- Following the variable back comes to it again. -/
def Circular (g : SubGraph) (name : String) : Prop := TransGen (FedBy g) name name

/-- Following the variable back comes to a circle. -/
def Endless (g : SubGraph) (name : String) : Prop := ∃ last, ReflTransGen (FedBy g) name last ∧ Circular g last

theorem fedBy_spec (fed : FedBy g name before) : ∃ s k, g.source? name = some s ∧ g.nodeOfPin? s.id = some k ∧
    k.variableName? = some before := by
  obtain ⟨s, source, rest⟩ := Option.bind_eq_some_iff.mp fed
  obtain ⟨k, holder, named⟩ := Option.bind_eq_some_iff.mp rest
  exact ⟨s, k, source, holder, named⟩

theorem fedBy_of (source : g.source? name = some s) (holder : g.nodeOfPin? s.id = some k)
    (named : k.variableName? = some before) : FedBy g name before := by
  simp [FedBy, feeder?, source, holder, named]

theorem endless_step (endless : Endless g name) : ∃ before, FedBy g name before ∧ Endless g before := by
  obtain ⟨last, path, circle⟩ := endless
  rcases path.cases_head with rfl | ⟨before, fed, rest⟩
  · obtain ⟨before, fed, rest⟩ := TransGen.head'_iff.mp circle
    exact ⟨before, fed, name, rest, circle⟩
  · exact ⟨before, fed, last, rest, circle⟩

/-- A way that goes on from a variable goes on where that one is fed from. -/
theorem endless_back (endless : Endless g name) (source : g.source? name = some s) (holder : g.nodeOfPin? s.id = some k) :
    ∃ before, k.variableName? = some before ∧ Endless g before := by
  obtain ⟨before, fed, rest⟩ := endless_step endless
  obtain ⟨_, _, source', holder', named⟩ := fedBy_spec fed
  cases source.symm.trans source'
  cases holder.symm.trans holder'
  exact ⟨before, named, rest⟩

theorem leads_not_endless (leads : LeadsBack g n p m s) (named : n.variableName? = some name) : ¬Endless g name := by
  induction leads generalizing name with
  | here plain =>
    rw [named_variable named] at plain
    cases plain
  | back named' source holder rest ih =>
    cases named.symm.trans named'
    intro endless
    obtain ⟨before, reads, onward⟩ := endless_back endless source holder
    exact ih reads onward

theorem stops_not_endless (stops : StopsAt g name last) : ¬Endless g name := by
  induction stops with
  | here unfed =>
    intro endless
    obtain ⟨before, fed, -⟩ := endless_step endless
    obtain ⟨s, -, source, -⟩ := fedBy_spec fed
    cases unfed.symm.trans source
  | back source holder named rest ih =>
    intro endless
    obtain ⟨before, reads, onward⟩ := endless_back endless source holder
    cases named.symm.trans reads
    exact ih onward

/-- What feeds a variable is a pin of a node. -/
theorem source_holder (source : g.source? name = some s) : ∃ k, g.nodeOfPin? s.id = some k := by
  obtain ⟨setter, -, rest⟩ := Option.bind_eq_some_iff.mp source
  obtain ⟨input, -, produced⟩ := Option.bind_eq_some_iff.mp rest
  obtain ⟨l, -, starts⟩ := Option.bind_eq_some_iff.mp produced
  obtain ⟨-, -, -, same⟩ := pin_spec starts
  rw [pin_nodeOfPin, ← same] at starts
  obtain ⟨k, holder, -⟩ := Option.bind_eq_some_iff.mp starts
  exact ⟨k, holder⟩

/-- The variables of a graph from which no circle is come to. -/
abbrev Ending (g : SubGraph) : Type := { name // name ∈ g.nodes.filterMap Node.variableName? ∧ ¬Endless g name }

/-- They are finitely many, and none of them is come to twice. -/
theorem ending_founded (g : SubGraph) : WellFounded fun b a : Ending g => FedBy g a.1 b.1 := by
  have finite : Finite (Ending g) :=
    ((g.nodes.filterMap Node.variableName?).finite_toSet.subset fun _ inside => inside.1).to_subtype
  let later (b a : Ending g) : Prop := TransGen (FedBy g) a.1 b.1
  have trans : IsTrans (Ending g) later := ⟨fun _ _ _ first second => second.trans first⟩
  have irrefl : Std.Irrefl later := ⟨fun a circle => a.2.2 ⟨a.1, .refl, circle⟩⟩
  exact Subrelation.wf (fun fed => .single fed) (Finite.wellFounded_of_trans_of_irrefl later)

/-- Only a circle keeps the way back from ending. -/
theorem ends_of_not_endless (straight : ¬Endless g name) (member : n ∈ g.nodes) (named : n.variableName? = some name) :
    (∃ m s, LeadsBack g n p m s) ∨ ∃ last, StopsAt g name last := by
  suffices ends : ∀ a : Ending g, ∀ n p, n.variableName? = some a.1 →
      (∃ m s, LeadsBack g n p m s) ∨ ∃ last, StopsAt g a.1 last from
    ends ⟨name, List.mem_filterMap.mpr ⟨n, member, named⟩, straight⟩ n p named
  intro a
  induction a using (ending_founded g).induction with
  | _ a ih =>
    intro n p named
    cases source : g.source? a.1 with
    | none => exact .inr ⟨a.1, .here source⟩
    | some fed =>
      obtain ⟨k, holder⟩ := source_holder source
      cases relay : k.isLocalVariable with
      | false => exact .inl ⟨k, fed, .back named source holder (.here relay)⟩
      | true =>
        obtain ⟨q, -, reads⟩ := variable_shape relay
        have back : FedBy g a.1 q.name := fedBy_of source holder reads
        have onward : ¬Endless g q.name := fun ⟨last, path, circle⟩ => a.2.2 ⟨last, .head back path, circle⟩
        let next : Ending g := ⟨q.name, List.mem_filterMap.mpr ⟨k, (nodeOfPin_spec holder).1, reads⟩, onward⟩
        rcases ih next back k fed reads with ⟨m, s, leads⟩ | ⟨last, stops⟩
        · exact .inl ⟨m, s, .back named source holder leads⟩
        · exact .inr ⟨last, .back source holder reads stops⟩

/-- Lowering gives up on a variable without having come to one that nothing feeds
exactly if there is a circle on the way. -/
theorem resolve_endless_iff (member : n ∈ g.nodes) (named : n.variableName? = some name) :
    g.resolve n p = none ∧ (¬∃ last, StopsAt g name last) ↔ Endless g name := by
  rw [resolve_eq_none_iff member, ← not_or]
  constructor
  · intro neither
    by_contra straight
    exact neither (ends_of_not_endless straight member named)
  · rintro endless (⟨m, s, leads⟩ | ⟨last, stops⟩)
    · exact leads_not_endless leads named endless
    · exact stops_not_endless stops endless

/-! ## Links between variables -/

/-- A link leads from a node of the second variable to the setter of the first one. -/
def Joint (g : SubGraph) (l : Link) (name before : String) : Prop :=
  (∃ n ∈ g.nodes, n.isSetter = true ∧ n.variableName? = some name ∧ n.hasPin l.target = true) ∧
    ∃ m ∈ g.nodes, m.variableName? = some before ∧ m.hasPin l.source = true

/-- The first variable is fed by a link from the second one. -/
def DrawsOn (g : SubGraph) (name before : String) : Prop := ∃ l ∈ g.links, Joint g l name before

theorem setter_input (sets : n.isSetter = true) (has : n.hasPin pin = true) : ∃ p, n.inputs.head? = some p ∧ p.id = pin := by
  rw [Node.isSetter, Bool.and_eq_true, beq_iff_eq] at sets
  obtain ⟨p, inputs⟩ := List.length_eq_one_iff.mp sets.2
  obtain ⟨q, only, -⟩ := variable_shape sets.1
  obtain ⟨r, inside, same⟩ := hasPin_iff.mp has
  rw [Node.pins, inputs, List.singleton_append, List.cons.injEq] at only
  rw [Node.pins, inputs, only.2, List.append_nil, List.mem_singleton] at inside
  exact ⟨p, by rw [inputs]; rfl, inside ▸ same⟩

/-- Where links fit and no variable is set twice, the links tell what feeds a variable. -/
theorem fedBy_iff_drawsOn (unique : UniqueIds g) (setters : OneSetter g) (wired : Wired g) :
    FedBy g name before ↔ DrawsOn g name before := by
  constructor
  · intro fed
    obtain ⟨s, k, source, holder, named⟩ := fedBy_spec fed
    obtain ⟨n, member, sets, reads, l, link, ends, starts⟩ := source_spec source
    obtain ⟨inK, has⟩ := nodeOfPin_spec holder
    exact ⟨l, link, ⟨n, member, sets, reads, ends⟩, k, inK, named, starts ▸ has⟩
  · rintro ⟨l, link, ⟨n, member, sets, reads, ends⟩, m, inM, named, starts⟩
    have setter : g.setter? name = some n := by
      refine find_unique member (by simp [sets, reads]) fun k other also => ?_
      rw [Bool.and_eq_true, beq_iff_eq] at also
      exact node_eq_of_id unique other member (setters k other n member also.1 sets (also.2.trans reads.symm))
    obtain ⟨p, first, arrives⟩ := setter_input sets ends
    have linked : g.links.find? (·.target == p.id) = some l := by
      refine find_unique link (by simp [arrives]) fun x other also => ?_
      exact List.inj_on_of_nodup_map wired.apart other link ((beq_iff_eq.mp also).trans arrives)
    obtain ⟨q, inside, same⟩ := hasPin_iff.mp starts
    have produced : g.pin? l.source = some q := same ▸ pin_of_member unique inM inside
    have source : g.source? name = some q := by simp [source?, setter, first, producer?, linked, produced]
    exact fedBy_of source (nodeOfPin_of_member unique inM inside) named

/-! ## What a change makes of them -/

/-- A node of a variable stems from one that stood for the same, perhaps by another name. -/
def Stems (rename : String → String) (n m : Node) : Prop := ∀ name, m.variableName? = some name →
  (∃ before, n.variableName? = some before ∧ rename before = name) ∧ (m.isSetter = true → n.isSetter = true) ∧
    ∀ pin, m.hasPin pin = true → n.hasPin pin = true

theorem stems_refl (n : Node) : Stems id n n := fun name named => ⟨⟨name, named, rfl⟩, id, fun _ => id⟩

theorem stems_trans (first : Stems id n m) (second : Stems id m k) : Stems id n k := by
  intro name named
  obtain ⟨⟨_, between, rfl⟩, sets, pins⟩ := second name named
  obtain ⟨reads, sets', pins'⟩ := first _ between
  exact ⟨reads, fun setter => sets' (sets setter), fun pin has => pins' pin (pins pin has)⟩

theorem stems_sameFrame (same : SameFrame n m) : Stems id n m := fun name named =>
  ⟨⟨name, sameFrame_variableName same ▸ named, rfl⟩, fun sets => sameFrame_isSetter same ▸ sets,
    fun pin has => sameFrame_hasPin same pin ▸ has⟩

/-- Nodes that keep their identity and their pins, whatever they hold. -/
theorem stems_edited (grown : Grown rename n m) (edited : Edited n m) : Stems rename n m := by
  intro name named
  refine ⟨grown.reads name named, grown.sets, fun pin has => ?_⟩
  obtain ⟨p, inside, rfl⟩ := hasPin_iff.mp has
  obtain ⟨q, also, same⟩ := List.mem_map.mp (edited_pins edited ▸ List.mem_map_of_mem (f := Pin.id) inside)
  exact hasPin_iff.mpr ⟨q, also, same⟩

/-- A variable has one pin, so that no pin was added to it. -/
theorem stems_spread (spread : Spread n m) : Stems id n m := by
  intro name named
  obtain ⟨before, reads, same⟩ := spread.grown.reads name named
  refine ⟨⟨before, reads, same⟩, spread.grown.sets, fun pin has => ?_⟩
  obtain ⟨p, only, -⟩ := variable_shape (named_variable reads)
  obtain ⟨q, single, -⟩ := variable_shape (named_variable named)
  have kept : ∃ r ∈ m.pins, r.id = p.id := by
    have own : p ∈ n.pins := only ▸ List.mem_cons_self
    rcases List.mem_append.mp own with input | output
    · obtain ⟨r, inside, id, -⟩ := spread.retained.inputs p input
      exact ⟨r, List.mem_append_left _ inside, id⟩
    · obtain ⟨r, inside, id, -⟩ := spread.retained.outputs p output
      exact ⟨r, List.mem_append_right _ inside, id⟩
  obtain ⟨r, inR, id⟩ := kept
  obtain ⟨t, inT, rfl⟩ := hasPin_iff.mp has
  rw [single, List.mem_singleton] at inR inT
  exact hasPin_iff.mpr ⟨p, only ▸ List.mem_cons_self, by rw [← id, inR, inT]⟩

/-- The nodes of variables stem from nodes before. -/
def Rooted (rename : String → String) (g h : SubGraph) : Prop :=
  ∀ m ∈ h.nodes, m.isLocalVariable = true → ∃ n ∈ g.nodes, Stems rename n m

theorem rooted_refl (g : SubGraph) : Rooted id g g := fun m inside _ => ⟨m, inside, stems_refl m⟩

theorem rooted_trans (first : Rooted id g h) {k : SubGraph} (second : Rooted id h k) : Rooted id g k := by
  intro m inside relay
  obtain ⟨n, between, stems⟩ := second m inside relay
  obtain ⟨p, only, named⟩ := variable_shape relay
  obtain ⟨⟨_, reads, -⟩, -, -⟩ := stems _ named
  obtain ⟨x, before, stems'⟩ := first n between (named_variable reads)
  exact ⟨x, before, stems_trans stems' stems⟩

theorem rooted_same (nodes : ∀ m ∈ h.nodes, m.isLocalVariable = true → ∃ n ∈ g.nodes, SameFrame n m) : Rooted id g h := by
  intro m inside relay
  obtain ⟨n, before, same⟩ := nodes m inside relay
  exact ⟨n, before, stems_sameFrame same⟩

theorem rooted_revised (unique : UniqueIds g) (turns : Turns rename g h) (revised : Revised g h) : Rooted rename g h := by
  intro m inside _
  obtain ⟨n, before, grown, -⟩ := turns.nodes m inside
  obtain ⟨k, also, edited⟩ := LoweringSemantics.origin_of_mem revised.nodes inside
  cases node_eq_of_id unique before also (grown.id.symm.trans edited.id)
  exact ⟨n, before, stems_edited grown edited⟩

theorem joint_rooted (rooted : Rooted rename g h) (joint : Joint h l name before) :
    ∃ x y, Joint g l x y ∧ rename x = name ∧ rename y = before := by
  obtain ⟨⟨n, inN, sets, reads, ends⟩, m, inM, named, starts⟩ := joint
  obtain ⟨n', inN', stems⟩ := rooted n inN (named_variable reads)
  obtain ⟨m', inM', stems'⟩ := rooted m inM (named_variable named)
  obtain ⟨⟨x, readsX, renamed⟩, setter, pins⟩ := stems name reads
  obtain ⟨⟨y, readsY, renamed'⟩, -, pins'⟩ := stems' before named
  exact ⟨x, y, ⟨⟨n', inN', setter sets, readsX, pins _ ends⟩, m', inM', readsY, pins' _ starts⟩, renamed, renamed'⟩

theorem drawsOn_rooted (rooted : Rooted rename g h) (links : h.links ⊆ g.links) (draws : DrawsOn h name before) :
    ∃ x y, DrawsOn g x y ∧ rename x = name ∧ rename y = before := by
  obtain ⟨l, link, joint⟩ := draws
  obtain ⟨x, y, joint, same⟩ := joint_rooted rooted joint
  exact ⟨x, y, ⟨l, links link, joint⟩, same⟩

end PoseGraph.VariableFeeds
