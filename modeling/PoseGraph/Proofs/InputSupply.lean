import PoseGraph.Proofs.GraphWiring

/-! What the inputs of a graph hold. An input that a link ends in is void. An input of
a single value that no link ends in holds a literal, which it gets back when its link
is taken away: no template leaves such an input void. -/
namespace PoseGraph.InputSupply
open GraphDependencies GraphWiring LinkEdits NodeCraft NodeEdits NodeFrames Rearrangement StateEdits

variable {g h k : SubGraph} {l x : Link} {n m : Node} {p q : Pin} {pin : PinId} {v : Value} {ids : List NodeId}
variable {clips : Prop} {except : Option PinId} {kind : GraphKind} {R S : Pin → Pin → Prop} {dead : List Link}

/-! ## What has to hold -/

theorem isVoid_iff : v.isVoid = true ↔ v = .void := by
  cases v <;> simp [Value.isVoid]

/-- A link ends in a pin. -/
def Fed (g : SubGraph) (pin : PinId) : Prop := ∃ l ∈ g.links, l.target = pin

/-- The input by which a player takes its clip. -/
def TakesClip (n : Node) (p : Pin) : Prop :=
  n.category = "Animation" ∧ n.name = "Animation Player" ∧ p.name = "Animation"

/-- Only arrays are declared void, and quick states pass on nothing but triggers. -/
structure Neat (n : Node) : Prop where
  bound : Bound n
  rests : n.category = "Array" → ∀ p ∈ n.inputs, p.storage = .value → p.name ≠ "Array"
  quick : n.kind = .quickState → (∀ p ∈ n.outputs, p.isFlow = true) ∧ ∀ p ∈ n.inputs, p.storage = .value

/-- Inputs are void if and only if a link ends in them. Players may lack a clip, as far
as that is granted. In the middle of an edit, one pin may be an exception. -/
structure Supplied (clips : Prop) (except : Option PinId) (g : SubGraph) : Prop where
  neat : ∀ n ∈ g.nodes, Neat n
  directed : Directed g
  apart : ∀ l ∈ g.links, ∀ x ∈ g.links, l.target = x.target → l = x ∨ some l.target = except
  void : ∀ n ∈ g.nodes, ∀ p ∈ n.inputs, Fed g p.id → p.value.isVoid = true ∨ some p.id = except
  filled : ∀ n ∈ g.nodes, ∀ p ∈ n.inputs, p.storage = .value → p.value.isVoid = true →
    Fed g p.id ∨ (clips ∧ TakesClip n p) ∨ some p.id = except

theorem supplied_empty : Supplied clips except .empty :=
  ⟨List.forall_mem_nil _, List.forall_mem_nil _, List.forall_mem_nil _, List.forall_mem_nil _, List.forall_mem_nil _⟩

/-- Granting an exception. -/
theorem supplied_exempt (supplied : Supplied clips none g) (except : Option PinId) : Supplied clips except g where
  neat := supplied.neat
  directed := supplied.directed
  apart := fun l link x also same => (supplied.apart l link x also same).imp_right fun none => nomatch none
  void := fun n member p inside fed => (supplied.void n member p inside fed).imp_right fun none => nomatch none
  filled := fun n member p inside single void =>
    (supplied.filled n member p inside single void).imp_right fun either => either.imp_right fun none => nomatch none

/-- Granting that clips are lost. -/
theorem supplied_grant (supplied : Supplied clips except g) : Supplied True except g :=
  { supplied with
    filled := fun n member p inside single void =>
      (supplied.filled n member p inside single void).imp_right (Or.imp_left (And.imp_left fun _ => trivial)) }

/-- An input that one link ends in, and that is void, is no exception. -/
theorem supplied_unexempt (supplied : Supplied clips (some pin) g) (fed : Fed g pin)
    (single : ∀ l ∈ g.links, ∀ x ∈ g.links, l.target = pin → x.target = pin → l = x)
    (void : ∀ n ∈ g.nodes, ∀ p ∈ n.inputs, p.id = pin → p.value.isVoid = true) : Supplied clips none g where
  neat := supplied.neat
  directed := supplied.directed
  apart := fun l link x also same => .inl <| (supplied.apart l link x also same).elim (fun equal => equal) fun here =>
    single l link x also (Option.some.inj here) (same.symm.trans (Option.some.inj here))
  void := fun n member p inside ends => .inl <| (supplied.void n member p inside ends).elim (fun void => void) fun here =>
    void n member p inside (Option.some.inj here)
  filled := by
    intro n member p inside one empty
    rcases supplied.filled n member p inside one empty with ends | granted | here
    · exact .inl ends
    · exact .inr (.inl granted)
    · exact .inl (Option.some.inj here ▸ fed)

/-! ## What an edit has to keep -/

theorem sameFrame_neat (same : SameFrame n m) (neat : Neat n) : Neat m where
  bound := sameFrame_bound same neat.bound
  rests := by
    intro array p inside single
    obtain ⟨q, member, frames⟩ := pin_counterpart same.inputs inside
    have named : q.name = p.name := (congrArg Pin.name frames :)
    exact named ▸ neat.rests (same.category ▸ array) q member ((congrArg Pin.storage frames).trans single)
  quick := by
    intro quick
    obtain ⟨flows, singles⟩ := neat.quick ((sameFrame_kind same).symm.trans quick)
    constructor
    · intro p inside
      obtain ⟨q, member, frames⟩ := pin_counterpart same.outputs inside
      have types : q.type = p.type := (congrArg Pin.type frames :)
      rw [Pin.isFlow, ← types]
      exact flows q member
    · intro p inside
      obtain ⟨q, member, frames⟩ := pin_counterpart same.inputs inside
      exact (congrArg Pin.storage frames).symm.trans (singles q member)

theorem takesClip_frames (same : SameFrame n m) (frames : pinFrame p = pinFrame q) (takes : TakesClip n p) : TakesClip m q :=
  ⟨same.category.trans takes.1, same.name.trans takes.2.1, (congrArg Pin.name frames).symm.trans takes.2.2⟩

/-- What an edit may make of an input: it is as before, and linked if it was; it is not
linked and holds a literal; or it is the exception. -/
def Served (clips : Prop) (except : Option PinId) (g h : SubGraph) (m : Node) (q : Pin) : Prop :=
  (∃ n ∈ g.nodes, ∃ p ∈ n.inputs, p.id = q.id ∧ p.value = q.value ∧ p.storage = q.storage ∧
    (TakesClip n p → TakesClip m q) ∧ (Fed g q.id → Fed h q.id)) ∨
  (¬Fed h q.id ∧ (q.storage = .value → q.value.isVoid = true → clips ∧ TakesClip m q)) ∨ some q.id = except

/-- Edits that add no links. -/
theorem supplied_served (supplied : Supplied clips except g) (neat : ∀ m ∈ h.nodes, Neat m) (directed : Directed h)
    (links : ∀ l ∈ h.links, l ∈ g.links) (served : ∀ m ∈ h.nodes, ∀ q ∈ m.inputs, Served clips except g h m q) :
    Supplied clips except h where
  neat := neat
  directed := directed
  apart := fun l link x also => supplied.apart l (links l link) x (links x also)
  void := by
    rintro m inside q input ⟨l, link, ends⟩
    rcases served m inside q input with ⟨n, member, p, before, id, value, -, -, -⟩ | ⟨unfed, -⟩ | here
    · rw [← value, ← id]
      exact supplied.void n member p before ⟨l, links l link, ends.trans id.symm⟩
    · exact absurd ⟨l, link, ends⟩ unfed
    · exact .inr here
  filled := by
    intro m inside q input single void
    rcases served m inside q input with ⟨n, member, p, before, id, value, storage, clip, fed⟩ | ⟨-, granted⟩ | here
    · rw [← value] at void
      rcases supplied.filled n member p before (storage.trans single) void with ends | granted | here
      · exact .inl (fed (id ▸ ends))
      · exact .inr (.inl ⟨granted.1, clip granted.2⟩)
      · exact .inr (.inr (id ▸ here))
    · exact .inr (.inl (granted single void))
    · exact .inr (.inr here)

/-- Links stay directed where their pins stay. -/
theorem directed_pins (directed : Directed g) (links : ∀ l ∈ h.links, l ∈ g.links)
    (outputs : ∀ l ∈ h.links, ∀ n ∈ g.nodes, ∀ p ∈ n.outputs, p.id = l.source → ∃ m ∈ h.nodes, ∃ q ∈ m.outputs, q.id = p.id)
    (inputs : ∀ l ∈ h.links, ∀ n ∈ g.nodes, ∀ p ∈ n.inputs, p.id = l.target → ∃ m ∈ h.nodes, ∃ q ∈ m.inputs, q.id = p.id) :
    Directed h := by
  intro l link
  obtain ⟨⟨m, inM, p, output, source⟩, n, inN, q, input, target⟩ := directed l (links l link)
  obtain ⟨m', inM', p', output', sameP⟩ := outputs l link m inM p output source
  obtain ⟨n', inN', q', input', sameQ⟩ := inputs l link n inN q input target
  exact ⟨⟨m', inM', p', output', sameP.trans source⟩, n', inN', q', input', sameQ.trans target⟩

theorem directed_kept (kept : Kept g h) (directed : Directed g) : Directed h := by
  refine directed_pins directed (fun l link => kept.links.subset link) (fun l _ n member p inside _ => ?_)
    fun l _ n member p inside _ => ?_
  · obtain ⟨m, survives, same⟩ := kept_survivor kept.nodes member
    obtain ⟨q, also, frames⟩ := pin_counterpart same.outputs.symm inside
    exact ⟨m, survives, q, also, (congrArg Pin.id frames :)⟩
  · obtain ⟨m, survives, same⟩ := kept_survivor kept.nodes member
    obtain ⟨q, also, frames⟩ := pin_counterpart same.inputs.symm inside
    exact ⟨m, survives, q, also, (congrArg Pin.id frames :)⟩

/-! ## Literals -/

/-- Every input stems from one that differs in nothing but its literal, and the two are
related. -/
def Traced (R : Pin → Pin → Prop) (g h : SubGraph) : Prop :=
  ∀ m ∈ h.nodes, ∃ n ∈ g.nodes, SameFrame n m ∧ ∀ q ∈ m.inputs, ∃ p ∈ n.inputs, pinFrame p = pinFrame q ∧ R p q

theorem traced_refl (related : ∀ p, R p p) (g : SubGraph) : Traced R g g :=
  fun m inside => ⟨m, inside, ⟨rfl, rfl, rfl, rfl, rfl, rfl⟩, fun q input => ⟨q, input, rfl, related q⟩⟩

theorem traced_trans (first : Traced R g h) (second : Traced S h k) :
    Traced (fun p q => ∃ r, pinFrame p = pinFrame r ∧ R p r ∧ S r q) g k := by
  intro m inside
  obtain ⟨y, inH, sameM, laterPins⟩ := second m inside
  obtain ⟨n, member, sameY, pins⟩ := first y inH
  refine ⟨n, member, sameFrame_trans sameY sameM, fun q input => ?_⟩
  obtain ⟨r, inY, framesQ, after⟩ := laterPins q input
  obtain ⟨p, before, framesR, related⟩ := pins r inY
  exact ⟨p, before, framesR.trans framesQ, r, framesR, related, after⟩

theorem traced_imp (traced : Traced R g h) (weaker : ∀ p q, pinFrame p = pinFrame q → R p q → S p q) : Traced S g h := by
  intro m inside
  obtain ⟨n, member, same, pins⟩ := traced m inside
  refine ⟨n, member, same, fun q input => ?_⟩
  obtain ⟨p, before, frames, related⟩ := pins q input
  exact ⟨p, before, frames, weaker p q frames related⟩

/-- An input that is still there has stayed related to what it was. -/
theorem traced_survivor (unique : UniqueIds g) (nodes : (h.nodes.map frame).Perm (g.nodes.map frame)) (traced : Traced R g h)
    (member : n ∈ g.nodes) (input : p ∈ n.inputs) :
    ∃ m ∈ h.nodes, SameFrame n m ∧ ∃ q ∈ m.inputs, pinFrame p = pinFrame q ∧ R p q := by
  obtain ⟨m, survives, same⟩ := kept_survivor nodes member
  obtain ⟨q, also, frames⟩ := pin_counterpart same.inputs.symm input
  obtain ⟨y, before, origin, pins⟩ := traced m survives
  obtain rfl := node_eq_of_id unique before member (origin.id.symm.trans same.id)
  obtain ⟨x, earlier, frame, related⟩ := pins q also
  have ids : x.id = p.id := (congrArg Pin.id (frame.trans frames) :)
  rw [pin_eq_of_id unique member member (List.mem_append_left _ earlier) (List.mem_append_left _ input) ids] at related
  exact ⟨m, survives, same, q, also, frames.symm, related⟩

/-- Edits of literals, possibly with links taken away. -/
theorem supplied_traced (supplied : Supplied clips except g) (kept : Kept g h) (traced : Traced R g h)
    (serves : ∀ p q, pinFrame p = pinFrame q → R p q →
      q.value = p.value ∧ (Fed g q.id → Fed h q.id) ∨ ¬Fed h q.id ∧ (q.storage = .value → q.value.isVoid = false) ∨
        some q.id = except) : Supplied clips except h := by
  refine supplied_served supplied (fun m inside => ?_) (directed_kept kept supplied.directed)
    (fun l link => kept.links.subset link) fun m inside q input => ?_
  · obtain ⟨n, member, same, -⟩ := traced m inside
    exact sameFrame_neat same (supplied.neat n member)
  · obtain ⟨n, member, same, pins⟩ := traced m inside
    obtain ⟨p, before, frames, related⟩ := pins q input
    rcases serves p q frames related with ⟨value, fed⟩ | ⟨unfed, literal⟩ | here
    · exact .inl ⟨n, member, p, before, (congrArg Pin.id frames :), value.symm, (congrArg Pin.storage frames :),
        takesClip_frames same frames, fed⟩
    · refine .inr (.inl ⟨unfed, fun single void => ?_⟩)
      rw [literal single] at void
      cases void
    · exact .inr (.inr here)

theorem unique_kept (kept : Kept g h) (unique : UniqueIds g) : UniqueIds h where
  nodes := by
    have perm := kept.nodes.map Node.id
    simp only [List.map_map] at perm
    have blind : Node.id ∘ frame = Node.id := rfl
    rw [blind] at perm
    exact perm.nodup_iff.mpr unique.nodes
  pins := by
    have perm := (kept.nodes.flatMap_right fun n => n.pins.map Pin.id)
    simp only [List.flatMap_map] at perm
    have blind (n : Node) : (frame n).pins.map Pin.id = n.pins.map Pin.id := by
      simp only [frame, Node.pins, List.map_append, List.map_map]
      rfl
    simp only [blind, ← List.map_flatMap] at perm
    exact perm.nodup_iff.mpr unique.pins

/-- Setting the literal of a pin sets no other. -/
theorem traced_withValue (g : SubGraph) (pin : PinId) (v : Value) :
    Traced (fun p q => q.value = p.value ∨ p.id = pin ∧ q.value = v) g (g.modifyPin pin (·.withValue v)) := by
  have pins (ps : List Pin) : List.Forall₂ (fun p q => pinFrame p = pinFrame q ∧ (q.value = p.value ∨ p.id = pin ∧ q.value = v))
      ps (Node.modifyFirst (·.id == pin) (·.withValue v) ps) :=
    forall₂_modifyFirst (fun _ => ⟨rfl, .inl rfl⟩) fun p _ passes => ⟨rfl, .inr ⟨by simpa using passes, rfl⟩⟩
  have each : List.Forall₂ (fun n m => SameFrame n m ∧ ∀ q ∈ m.inputs, ∃ p ∈ n.inputs, pinFrame p = pinFrame q ∧
      (q.value = p.value ∨ p.id = pin ∧ q.value = v)) g.nodes (g.modifyPin pin (·.withValue v)).nodes := by
    refine forall₂_modifyFirst (fun n => ⟨⟨rfl, rfl, rfl, rfl, rfl, rfl⟩, fun q input => ⟨q, input, rfl, .inl rfl⟩⟩)
      fun n _ _ => ⟨sameFrame_of_frame (frame_modifyPin n pin v), fun q input => ?_⟩
    rw [Node.modifyPin] at input
    split at input
    · exact LoweringSemantics.origin_of_mem (pins n.inputs) input
    · exact ⟨q, input, rfl, .inl rfl⟩
  exact fun m inside => LoweringSemantics.origin_of_mem each inside

/-- Setting the literal of an input. -/
theorem withValue_hits (unique : UniqueIds g) (member : n ∈ g.nodes) (input : p ∈ n.inputs) (v : Value) :
    ∃ m ∈ (g.modifyPin p.id (·.withValue v)).nodes, ∃ q ∈ m.inputs, q.id = p.id ∧ q.value = v := by
  have has : n.hasPin p.id = true := hasPin_iff.mpr ⟨p, List.mem_append_left _ input, rfl⟩
  have found : g.nodes.find? (·.hasPin p.id) = some n :=
    find_unique member has fun y inside also => node_eq_of_pin unique inside member also has
  obtain ⟨before, after, -, modified, -⟩ := modifyFirst_eq (f := (·.modifyPin p.id (·.withValue v))) found
  refine ⟨n.modifyPin p.id (·.withValue v), by simp [SubGraph.modifyPin, modified], ?_⟩
  have inputs : n.inputs.any (·.id == p.id) = true := List.any_eq_true.mpr ⟨p, input, beq_self_eq_true _⟩
  obtain ⟨r, first⟩ := Option.isSome_iff_exists.mp (List.find?_isSome.mpr (List.any_eq_true.mp inputs))
  obtain ⟨left, right, -, replaced, -⟩ := modifyFirst_eq (f := (·.withValue v)) first
  rw [Node.modifyPin, if_pos inputs]
  exact ⟨r.withValue v, by simp [replaced], by simpa [Pin.withValue] using List.find?_some first, rfl⟩

/-- The literal of an input is the one that has been set. -/
theorem traced_set (unique : UniqueIds g) (pin : PinId) (v : Value) :
    Traced (fun p q => (p.id ≠ pin → q.value = p.value) ∧ (p.id = pin → q.value = v)) g (g.modifyPin pin (·.withValue v)) := by
  have after := unique_kept (kept_withValue g pin v) unique
  intro m inside
  obtain ⟨n, member, same, pins⟩ := traced_withValue g pin v m inside
  refine ⟨n, member, same, fun q input => ?_⟩
  obtain ⟨p, before, frames, related⟩ := pins q input
  refine ⟨p, before, frames, fun other => related.resolve_right fun both => other both.1, ?_⟩
  rintro rfl
  obtain ⟨y, inY, r, also, named, value⟩ := withValue_hits unique member before v
  have ids : p.id = q.id := (congrArg Pin.id frames :)
  rw [pin_eq_of_id after inside inY (List.mem_append_left _ input) (List.mem_append_left _ also) (ids.symm.trans named.symm)]
  exact value

theorem value_set (unique : UniqueIds g) (pin : PinId) (v : Value) :
    ∀ n ∈ (g.modifyPin pin (·.withValue v)).nodes, ∀ p ∈ n.inputs, p.id = pin → p.value = v := by
  intro n member p input named
  obtain ⟨m, -, -, pins⟩ := traced_set unique pin v n member
  obtain ⟨q, -, frames, -, set⟩ := pins p input
  exact set ((congrArg Pin.id frames).trans named)

theorem not_fed_of_isLinked (unlinked : g.isLinked pin = false) : ¬Fed g pin := by
  rintro ⟨l, link, ends⟩
  have touches := List.any_eq_false.mp unlinked l link
  simp [Link.touches, ends] at touches

/-- An input that a link touches is one that a link ends in. -/
theorem fed_of_isLinked (supplied : Supplied clips except g) (unique : UniqueIds g) (member : n ∈ g.nodes) (input : p ∈ n.inputs)
    (linked : g.isLinked p.id = true) : Fed g p.id := by
  obtain ⟨l, link, touches⟩ := List.any_eq_true.mp linked
  rw [Link.touches, Bool.or_eq_true, beq_iff_eq, beq_iff_eq] at touches
  refine touches.elim (fun leaves => ?_) fun arrives => ⟨l, link, arrives⟩
  obtain ⟨⟨m, inside, q, output, source⟩, -⟩ := supplied.directed l link
  have kind := ((supplied.neat m inside).bound.outputs q output).2
  rw [pin_eq_of_id unique inside member (List.mem_append_right _ output) (List.mem_append_left _ input) (source.trans leaves),
    ((supplied.neat n member).bound.inputs p input).2] at kind
  cases kind

theorem supplied_withValue (supplied : Supplied clips except g) (free : ¬Fed g pin ∨ some pin = except)
    (literal : v.isVoid = false ∨ some pin = except) : Supplied clips except (g.modifyPin pin (·.withValue v)) := by
  refine supplied_traced supplied (kept_withValue g pin v) (traced_withValue g pin v) fun p q frames related => ?_
  have ids : p.id = q.id := (congrArg Pin.id frames :)
  rcases related with same | ⟨rfl, set⟩
  · exact .inl ⟨same, fun fed => fed⟩
  · rw [ids] at free literal
    rcases free with unfed | here
    · rcases literal with some_ | here
      · exact .inr (.inl ⟨unfed, fun _ => set ▸ some_⟩)
      · exact .inr (.inr here)
    · exact .inr (.inr here)

theorem supplied_restPose (supplied : Supplied clips except g) : Supplied clips except g.restPose := by
  rw [SubGraph.restPose]
  split
  · exact supplied
  · split
    · exact supplied
    · rename_i unlinked
      exact supplied_withValue supplied (.inl (not_fed_of_isLinked (by simpa using unlinked))) (.inl rfl)

/-- A pin of a node that is an output by its name. -/
def AtOutput (g : SubGraph) (pin : PinId) : Prop := ∃ n ∈ g.nodes, n.name = "Output" ∧ n.hasPin pin = true

theorem atOutput_kept (kept : Kept g h) (out : AtOutput h pin) : AtOutput g pin := by
  obtain ⟨m, inside, named, has⟩ := out
  obtain ⟨n, member, same⟩ := kept_origin kept.nodes inside
  exact ⟨n, member, same.name.symm.trans named, (sameFrame_hasPin same pin).symm.trans has⟩

theorem traced_restPose (g : SubGraph) : Traced (fun p q => AtOutput g p.id ∨ q.value = p.value) g g.restPose := by
  rw [SubGraph.restPose]
  split
  · exact traced_refl (fun _ => .inr rfl) g
  · rename_i p first
    obtain ⟨n, named, head⟩ := Option.bind_eq_some_iff.mp first
    split
    · exact traced_refl (fun _ => .inr rfl) g
    · refine traced_imp (traced_withValue g p.id (.int64 0)) fun x y _ related => related.symm.imp_left fun both => ?_
      refine ⟨n, List.mem_of_find?_eq_some named, by simpa using List.find?_some named, ?_⟩
      exact hasPin_iff.mpr ⟨p, List.mem_append_left _ (List.mem_of_mem_head? head), both.1.symm⟩

theorem restPose_links (g : SubGraph) : g.restPose.links = g.links := by
  rw [SubGraph.restPose]
  split
  · rfl
  · split <;> rfl

/-! ## Resetting inputs -/

/-- What holds of a template: its inputs hold literals unless they take arrays, and none
but those are named as arrays are. -/
structure Furnished (category : String) (template : Node) : Prop where
  filled : ∀ p ∈ template.inputs, p.storage = .value → p.value.isVoid = false
  rests : category = "Array" → ∀ p ∈ template.inputs, p.storage = .value → p.name ≠ "Array"
  arrays : ∀ p ∈ template.inputs, p.value.isVoid = true → category = "Array" ∧ p.name = "Array"
  quick : ({ template with category } : Node).kind = .quickState →
    (∀ p ∈ template.outputs, p.isFlow = true) ∧ ∀ p ∈ template.inputs, p.storage = .value
  player : template.name = "Animation Player" → category = "Animation" ∧
    (template.inputs.head?.any fun p => p.name == "Animation" && p.storage == .value) = true

instance (category : String) (template : Node) : Decidable (Furnished category template) :=
  decidable_of_iff ((∀ p ∈ template.inputs, p.storage = .value → p.value.isVoid = false) ∧
      (category = "Array" → ∀ p ∈ template.inputs, p.storage = .value → p.name ≠ "Array") ∧
      (∀ p ∈ template.inputs, p.value.isVoid = true → category = "Array" ∧ p.name = "Array") ∧
      (({ template with category } : Node).kind = .quickState →
        (∀ p ∈ template.outputs, p.isFlow = true) ∧ ∀ p ∈ template.inputs, p.storage = .value) ∧
      (template.name = "Animation Player" → category = "Animation" ∧
        (template.inputs.head?.any fun p => p.name == "Animation" && p.storage == .value) = true))
    ⟨fun ⟨filled, rests, arrays, quick, player⟩ => ⟨filled, rests, arrays, quick, player⟩,
      fun ⟨filled, rests, arrays, quick, player⟩ => ⟨filled, rests, arrays, quick, player⟩⟩

/-- All templates are furnished. -/
theorem palettes_furnished (kind : GraphKind) : ∀ shelf ∈ (Palette.ofKind kind).registry.entries,
    ∀ entry ∈ shelf.2.entries, Furnished shelf.1 entry.2 := by
  cases kind <;> decide +kernel

theorem template_furnished {category name : String} {template : Node}
    (found : (Palette.ofKind kind).template? category name = some template) : Furnished category template := by
  obtain ⟨shelf, held, entry⟩ := Option.bind_eq_some_iff.mp found
  exact palettes_furnished kind (category, shelf) (AssetOrder.get_eq_some_iff.mp held) (name, template)
    (AssetOrder.get_eq_some_iff.mp entry)

theorem defaultValue_filled (type : PinType) : type.defaultValue.isVoid = false := by
  cases type <;> rfl

/-- An input of a single value rests at a literal. -/
theorem restValue_filled (neat : Neat n) (input : p ∈ n.inputs) (single : p.storage = .value) :
    (SubGraph.restValue (.ofKind kind) n p).isVoid = false := by
  rw [SubGraph.restValue]
  cases declared : (Palette.ofKind kind).declaredValue? n p.name with
  | none =>
    rw [Option.getD_none, Pin.fallbackValue, single]
    exact defaultValue_filled p.type
  | some v =>
    rw [Option.getD_some]
    obtain ⟨template, found, given⟩ := Option.bind_eq_some_iff.mp declared
    obtain ⟨q, first, rfl⟩ := Option.map_eq_some_iff.mp given
    have named : q.name = p.name := by simpa using List.find?_some first
    by_contra void
    obtain ⟨array, arrayName⟩ := (template_furnished found).arrays q (List.mem_of_find?_eq_some first)
      (Bool.not_eq_false _ ▸ void)
    exact neat.rests array p input single (named.symm.trans arrayName)

/-- Some inputs have been reset, and no others. -/
def Reset (pins : List PinId) (p q : Pin) : Prop :=
  (p.id ∉ pins → q.value = p.value) ∧ (p.id ∈ pins → q.storage = .value → q.value.isVoid = false)

/-- A pin that is no input of the graph is left alone. -/
theorem traced_absent (no : ∀ n ∈ g.nodes, ∀ p ∈ n.inputs, p.id ≠ pin) : Traced (Reset [pin]) g g := fun m inside =>
  ⟨m, inside, ⟨rfl, rfl, rfl, rfl, rfl, rfl⟩, fun q input =>
    ⟨q, input, rfl, fun _ => rfl, fun named => absurd (List.mem_singleton.mp named) (no m inside q input)⟩⟩

theorem traced_resetPin (kind : GraphKind) (neat : ∀ n ∈ g.nodes, Neat n) (unique : UniqueIds g) (pin : PinId) :
    Traced (Reset [pin]) g (g.resetPin (.ofKind kind) pin) := by
  rw [SubGraph.resetPin]
  split
  · rename_i missing
    refine traced_absent fun n member p input named => ?_
    have none := List.find?_eq_none.mp missing n member
    exact none (hasPin_iff.mpr ⟨p, List.mem_append_left _ input, named⟩)
  · rename_i n owned
    obtain ⟨member, has⟩ := nodeOfPin_spec owned
    split
    · rename_i missing
      obtain ⟨p, inside, named⟩ := hasPin_iff.mp has
      exact absurd (beq_iff_eq.mpr named) (List.find?_eq_none.mp missing p inside)
    · rename_i p found
      have inside : p ∈ n.pins := List.mem_of_find?_eq_some found
      have named : p.id = pin := by simpa using List.find?_some found
      have same {m : Node} {q : Pin} (also : m ∈ g.nodes) (input : q ∈ m.inputs) (ids : q.id = pin) : q = p :=
        pin_eq_of_id unique also member (List.mem_append_left _ input) inside (ids.trans named.symm)
      split
      · rename_i output
        refine traced_absent fun m also q input ids => ?_
        have kind := ((neat m also).bound.inputs q input).2
        rw [same also input ids, output] at kind
        cases kind
      · rename_i notOutput
        have input : p ∈ n.inputs := (List.mem_append.mp inside).resolve_right fun output =>
          notOutput ((neat n member).bound.outputs p output).2
        intro m after
        obtain ⟨y, before, frames, pins⟩ := traced_set unique pin (SubGraph.restValue (.ofKind kind) n p) m after
        refine ⟨y, before, frames, fun q later => ?_⟩
        obtain ⟨r, earlier, frame, others, this⟩ := pins q later
        refine ⟨r, earlier, frame, fun other => others (List.mem_singleton.not.mp other), fun here single => ?_⟩
        have ids := List.mem_singleton.mp here
        rw [this ids]
        refine restValue_filled (neat n member) input ?_
        rw [← same before earlier ids]
        exact (congrArg Pin.storage frame).trans single

theorem traced_neat (traced : Traced R g h) (neat : ∀ n ∈ g.nodes, Neat n) : ∀ m ∈ h.nodes, Neat m := by
  intro m inside
  obtain ⟨n, member, same, -⟩ := traced m inside
  exact sameFrame_neat same (neat n member)

theorem resetPin_links {palette : Palette} (g : SubGraph) (pin : PinId) : (g.resetPin palette pin).links = g.links := by
  rw [SubGraph.resetPin]
  split
  · rfl
  · split
    · rfl
    · split <;> rfl

/-- Pins may be reset one after the other. -/
theorem traced_resetPins (kind : GraphKind) (pins : List PinId) (neat : ∀ n ∈ g.nodes, Neat n) (unique : UniqueIds g) :
    Traced (Reset pins) g (pins.foldl (SubGraph.resetPin (.ofKind kind)) g) ∧
      (pins.foldl (SubGraph.resetPin (.ofKind kind)) g).links = g.links := by
  induction pins generalizing g with
  | nil => exact ⟨traced_refl (fun p => ⟨fun _ => rfl, fun inside => nomatch inside⟩) g, rfl⟩
  | cons pin pins ih =>
    have first := traced_resetPin kind neat unique pin
    obtain ⟨later, links⟩ := ih (traced_neat first neat) (unique_kept (kept_resetPin g pin) unique)
    refine ⟨traced_imp (traced_trans first later) fun p q frames => ?_, links.trans (resetPin_links g pin)⟩
    rintro ⟨r, between, ⟨sameR, resetR⟩, sameQ, resetQ⟩
    have ids : p.id = r.id := (congrArg Pin.id between :)
    have storages : r.storage = q.storage := (congrArg Pin.storage (between.symm.trans frames) :)
    rw [← ids] at sameQ resetQ
    refine ⟨fun outside => ?_, fun inside single => ?_⟩
    · rw [List.mem_cons, not_or] at outside
      exact (sameQ outside.2).trans (sameR (List.mem_singleton.not.mpr outside.1))
    · by_cases again : p.id ∈ pins
      · exact resetQ again single
      · rw [sameQ again]
        exact resetR (List.mem_singleton.mpr ((List.mem_cons.mp inside).resolve_right again)) (storages.trans single)

/-- Links that are dropped leave their ends with literals, and all other literals alone. -/
theorem supplied_dropLinks (kind : GraphKind) (supplied : Supplied clips except g) (unique : UniqueIds g)
    (distinct : (g.links.map Link.id).Nodup) (listed : ∀ d ∈ dead, d ∈ g.links) :
    Supplied clips except (g.dropLinks (.ofKind kind) dead) ∧
      (∀ l, l ∈ (g.dropLinks (.ofKind kind) dead).links ↔ l ∈ g.links ∧ l ∉ dead) ∧
      Traced (Reset (dead.map Link.target)) g (g.dropLinks (.ofKind kind) dead) := by
  obtain ⟨traced, links⟩ := traced_resetPins kind (dead.map Link.target) supplied.neat unique
  have left (l : Link) : l ∈ (g.dropLinks (.ofKind kind) dead).links ↔ l ∈ g.links ∧ l ∉ dead := by
    rw [SubGraph.dropLinks]
    dsimp only
    rw [links, List.mem_filter, Bool.not_eq_true', List.any_eq_false]
    simp only [beq_iff_eq]
    refine and_congr_right fun link => ⟨fun apart doomed => apart l doomed rfl, fun spared d doomed same => spared ?_⟩
    rwa [← List.inj_on_of_nodup_map distinct (listed d doomed) link same]
  have reset : Traced (Reset (dead.map Link.target)) g (g.dropLinks (.ofKind kind) dead) := traced
  refine ⟨?_, left, reset⟩
  refine supplied_traced supplied (kept_dropLinks g dead) reset fun p q frames related => ?_
  obtain ⟨others, resets⟩ := related
  have ids : p.id = q.id := (congrArg Pin.id frames :)
  by_cases exempt : some q.id = except
  · exact .inr (.inr exempt)
  by_cases doomed : q.id ∈ dead.map Link.target
  · refine .inr (.inl ⟨?_, resets (ids.symm ▸ doomed)⟩)
    obtain ⟨d, dropped, ends⟩ := List.mem_map.mp doomed
    rintro ⟨l, link, also⟩
    obtain ⟨before, spared⟩ := (left l).mp link
    refine (supplied.apart l before d (listed d dropped) (also.trans ends.symm)).elim (fun equal => ?_) fun here => ?_
    · exact spared (equal ▸ dropped)
    · exact exempt (also ▸ here)
  · refine .inl ⟨others (ids.symm ▸ doomed), ?_⟩
    rintro ⟨l, link, ends⟩
    exact ⟨l, (left l).mpr ⟨link, fun dropped => doomed (ends ▸ List.mem_map_of_mem dropped)⟩, ends⟩

end PoseGraph.InputSupply
