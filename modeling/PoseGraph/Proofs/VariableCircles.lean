import PoseGraph.Proofs.FeedEdits
import PoseGraph.Proofs.LinkDisplacement

/-! Circles of variables. Callers who ask before linking link no variable to itself, but
the verdict looks at the two nodes only, so that two variables can be made to feed each
other. A circle begins just where a link leads from a variable to the setter of one that
it is led back to. -/
namespace PoseGraph.VariableCircles
open AssetOrder EditRuns Editor EditorCoherence EditorSoundness FeedEdits GraphDependencies GraphWiring LinkDisplacement
  LinkInvariant LinkingEdits NamingEdits NodeFrames PropertyEdits PropertyKeys ReachableEditors Relation SheddingEdits Validity
  VariableChains VariableFeeds VariablePlugs

variable {e f : Editor} {g h : SubGraph} {l x : Link} {m n : Node} {owner : NodeId} {start finish source target : PinId}
variable {type : PinType} {name before name' before' : String} {kind : PropertyKind} {old new : String}
variable {edit : Edit} {edits : List Edit} {except : Option NodeId} {r s : String → String → Prop}

/-! ## Ways -/

/-- One more pair closes a circle only on a way back that was there. -/
theorem transGen_added {x y a b : String} (each : ∀ a b, s a b → r a b ∨ a = x ∧ b = y) (path : TransGen s a b) :
    TransGen r a b ∨ ReflTransGen r a x ∧ ReflTransGen r y b := by
  induction path with
  | single last =>
    rcases each _ _ last with old | ⟨rfl, rfl⟩
    · exact .inl (.single old)
    · exact .inr ⟨.refl, .refl⟩
  | tail _ last ih =>
    rcases each _ _ last with old | ⟨rfl, rfl⟩
    · exact ih.imp (.tail · old) fun both => ⟨both.1, both.2.tail old⟩
    · rcases ih with way | both
      · exact .inr ⟨way.to_reflTransGen, .refl⟩
      · exact .inr ⟨both.1, .refl⟩

/-- A way need not go on from where it leads. -/
theorem reaches_once {a b : String} (path : ReflTransGen r a b) : ReflTransGen (fun x y => r x y ∧ x ≠ b) a b := by
  induction path using ReflTransGen.head_induction_on with
  | refl => exact .refl
  | @head x y first _ ih =>
    by_cases there : x = b
    · rw [there]
    · exact .head ⟨first, there⟩ ih

/-- A way between new names was one between the old names. -/
theorem transGen_renamed (known : String → Prop) {rename : String → String} {a b : String}
    (each : ∀ a b, s a b → ∃ x y, (known x ∧ known y ∧ r x y) ∧ rename x = a ∧ rename y = b)
    (apart : ∀ x y, known x → known y → rename x = rename y → x = y) (path : TransGen s a b) :
    ∃ x y, (known x ∧ known y ∧ TransGen r x y) ∧ rename x = a ∧ rename y = b := by
  induction path with
  | single last =>
    obtain ⟨x, y, ⟨inX, inY, draws⟩, same⟩ := each _ _ last
    exact ⟨x, y, ⟨inX, inY, .single draws⟩, same⟩
  | tail _ last ih =>
    obtain ⟨x, y, ⟨inX, inY, way⟩, rfl, rfl⟩ := ih
    obtain ⟨y', z, ⟨inY', inZ, draws⟩, same, rfl⟩ := each _ _ last
    -- No two names were made one, so that the ways meet where they met before.
    cases apart y' y inY' inY same
    exact ⟨x, z, ⟨inX, inZ, way.tail draws⟩, rfl, rfl⟩

/-! ## What a link closes -/

theorem joint_frames (nodes : (h.nodes.map frame).Perm (g.nodes.map frame)) : Joint h l name before ↔ Joint g l name before := by
  constructor
  · intro joint
    obtain ⟨x, y, same, rfl, rfl⟩ := joint_rooted (rooted_same fun m inside _ => kept_origin nodes inside) joint
    exact same
  · intro joint
    obtain ⟨x, y, same, rfl, rfl⟩ := joint_rooted (rooted_same fun m inside _ => kept_origin nodes.symm inside) joint
    exact same

/-- The second graph has one more link, which takes the place of those that arrived there. -/
def Replaces (l : Link) (g h : SubGraph) : Prop :=
  ∀ name before, DrawsOn h name before ↔ Joint g l name before ∨ ∃ x ∈ g.links, x.target ≠ l.target ∧ Joint g x name before

theorem replaces_createLinkIn (coherent : Coherent except e) (held : e.asset.graph? owner = some g)
    (oriented : orientLink g start finish = some (source, target, type)) :
    ∃ l h, l.source = source ∧ l.target = target ∧ (e.createLinkIn owner start finish).1.asset.graph? owner = some h ∧
      Replaces l g h := by
  obtain ⟨l, h, starts, ends, found, links⟩ := links_createLinkIn coherent held oriented
  obtain ⟨k, also, frames⟩ := frames_createLinkIn coherent held start finish
  cases found.symm.trans also
  refine ⟨l, h, starts, ends, found, fun name before => ?_⟩
  constructor
  · rintro ⟨x, link, joint⟩
    rw [joint_frames frames] at joint
    rcases (links x).mp link with rfl | ⟨old, apart⟩
    · exact .inl joint
    · exact .inr ⟨x, old, apart, joint⟩
  · rintro (joint | ⟨x, old, apart, joint⟩)
    · exact ⟨l, (links l).mpr (.inl rfl), (joint_frames frames).mpr joint⟩
    · exact ⟨x, (links x).mpr (.inr ⟨old, apart⟩), (joint_frames frames).mpr joint⟩

/-- A pin is a pin of one variable's nodes only. -/
theorem joint_target (unique : UniqueIds g) (left : Joint g l name before) (right : Joint g x name' before')
    (same : l.target = x.target) : name = name' := by
  obtain ⟨⟨n, inN, -, reads, ends⟩, -⟩ := left
  obtain ⟨⟨n', inN', -, reads', ends'⟩, -⟩ := right
  cases node_eq_of_pin unique inN inN' ends (same ▸ ends')
  exact Option.some.inj (reads.symm.trans reads')

theorem joint_source (unique : UniqueIds g) (left : Joint g l name before) (right : Joint g x name' before')
    (same : l.source = x.source) : before = before' := by
  obtain ⟨-, m, inM, named, starts⟩ := left
  obtain ⟨-, m', inM', named', starts'⟩ := right
  cases node_eq_of_pin unique inM inM' starts (same ▸ starts')
  exact Option.some.inj (named.symm.trans named')

/-- A link closes a circle exactly if there is a way back. -/
theorem circle_replaced_iff (unique : UniqueIds g) (replaces : Replaces l g h)
    (straight : ∀ name, ¬TransGen (DrawsOn g) name name) :
    (∃ name, TransGen (DrawsOn h) name name) ↔ ∃ name before, Joint g l name before ∧ ReflTransGen (DrawsOn g) before name := by
  constructor
  · rintro ⟨name, circle⟩
    by_cases some_ : ∃ a b, Joint g l a b
    · obtain ⟨a, b, joint⟩ := some_
      have each (x y : String) (draws : DrawsOn h x y) : DrawsOn g x y ∨ x = a ∧ y = b := by
        rcases (replaces x y).mp draws with new | ⟨z, link, -, old⟩
        · exact .inr ⟨joint_target unique new joint rfl, joint_source unique new joint rfl⟩
        · exact .inl ⟨z, link, old⟩
      rcases transGen_added each circle with old | ⟨back, onward⟩
      · exact absurd old (straight name)
      · exact ⟨a, b, joint, onward.trans back⟩
    · refine absurd (TransGen.mono (fun x y draws => ?_) _ _ circle) (straight name)
      rcases (replaces x y).mp draws with new | ⟨z, link, -, old⟩
      · exact absurd ⟨x, y, new⟩ some_
      · exact ⟨z, link, old⟩
  · rintro ⟨name, before, joint, back⟩
    refine ⟨name, .head' ((replaces name before).mpr (.inl joint)) ?_⟩
    refine ReflTransGen.mono (fun a b step => ?_) _ _ (reaches_once back)
    -- The links on the way back set other variables than the new one, so that they stay.
    obtain ⟨⟨x, link, other⟩, apart⟩ := step
    exact (replaces a b).mpr (.inr ⟨x, link, fun same => apart (joint_target unique other joint same), other⟩)

/-! ## Edits -/

/-- No variable of any graph is led back to itself. -/
def Straight (e : Editor) : Prop := ∀ owner g name, e.asset.graph? owner = some g → ¬Circular g name

/-- An edit links a node of a variable to the setter of another one that the variable is
led back to. -/
def Closes (e : Editor) : Edit → Prop
  | .createLink start finish => ∃ g source target type m n before name, e.activeGraph? = some g ∧
      orientLink g start finish = some (source, target, type) ∧ g.nodeOfPin? source = some m ∧ m.variableName? = some before ∧
      g.nodeOfPin? target = some n ∧ n.variableName? = some name ∧ ReflTransGen (FedBy g) before name
  | _ => False

theorem unique_graphOf (coherent : Coherent except e) (owner : NodeId) : UniqueIds (graphOf e.asset owner) := by
  cases held : e.asset.graph? owner with
  | none =>
    rw [graphOf_missing held]
    exact ⟨List.nodup_nil, List.nodup_nil⟩
  | some g =>
    rw [graphOf_eq held]
    exact identified_unique (identified_of_coherent coherent) held

theorem fedBy_eq {names : String → Prop} (coherent : Coherent except e) (sound : Sound names e) (owner : NodeId) :
    FedBy (graphOf e.asset owner) = DrawsOn (graphOf e.asset owner) := by
  funext name before
  exact propext (fedBy_iff_drawsOn (unique_graphOf coherent owner) (sound.setters owner) (sound.wired owner))

theorem straight_iff {names : String → Prop} (coherent : Coherent except e) (sound : Sound names e) :
    Straight e ↔ ∀ owner name, ¬TransGen (DrawsOn (graphOf e.asset owner)) name name := by
  constructor
  · intro straight owner name circle
    cases held : e.asset.graph? owner with
    | none =>
      rw [graphOf_missing held] at circle
      obtain ⟨_, ⟨_, link, _⟩, _⟩ := TransGen.head'_iff.mp circle
      cases link
    | some g =>
      refine straight owner g name held ?_
      rw [← fedBy_eq coherent sound, graphOf_eq held] at circle
      exact circle
  · intro straight owner g name held circle
    refine straight owner name ?_
    rw [← fedBy_eq coherent sound, graphOf_eq held]
    exact circle

theorem straight_noneFed (coherent : Coherent none e) (sound : Declared e) (after : Coherent none f) (later : Declared f)
    (noneFed : NoneFed e f) (straight : Straight e) : Straight f := by
  rw [straight_iff coherent sound] at straight
  rw [straight_iff after later]
  exact fun owner name circle => straight owner name (TransGen.mono (noneFed owner) _ _ circle)

/-- A node of a variable has one pin, so that it sets the variable if that is an input. -/
theorem sets_of_input {q : Pin} (named : n.variableName? = some name) (input : q ∈ n.inputs) : n.isSetter = true := by
  have relay := named_variable named
  obtain ⟨p, only, -⟩ := variable_shape relay
  have bound := congrArg List.length only
  rw [Node.pins, List.length_append, List.length_singleton] at bound
  have some_ := List.length_pos_of_mem input
  rw [Node.isSetter, relay, Bool.true_and, beq_iff_eq]
  omega

theorem orient_some {p q : Pin} (first : g.pin? start = some p) (second : g.pin? finish = some q) :
    ∃ source target type, orientLink g start finish = some (source, target, type) := by
  by_cases input : p.kind = .input
  · exact ⟨finish, start, q.type, by simp [orientLink, first, second, input]⟩
  · exact ⟨start, finish, p.type, by simp [orientLink, first, second, input]⟩

/-- What is linked where the verdict allows it. -/
theorem replaces_createLink (coherent : Coherent none e) (allowed : e.linkVerdict start finish = .canConnect) :
    ∃ g l type, e.asset.graph? e.activeOwner = some g ∧ g.linkVerdict start finish = .canConnect ∧
      orientLink g start finish = some (l.source, l.target, type) ∧
      Replaces l g (graphOf (e.createLink start finish).1.asset e.activeOwner) := by
  obtain ⟨g, held⟩ : ∃ g, e.asset.graph? e.activeOwner = some g := by
    rw [Editor.linkVerdict] at allowed
    split at allowed
    · cases allowed
    · rename_i g active
      exact ⟨g, active⟩
  have verdict : g.linkVerdict start finish = .canConnect := by rwa [Editor.linkVerdict, activeGraph?, held] at allowed
  obtain ⟨p, q, first, second, -⟩ := verdict_spec verdict
  obtain ⟨source, target, type, oriented⟩ := orient_some first second
  obtain ⟨l, h, rfl, rfl, found, replaces⟩ := replaces_createLinkIn coherent held oriented
  exact ⟨g, l, type, held, verdict, oriented, graphOf_eq found ▸ replaces⟩

/-- Linking leaves the other graphs. -/
theorem graphOf_createLink (other : owner ≠ e.activeOwner) :
    graphOf (e.createLink start finish).1.asset owner = graphOf e.asset owner := by
  rw [graphOf, createLink, (within_createLinkIn e e.activeOwner start finish).others owner other]
  rfl

theorem closes_iff (coherent : Coherent none e) (sound : Declared e) (held : e.asset.graph? e.activeOwner = some g)
    (verdict : g.linkVerdict start finish = .canConnect) (oriented : orientLink g start finish = some (l.source, l.target, type)) :
    Closes e (.createLink start finish) ↔ ∃ name before, Joint g l name before ∧ ReflTransGen (FedBy g) before name := by
  have unique := identified_unique (identified_of_coherent coherent) held
  constructor
  · rintro ⟨g', _, _, _, m, n, before, name, active, turned, sourced, named, targeted, reads, back⟩
    cases held.symm.trans active
    cases oriented.symm.trans turned
    obtain ⟨inM, starts⟩ := nodeOfPin_spec sourced
    obtain ⟨inN, ends⟩ := nodeOfPin_spec targeted
    obtain ⟨-, -, -, -, k, inK, q, input, -, arrives, -⟩ :=
      joins_of_verdict (graph_made sound held) verdict oriented (l := l) rfl rfl
    cases node_eq_of_pin unique inK inN (hasPin_iff.mpr ⟨q, List.mem_append_left _ input, arrives⟩) ends
    exact ⟨name, before, ⟨⟨n, inN, sets_of_input reads input, reads, ends⟩, m, inM, named, starts⟩, back⟩
  · rintro ⟨name, before, ⟨⟨n, inN, -, reads, ends⟩, m, inM, named, starts⟩, back⟩
    obtain ⟨p, inP, sourced⟩ := hasPin_iff.mp starts
    obtain ⟨q, inQ, targeted⟩ := hasPin_iff.mp ends
    refine ⟨g, l.source, l.target, type, m, n, before, name, held, oriented, ?_, named, ?_, reads, back⟩
    · exact sourced ▸ nodeOfPin_of_member unique inM inP
    · exact targeted ▸ nodeOfPin_of_member unique inN inQ

/-- Linking as the verdict allows closes a circle exactly if there is a way back. -/
theorem straight_createLink_iff (coherent : Coherent none e) (sound : Declared e) (allowed : e.linkVerdict start finish = .canConnect)
    (straight : Straight e) : Straight (e.createLink start finish).1 ↔ ¬Closes e (.createLink start finish) := by
  obtain ⟨g, l, type, held, verdict, oriented, replaces⟩ := replaces_createLink coherent allowed
  have unique := identified_unique (identified_of_coherent coherent) held
  have fed : FedBy g = DrawsOn g := graphOf_eq held ▸ fedBy_eq coherent sound e.activeOwner
  have whole : Coherent none (e.createLink start finish).1 := coherent_apply coherent (.createLink start finish)
  rw [straight_iff whole (sound_createLink coherent sound allowed), closes_iff coherent sound held verdict oriented, fed]
  rw [straight_iff coherent sound] at straight
  have here : ∀ name, ¬TransGen (DrawsOn g) name name := graphOf_eq held ▸ straight e.activeOwner
  rw [← circle_replaced_iff unique replaces here, not_exists]
  constructor
  · exact fun always => always e.activeOwner
  · intro open_ owner name
    by_cases same : owner = e.activeOwner
    · rw [same]
      exact open_ name
    · rw [graphOf_createLink same]
      exact straight owner name

theorem joint_declared (sound : Declared e) (draws : DrawsOn (graphOf e.asset owner) name before) :
    name ∈ e.asset.localVariables.keys ∧ before ∈ e.asset.localVariables.keys := by
  obtain ⟨l, -, ⟨n, inN, -, reads, -⟩, m, inM, named, -⟩ := draws
  exact ⟨sound.declared n (mem_graphOf.mpr ⟨owner, inN⟩) name reads, sound.declared m (mem_graphOf.mpr ⟨owner, inM⟩) before named⟩

/-- Under their new names variables are fed from those that they were fed from. -/
theorem drawsOn_renameProperty (coherent : Coherent none e) (sound : Declared e) (different : old ≠ new)
    (accepted : (e.renameProperty kind old new).2 = true)
    (draws : DrawsOn (graphOf (e.renameProperty kind old new).1.asset owner) name before) :
    ∃ x y, (x ∈ e.asset.localVariables.keys ∧ y ∈ e.asset.localVariables.keys ∧ DrawsOn (graphOf e.asset owner) x y) ∧
      renamedVariable kind old new x = name ∧ renamedVariable kind old new y = before := by
  obtain ⟨valid, -⟩ := (renameProperty_accepted different).mp accepted
  have turns := turns_renamed coherent sound different accepted owner
  obtain ⟨ids, listed, renamed⟩ := graphOf_renameProperty coherent different accepted owner
  rw [renamed] at turns draws
  have revised : Revised (graphOf e.asset owner) ((graphOf e.asset owner).renameProperty kind old new ids) := by
    refine revised_renameProperty (fun _ => (valid_unreserved valid).2.1) fun n member inside => ?_
    have stands := (listed n member).mp inside
    rw [Asset.standsFor, Bool.and_eq_true, beq_iff_eq] at stands
    exact stands.1
  have rooted := rooted_revised (unique_graphOf coherent owner) turns revised
  obtain ⟨x, y, earlier, same⟩ := drawsOn_rooted rooted (fun _ link => link) draws
  obtain ⟨inX, inY⟩ := joint_declared sound earlier
  exact ⟨x, y, ⟨inX, inY, earlier⟩, same⟩

theorem straight_renameProperty (coherent : Coherent none e) (sound : Declared e) (straight : Straight e) (kind : PropertyKind)
    (old new : String) : Straight (e.renameProperty kind old new).1 := by
  by_cases different : old = new
  · rw [different, Editor.renameProperty, if_pos rfl]
    exact straight
  cases accepted : (e.renameProperty kind old new).2 with
  | false =>
    rw [renameProperty_refused accepted]
    exact straight
  | true =>
    have whole : Coherent none (e.renameProperty kind old new).1 := coherent_apply coherent (.renameProperty kind old new)
    rw [straight_iff coherent sound] at straight
    rw [straight_iff whole (declared_renameProperty coherent sound kind old new)]
    intro owner name circle
    obtain ⟨valid, -⟩ := (renameProperty_accepted different).mp accepted
    have apart (x y : String) (inX : x ∈ e.asset.localVariables.keys) (inY : y ∈ e.asset.localVariables.keys)
        (same : renamedVariable kind old new x = renamedVariable kind old new y) : x = y :=
      renamedVariable_inj (valid_iff.mp valid).2.1 inX inY same
    obtain ⟨x, y, ⟨inX, inY, way⟩, rfl, same⟩ := transGen_renamed (· ∈ e.asset.localVariables.keys)
      (fun _ _ draws => drawsOn_renameProperty coherent sound different accepted draws) apart circle
    cases apart y x inY inX same
    exact straight owner x way

/-- What an edit does to a straight editor. -/
theorem straight_apply_iff (coherent : Coherent none e) (sound : Declared e) (careful : Careful e edit) (straight : Straight e) :
    Straight (edit.apply e) ↔ ¬Closes e edit := by
  have later := declared_apply coherent sound careful
  cases edit with
  | createLink start finish => exact straight_createLink_iff coherent sound (careful.1 (start, finish) rfl) straight
  | renameProperty kind old new => exact iff_of_true (straight_renameProperty coherent sound straight kind old new) id
  | _ =>
    refine iff_of_true ?_ id
    exact straight_noneFed coherent sound (coherent_apply coherent _) later (noneFed_apply coherent sound rfl) straight

/-! ## Circles of one -/

/-- No variable is linked to its own setter. -/
def Indirect (e : Editor) : Prop := ∀ owner name, ¬DrawsOn (graphOf e.asset owner) name name

/-- Two pins that may be linked belong to no nodes of one variable. -/
theorem verdict_differs (unique : UniqueIds g) (made : ∀ n ∈ g.nodes, Made n) (allowed : g.linkVerdict start finish = .canConnect)
    (inM : m ∈ g.nodes) (inN : n ∈ g.nodes) (starts : m.hasPin start = true) (ends : n.hasPin finish = true) :
    m.sameVariable n = false := by
  have home {k : Node} {p : Pin} (member : k ∈ g.nodes) (inside : p ∈ k.pins) : g.node? p.node = some k := by
    have own : p.node = k.id := by
      rcases List.mem_append.mp inside with input | output
      · exact ((made k member).bound.inputs p input).1
      · exact ((made k member).bound.outputs p output).1
    rw [own]
    exact find_unique member (beq_self_eq_true _) fun x other also => node_eq_of_id unique other member (beq_iff_eq.mp also)
  obtain ⟨p, inP, rfl⟩ := hasPin_iff.mp starts
  obtain ⟨q, inQ, rfl⟩ := hasPin_iff.mp ends
  rw [SubGraph.linkVerdict, pin_of_member unique inM inP, pin_of_member unique inN inQ] at allowed
  dsimp only at allowed
  rw [home inM inP, home inN inQ] at allowed
  by_contra same
  rw [Bool.not_eq_false] at same
  dsimp only at allowed
  rw [if_pos same] at allowed
  -- All branches refuse the link.
  repeat' split at allowed
  all_goals cases allowed

theorem indirect_createLink (coherent : Coherent none e) (sound : Declared e) (allowed : e.linkVerdict start finish = .canConnect)
    (indirect : Indirect e) : Indirect (e.createLink start finish).1 := by
  obtain ⟨g, l, type, held, verdict, oriented, replaces⟩ := replaces_createLink coherent allowed
  have unique := identified_unique (identified_of_coherent coherent) held
  have differs {m n : Node} (inM : m ∈ g.nodes) (inN : n ∈ g.nodes) (starts : m.hasPin start = true)
      (ends : n.hasPin finish = true) : m.sameVariable n = false :=
    verdict_differs unique (graph_made sound held) verdict inM inN starts ends
  intro owner name circle
  by_cases here : owner = e.activeOwner
  · rw [here, replaces] at circle
    rcases circle with ⟨⟨n, inN, -, reads, ends⟩, m, inM, named, starts⟩ | ⟨x, link, -, old⟩
    · -- The verdict refuses two nodes of one variable, whichever is named first.
      rcases orient_ends oriented with ⟨source, target⟩ | ⟨source, target⟩
      · have same := sameVariable_iff.mpr ⟨name, named, reads⟩
        rw [differs inM inN (source ▸ starts) (target ▸ ends)] at same
        cases same
      · have same := sameVariable_iff.mpr ⟨name, reads, named⟩
        rw [differs inN inM (target ▸ ends) (source ▸ starts)] at same
        cases same
    · exact indirect e.activeOwner name (graphOf_eq held ▸ ⟨x, link, old⟩)
  · rw [graphOf_createLink here] at circle
    exact indirect owner name circle

theorem indirect_apply (coherent : Coherent none e) (sound : Declared e) (careful : Careful e edit) (indirect : Indirect e) :
    Indirect (edit.apply e) := by
  cases edit with
  | createLink start finish => exact indirect_createLink coherent sound (careful.1 (start, finish) rfl) indirect
  | renameProperty kind old new =>
    by_cases different : old = new
    · rw [Edit.apply, different, Editor.renameProperty, if_pos rfl]
      exact indirect
    cases accepted : (e.renameProperty kind old new).2 with
    | false =>
      rw [Edit.apply, renameProperty_refused accepted]
      exact indirect
    | true =>
      intro owner name draws
      obtain ⟨valid, -⟩ := (renameProperty_accepted different).mp accepted
      obtain ⟨x, y, ⟨inX, inY, earlier⟩, rfl, same⟩ := drawsOn_renameProperty coherent sound different accepted draws
      cases renamedVariable_inj (valid_iff.mp valid).2.1 inY inX same
      exact indirect owner x earlier
  | _ => exact fun owner name draws => indirect owner name (noneFed_apply coherent sound rfl owner name name draws)

/-! ## Runs -/

theorem bare_start (name : String) (self : NodeId) (catalog : Catalog) (settings : Settings) (drawn : Nat) (owner : NodeId) :
    (graphOf (Editor.ofAsset (.ofName name self) catalog settings (drawn + 1)).asset owner).links = [] := by
  refine List.eq_nil_iff_forall_not_mem.mpr fun l link => ?_
  have none : l ∈ (graphOf ((Asset.ofName name self).ensureGraph .root) owner).links := (sheds_ensureEntries _).links owner link
  rw [graphOf_ensureGraph, graphOf_ofName] at none
  cases none

theorem indirect_reachable (reachable : Reachable Careful e) : Indirect e := by
  induction reachable with
  | start name self catalog settings drawn =>
    rintro owner name ⟨l, link, -⟩
    rw [bare_start] at link
    cases link
  | step before may ih => exact indirect_apply (coherent_reachable before) (declared_reachable before) may ih

/-- Over runs of callers who ask before linking, no variable is led back to itself just as
long as no link closes a circle. None ever feeds itself without another one. Following a
variable back goes on for ever on the way to a circle, and only there. -/
theorem variable_circles_exact (label : String) (self : NodeId) (catalog : Catalog) (settings : Settings) (drawn : Nat)
    (edits : List Edit) :
    let start := Editor.ofAsset (.ofName label self) catalog settings (drawn + 1)
    Run Careful start edits →
      ((∀ earlier, earlier <+: edits → Straight (earlier.foldl Edit.apply start)) ↔ Run (fun e edit => ¬Closes e edit) start edits) ∧
      ∀ owner g, (edits.foldl Edit.apply start).asset.graph? owner = some g →
        (∀ name, ¬FedBy g name name) ∧ ∀ n ∈ g.nodes, ∀ p name, n.variableName? = some name →
          (g.resolve n p = none ∧ (¬∃ last, StopsAt g name last) ↔ Endless g name) := by
  intro start careful
  have reachable : Reachable Careful start := .start label self catalog settings drawn
  refine ⟨?_, fun owner g held => ⟨fun name fed => ?_, fun n member p name named => resolve_endless_iff member named⟩⟩
  · refine holds_throughout_iff (Reachable Careful) (fun e edit known may => .step known may)
      (fun e edit known may => straight_apply_iff (coherent_reachable known) (declared_reachable known) may) reachable careful ?_
    rw [straight_iff (coherent_reachable reachable) (declared_reachable reachable)]
    intro owner name circle
    obtain ⟨_, ⟨l, link, -⟩, -⟩ := TransGen.head'_iff.mp circle
    rw [bare_start] at link
    cases link
  · have after := reachable_of_run reachable careful
    have same := fedBy_eq (coherent_reachable after) (declared_reachable after) owner
    rw [graphOf_eq held] at same
    rw [same, ← graphOf_eq held] at fed
    exact indirect_reachable after owner name fed

/-- Two variables are each linked to the setter of the other one. -/
def exchanged : List Edit :=
  [.addProperty .localVariable (.int64 0), .addProperty .localVariable (.int64 0),
    .spawnLocalVariable "New Variable" true, .spawnLocalVariable "New Variable" false,
    .spawnLocalVariable "New Variable_2" true, .spawnLocalVariable "New Variable_2" false,
    .createLink ⟨3⟩ ⟨12⟩, .createLink ⟨9⟩ ⟨6⟩]

def exchangedEditor : Editor := exchanged.foldl Edit.apply (.ofAsset (.ofName "Wave" ⟨1⟩) .empty .default 1)

/-- Both links are allowed, and lowering gives up on what they make. -/
theorem exchanged_feed_each_other : Run Careful (.ofAsset (.ofName "Wave" ⟨1⟩) .empty .default 1) exchanged ∧
    ¬Run (fun e edit => ¬Closes e edit) (.ofAsset (.ofName "Wave" ⟨1⟩) .empty .default 1) exchanged ∧
    ∃ g, exchangedEditor.asset.graph? .root = some g ∧ FedBy g "New Variable" "New Variable_2" ∧
      FedBy g "New Variable_2" "New Variable" ∧ ¬FedBy g "New Variable" "New Variable" ∧
      ∃ n ∈ g.nodes, n.variableName? = some "New Variable" ∧ ∀ p, g.resolve n p = none ∧ ¬∃ last, StopsAt g "New Variable" last := by
  have added : Edit.apply (Edit.apply (.ofAsset (.ofName "Wave" ⟨1⟩) .empty .default 1) (.addProperty .localVariable (.int64 0)))
      (.addProperty .localVariable (.int64 0)) = _ :=
    addProperty_ordered (show _ = "New Variable_2" by decide +kernel) (by decide +kernel)
  have careful : Run Careful (.ofAsset (.ofName "Wave" ⟨1⟩) .empty .default 1) exchanged := by
    refine ⟨by decide +kernel, by decide +kernel, ?_⟩
    rw [added]
    decide +kernel
  have feeds : FedBy (graphOf exchangedEditor.asset .root) "New Variable" "New Variable_2" ∧
      FedBy (graphOf exchangedEditor.asset .root) "New Variable_2" "New Variable" ∧
      ∃ n ∈ (graphOf exchangedEditor.asset .root).nodes, n.variableName? = some "New Variable" := by
    rw [exchangedEditor, exchanged, List.foldl_cons, List.foldl_cons, added]
    decide +kernel
  obtain ⟨g, held⟩ : ∃ g, exchangedEditor.asset.graph? .root = some g := by
    cases held : exchangedEditor.asset.graph? .root with
    | some g => exact ⟨g, rfl⟩
    | none =>
      rw [graphOf_missing held] at feeds
      cases feeds.1
  rw [graphOf_eq held] at feeds
  obtain ⟨ahead, back, n, member, named⟩ := feeds
  have circle : Circular g "New Variable" := .head ahead (.single back)
  obtain ⟨throughout, graphs⟩ := variable_circles_exact "Wave" ⟨1⟩ .empty .default 0 exchanged careful
  obtain ⟨indirect, gives⟩ := graphs .root g held
  refine ⟨careful, fun run => ?_, g, held, ahead, back, indirect _, n, member, named, fun p => ?_⟩
  · exact throughout.mpr run exchanged (List.prefix_refl _) .root g _ held circle
  · exact (gives n member p _ named).mpr ⟨_, .refl, circle⟩

end PoseGraph.VariableCircles
