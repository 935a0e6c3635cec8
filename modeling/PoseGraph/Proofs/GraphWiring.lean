import PoseGraph.Proofs.NodeFrames
import PoseGraph.Proofs.StateEdits

/-! The links of one graph under edits. Every link runs from an output to an input
of another node that carries the same, and no two links end in one pin. Edits that
take pins away, or give them other types, take the links at those pins away before. -/
namespace PoseGraph.GraphWiring
open AssetOrder EditorCoherence GraphDependencies LinkEdits NodeCraft NodeEdits NodeFrames Rearrangement StateEdits

variable {g h k : SubGraph} {l x : Link} {m n : Node} {p q : Pin} {self : NodeId} {ids : List NodeId} {pin : PinId}
variable {palette : Palette} {v : Value} {kind : PropertyKind} {name old new : String}

/-- A link leads from an output of a node to an input of another node, and both
pins carry the same. -/
def Joins (g : SubGraph) (l : Link) : Prop :=
  ∃ m ∈ g.nodes, ∃ p ∈ m.outputs, ∃ n ∈ g.nodes, ∃ q ∈ n.inputs,
    p.id = l.source ∧ q.id = l.target ∧ m.id ≠ n.id ∧ p.type = q.type ∧ p.storage = q.storage

/-- All links of a graph are links between fitting pins, at most one to each input. -/
structure Wired (g : SubGraph) : Prop where
  joins : ∀ l ∈ g.links, Joins g l
  apart : (g.links.map Link.target).Nodup

theorem wired_empty : Wired .empty := ⟨fun _ inside => (nomatch inside), List.nodup_nil⟩

/-! ## Links whose pins stay -/

/-- A node that has kept its pins, or their types and storage at least. -/
structure Retained (n m : Node) : Prop where
  id : m.id = n.id
  inputs : ∀ p ∈ n.inputs, ∃ q ∈ m.inputs, q.id = p.id ∧ q.type = p.type ∧ q.storage = p.storage
  outputs : ∀ p ∈ n.outputs, ∃ q ∈ m.outputs, q.id = p.id ∧ q.type = p.type ∧ q.storage = p.storage

theorem retained_refl (n : Node) : Retained n n :=
  ⟨rfl, fun p inside => ⟨p, inside, rfl, rfl, rfl⟩, fun p inside => ⟨p, inside, rfl, rfl, rfl⟩⟩

theorem retained_mapPins {f : Pin → Pin} (keeps : ∀ p, (f p).id = p.id ∧ (f p).type = p.type ∧ (f p).storage = p.storage)
    (n : Node) : Retained n (n.mapPins f) :=
  ⟨rfl, fun p inside => ⟨f p, List.mem_map_of_mem inside, keeps p⟩,
    fun p inside => ⟨f p, List.mem_map_of_mem inside, keeps p⟩⟩

theorem retained_renamed (n : Node) : Retained n (renamed kind old new n) := by
  have pins := retained_mapPins (f := fun p => if p.name = old then { p with name := new } else p)
    (fun p => by split <;> exact ⟨rfl, rfl, rfl⟩) n
  rw [renamed]
  split
  · exact ⟨pins.id, pins.inputs, pins.outputs⟩
  · exact pins

theorem retained_sameFrame (same : SameFrame n m) : Retained n m where
  id := same.id
  inputs := by
    intro p inside
    obtain ⟨q, member, frames⟩ := pin_counterpart same.inputs.symm inside
    exact ⟨q, member, (congrArg Pin.id frames :), (congrArg Pin.type frames :), (congrArg Pin.storage frames :)⟩
  outputs := by
    intro p inside
    obtain ⟨q, member, frames⟩ := pin_counterpart same.outputs.symm inside
    exact ⟨q, member, (congrArg Pin.id frames :), (congrArg Pin.type frames :), (congrArg Pin.storage frames :)⟩

/-- A link whose two pins are still there goes on joining them. -/
theorem joins_of_pins
    (outputs : ∀ n ∈ g.nodes, ∀ p ∈ n.outputs, p.id = l.source →
      ∃ m ∈ h.nodes, m.id = n.id ∧ ∃ q ∈ m.outputs, q.id = p.id ∧ q.type = p.type ∧ q.storage = p.storage)
    (inputs : ∀ n ∈ g.nodes, ∀ p ∈ n.inputs, p.id = l.target →
      ∃ m ∈ h.nodes, m.id = n.id ∧ ∃ q ∈ m.inputs, q.id = p.id ∧ q.type = p.type ∧ q.storage = p.storage)
    (joins : Joins g l) : Joins h l := by
  obtain ⟨m, inM, p, output, n, inN, q, input, source, target, differ, types, storages⟩ := joins
  obtain ⟨m', inM', idM, p', output', sameP, typeP, storageP⟩ := outputs m inM p output source
  obtain ⟨n', inN', idN, q', input', sameQ, typeQ, storageQ⟩ := inputs n inN q input target
  refine ⟨m', inM', p', output', n', inN', q', input', sameP.trans source, sameQ.trans target, ?_,
    typeP.trans (types.trans typeQ.symm), storageP.trans (storages.trans storageQ.symm)⟩
  rwa [idM, idN]

/-- Links between nodes that keep their pins go on joining them. -/
theorem joins_retained (retained : ∀ n ∈ g.nodes, n.hasPin l.source = true ∨ n.hasPin l.target = true →
    ∃ m ∈ h.nodes, Retained n m) (joins : Joins g l) : Joins h l := by
  refine joins_of_pins (fun n member p output source => ?_) (fun n member p input target => ?_) joins
  · obtain ⟨m, inside, keeps⟩ := retained n member
      (.inl (hasPin_iff.mpr ⟨p, List.mem_append_right _ output, source⟩))
    exact ⟨m, inside, keeps.id, keeps.outputs p output⟩
  · obtain ⟨m, inside, keeps⟩ := retained n member
      (.inr (hasPin_iff.mpr ⟨p, List.mem_append_left _ input, target⟩))
    exact ⟨m, inside, keeps.id, keeps.inputs p input⟩

theorem apart_subperm (links : h.links.Subperm g.links) (wired : Wired g) : (h.links.map Link.target).Nodup := by
  obtain ⟨some_, perm, sublist⟩ := links
  exact (perm.map Link.target).nodup_iff.mp (wired.apart.sublist (sublist.map _))

/-- Fewer links between nodes that keep their pins. -/
theorem wired_retained (retained : ∀ n ∈ g.nodes, ∃ m ∈ h.nodes, Retained n m) (links : h.links.Subperm g.links)
    (wired : Wired g) : Wired h :=
  ⟨fun l inside => joins_retained (fun n member _ => retained n member) (wired.joins l (links.subset inside)),
    apart_subperm links wired⟩

/-! ## Literals, layout and order -/

/-- The same nodes apart from literals, layout and order; links may be dropped. -/
structure Kept (g h : SubGraph) : Prop where
  nodes : (h.nodes.map frame).Perm (g.nodes.map frame)
  links : h.links.Subperm g.links

theorem kept_refl (g : SubGraph) : Kept g g := ⟨.refl _, .refl _⟩

theorem kept_trans (first : Kept g h) (second : Kept h k) : Kept g k :=
  ⟨second.nodes.trans first.nodes, second.links.trans first.links⟩

theorem kept_origin (nodes : (h.nodes.map frame).Perm (g.nodes.map frame)) (member : m ∈ h.nodes) :
    ∃ n ∈ g.nodes, SameFrame n m := by
  obtain ⟨n, inside, same⟩ := List.mem_map.mp (nodes.mem_iff.mp (List.mem_map_of_mem member))
  exact ⟨n, inside, sameFrame_of_frame same.symm⟩

theorem kept_survivor (nodes : (h.nodes.map frame).Perm (g.nodes.map frame)) (member : n ∈ g.nodes) :
    ∃ m ∈ h.nodes, SameFrame n m := by
  obtain ⟨m, inside, same⟩ := List.mem_map.mp (nodes.mem_iff.mpr (List.mem_map_of_mem member))
  exact ⟨m, inside, sameFrame_of_frame same⟩

theorem wired_kept (kept : Kept g h) (wired : Wired g) : Wired h := by
  refine wired_retained (fun n member => ?_) kept.links wired
  obtain ⟨m, inside, same⟩ := kept_survivor kept.nodes member
  exact ⟨m, inside, retained_sameFrame same⟩

theorem kept_modifyNode {f : Node → Node} (same : ∀ n, frame (f n) = frame n) (g : SubGraph) (id : NodeId) :
    Kept g (g.modifyNode id f) := by
  refine ⟨?_, .refl _⟩
  rw [SubGraph.modifyNode, map_modifyFirst same]

theorem frame_modifyPin (n : Node) (pin : PinId) (v : Value) : frame (n.modifyPin pin (·.withValue v)) = frame n := by
  have same (ps : List Pin) : (Node.modifyFirst (·.id == pin) (·.withValue v) ps).map pinFrame = ps.map pinFrame :=
    map_modifyFirst (f := (·.withValue v)) (fun _ => rfl) ps
  rw [Node.modifyPin]
  split
  · simp only [frame, same]
  · simp only [frame, same]

theorem kept_withValue (g : SubGraph) (pin : PinId) (v : Value) : Kept g (g.modifyPin pin (·.withValue v)) := by
  refine ⟨?_, .refl _⟩
  rw [SubGraph.modifyPin, map_modifyFirst fun n => frame_modifyPin n pin v]

theorem kept_resetPin (g : SubGraph) (pin : PinId) : Kept g (g.resetPin palette pin) := by
  rw [SubGraph.resetPin]
  split
  · exact kept_refl g
  · split
    · exact kept_refl g
    · split
      · exact kept_refl g
      · exact kept_withValue g pin _

theorem kept_dropLinks (g : SubGraph) (dead : List Link) : Kept g (g.dropLinks palette dead) := by
  have fold (pins : List PinId) (h : SubGraph) (kept : Kept g h) :
      Kept g (pins.foldl (SubGraph.resetPin palette) h) := by
    induction pins generalizing h with
    | nil => exact kept
    | cons pin pins ih => exact ih _ (kept_trans kept (kept_resetPin h pin))
  have reset := fold (dead.map Link.target) g (kept_refl g)
  exact kept_trans reset ⟨.refl _, List.filter_sublist.subperm⟩

theorem kept_restPose (g : SubGraph) : Kept g g.restPose := by
  rw [SubGraph.restPose]
  split
  · exact kept_refl g
  · split
    · exact kept_refl g
    · exact kept_withValue g _ _

theorem kept_ensureEntry (g : SubGraph) : Kept g g.ensureEntry := by
  rw [SubGraph.ensureEntry]
  split
  · exact kept_refl g
  · refine ⟨?_, .refl _⟩
    exact .of_eq (map_modifyFirst (f := fun n => { n with isEntry := true }) (fun _ => rfl) g.nodes)

theorem kept_setPropertyValue (g : SubGraph) : Kept g (g.setPropertyValue name v ids) := by
  refine ⟨?_, .refl _⟩
  rw [SubGraph.setPropertyValue, SubGraph.mapNodes, List.map_map]
  refine .of_eq (List.map_congr_left fun n _ => ?_)
  rw [Function.comp_apply]
  split
  · have same (ps : List Pin) : (ps.map fun p =>
        if p.name = name ∧ ¬(g.linkedInputs ids).contains p.id then p.withValue v else p).map pinFrame =
          ps.map pinFrame := by
      rw [List.map_map]
      refine List.map_congr_left fun p _ => ?_
      rw [Function.comp_apply]
      split <;> rfl
    simp only [Node.mapPins, frame, same]
  · rfl

theorem kept_alike (alike : Alike g h) : Kept g h := by
  refine ⟨?_, alike.links.symm.subperm⟩
  have perm := alike.nodes.symm.map frame
  have blind : frame ∘ bare = frame := rfl
  rwa [List.map_map, List.map_map, blind] at perm

/-! ## New links -/

/-- A graph after a link has been added to it: what else ended in its pin is gone. -/
structure Linked (l : Link) (g h : SubGraph) : Prop where
  nodes : (h.nodes.map frame).Perm (g.nodes.map frame)
  links : h.links.Subperm (g.links ++ [l])
  apart : ∀ x ∈ h.links, x.target = l.target → x = l
  fresh : l ∉ g.links

theorem wired_linked (linked : Linked l g h) (joins : Joins g l) (wired : Wired g) : Wired h := by
  constructor
  · intro x inside
    have before : Joins g x := by
      rcases List.mem_append.mp (linked.links.subset inside) with old | new
      · exact wired.joins x old
      · rw [List.mem_singleton.mp new]
        exact joins
    refine joins_retained (fun n member _ => ?_) before
    obtain ⟨m, survives, same⟩ := kept_survivor linked.nodes member
    exact ⟨m, survives, retained_sameFrame same⟩
  · obtain ⟨some_, perm, sublist⟩ := linked.links
    obtain ⟨olds, news, split, fromOld, fromNew⟩ := List.sublist_append_iff.mp sublist
    rw [← (perm.map Link.target).nodup_iff, split, List.map_append]
    refine List.Nodup.append (wired.apart.sublist (fromOld.map _))
      ((List.nodup_singleton _).sublist (fromNew.map Link.target)) ?_
    intro target inOld inNew
    obtain ⟨x, old, rfl⟩ := List.mem_map.mp inOld
    obtain ⟨y, new, same⟩ := List.mem_map.mp inNew
    rw [List.mem_singleton.mp (fromNew.subset new)] at same
    have equal := linked.apart x (perm.subset (split ▸ List.mem_append_left _ old)) same.symm
    exact linked.fresh (equal ▸ fromOld.subset old)

/-! ## Links out of the way -/

/-- No link is at a node with one of the given identities. -/
def Untouched (ids : List NodeId) (g : SubGraph) : Prop :=
  ∀ l ∈ g.links, ∀ n ∈ g.nodes, n.id ∈ ids → n.hasPin l.source = false ∧ n.hasPin l.target = false

theorem sameFrame_hasPin (same : SameFrame n m) (pin : PinId) : m.hasPin pin = n.hasPin pin := by
  have pins := congrArg (List.map Pin.id) (sameFrame_pins same)
  simp only [List.map_map] at pins
  have blind : Pin.id ∘ pinFrame = Pin.id := rfl
  rw [blind] at pins
  have any (ps : List Pin) : ps.any (·.id == pin) = (ps.map Pin.id).any (· == pin) := by
    rw [List.any_map]
    rfl
  rw [Node.hasPin, Node.hasPin, any, any, pins]

theorem untouched_kept (kept : Kept g h) (untouched : Untouched ids g) : Untouched ids h := by
  intro l link m inside named
  obtain ⟨n, member, same⟩ := kept_origin kept.nodes inside
  rw [sameFrame_hasPin same, sameFrame_hasPin same]
  exact untouched l (kept.links.subset link) n member (same.id ▸ named)

theorem spared_dropLinks {dead : List Link} (link : l ∈ (g.dropLinks palette dead).links) : l ∈ g.links ∧ l ∉ dead := by
  refine ⟨(kept_dropLinks g dead).links.subset link, fun doomed => ?_⟩
  have passes := (List.mem_filter.mp link).2
  simp only [Bool.not_eq_true', List.any_eq_false, beq_iff_eq] at passes
  exact passes l doomed rfl

/-- Dropping all links at some nodes leaves them untouched. -/
theorem untouched_dropLinks {dead : List Link}
    (all : ∀ l ∈ g.links, ∀ n ∈ g.nodes, n.id ∈ ids →
      n.hasPin l.source = true ∨ n.hasPin l.target = true → l ∈ dead) :
    Untouched ids (g.dropLinks palette dead) := by
  have kept : Kept g (g.dropLinks palette dead) := kept_dropLinks g dead
  intro l link m inside named
  obtain ⟨n, member, same⟩ := kept_origin kept.nodes inside
  obtain ⟨before, spared⟩ := spared_dropLinks link
  rw [sameFrame_hasPin same, sameFrame_hasPin same]
  by_contra touched
  refine spared (all l before n member (same.id ▸ named) ?_)
  rw [not_and_or, Bool.not_eq_false, Bool.not_eq_false] at touched
  exact touched

/-- The links that go with a node are all links at it. -/
theorem deadLinks_all (unique : UniqueIds g) (link : l ∈ g.links) (member : n ∈ g.nodes)
    (touches : n.hasPin l.source = true ∨ n.hasPin l.target = true) : l ∈ g.deadLinks n.id := by
  refine List.mem_filter.mpr ⟨link, ?_⟩
  split
  · rename_i s t startsAt endsAt
    obtain ⟨inS, hasS⟩ := nodeOfPin_spec startsAt
    obtain ⟨inT, hasT⟩ := nodeOfPin_spec endsAt
    rcases touches with starts | ends
    · rw [node_eq_of_pin unique inS member hasS starts]
      simp
    · rw [node_eq_of_pin unique inT member hasT ends]
      simp
  · rfl

theorem linksOfNodes_all (unique : UniqueIds g) (link : l ∈ g.links) (member : n ∈ g.nodes) (named : n.id ∈ ids)
    (touches : n.hasPin l.source = true ∨ n.hasPin l.target = true) : l.id ∈ g.linksOfNodes ids := by
  have found {pin : PinId} (has : n.hasPin pin = true) : g.nodeOfPin? pin = some n :=
    find_unique member has fun k inside also => node_eq_of_pin unique inside member also has
  refine List.mem_map.mpr ⟨l, List.mem_filter.mpr ⟨link, ?_⟩, rfl⟩
  rcases touches with starts | ends
  · simp [found starts, named]
  · simp [found ends, named]

/-! ## What a change makes of the nodes -/

/-- Every node stems from one before, and the wiring stays sound. -/
structure Turns (rename : String → String) (g h : SubGraph) : Prop where
  nodes : ∀ m ∈ h.nodes, ∃ n ∈ g.nodes, Grown rename n m ∧ (Sealed n → Sealed m)
  wired : Wired g → Wired h

theorem grown_refl (n : Node) : Grown id n n := sameFrame_grown ⟨rfl, rfl, rfl, rfl, rfl, rfl⟩

theorem turns_frames (nodes : (h.nodes.map frame).Perm (g.nodes.map frame)) (wired : Wired g → Wired h) :
    Turns id g h := by
  refine ⟨fun m inside => ?_, wired⟩
  obtain ⟨n, member, same⟩ := kept_origin nodes inside
  exact ⟨n, member, sameFrame_grown same, sameFrame_sealed same⟩

theorem turns_kept (kept : Kept g h) : Turns id g h := turns_frames kept.nodes (wired_kept kept)

theorem turns_linked (linked : Linked l g h) (joins : Joins g l) : Turns id g h :=
  turns_frames linked.nodes (wired_linked linked joins)

/-- Removing nodes that no link touches. -/
theorem turns_without (untouched : Untouched ids g) : Turns id g (without ids g) := by
  refine ⟨fun m inside => ⟨m, (List.mem_filter.mp inside).1, grown_refl m, fun closed => closed⟩, fun wired => ?_⟩
  refine ⟨fun l link => joins_retained (fun n member touches => ⟨n, ?_, retained_refl n⟩) (wired.joins l link),
    wired.apart⟩
  refine List.mem_filter.mpr ⟨member, ?_⟩
  simp only [Bool.not_eq_true', List.contains_eq_mem, decide_eq_false_iff_not]
  intro doomed
  obtain ⟨starts, ends⟩ := untouched l link n member doomed
  simp [starts, ends] at touches

/-- Changing nodes in place that no link touches. -/
theorem turns_mapNodes {f : Node → Node} (untouched : Untouched ids g)
    (grown : ∀ n ∈ g.nodes, n.id ∈ ids → Grown id n (f n) ∧ Sealed (f n)) : Turns id g (g.mapNodes ids f) := by
  constructor
  · intro m inside
    obtain ⟨n, member, rfl⟩ := List.mem_map.mp inside
    refine ⟨n, member, ?_⟩
    split
    · rename_i listed
      obtain ⟨grown, closed⟩ := grown n member (by simpa using listed)
      exact ⟨grown, fun _ => closed⟩
    · exact ⟨grown_refl n, fun closed => closed⟩
  · refine fun wired => ⟨fun l link => joins_retained (fun n member touches => ⟨n, ?_, retained_refl n⟩)
      (wired.joins l link), wired.apart⟩
    refine List.mem_map.mpr ⟨n, member, if_neg fun listed => ?_⟩
    obtain ⟨starts, ends⟩ := untouched l link n member (by simpa using listed)
    simp [starts, ends] at touches

theorem turns_retag (made : ∀ n ∈ g.nodes, Made n) (category : ∀ n ∈ g.nodes, n.id ∈ ids → n.category = kind.token)
    (untouched : Untouched ids g) : Turns id g (g.retagProperty name v ids) :=
  turns_mapNodes untouched fun n member listed => grown_retag (made n member) (category n member listed)

/-- Renaming a property, where the nodes that stand for it are listed. -/
theorem turns_renameProperty (made : ∀ n ∈ g.nodes, Made n) (crafted : ∀ n ∈ g.nodes, Crafted n)
    (listed : ∀ n ∈ g.nodes, n.id ∈ ids ↔ Asset.standsFor kind n old = true)
    (free : kind = .localVariable → new ≠ "Input" ∧ new ≠ "Output" ∧ new ≠ "Event") :
    Turns (renamedVariable kind old new) g (g.renameProperty kind old new ids) := by
  have nodes : ∀ m ∈ (g.renameProperty kind old new ids).nodes, ∃ n ∈ g.nodes,
      m = if ids.contains n.id then renamed kind old new n else n := by
    intro m inside
    obtain ⟨n, member, rfl⟩ := List.mem_map.mp inside
    exact ⟨n, member, rfl⟩
  constructor
  · intro m inside
    obtain ⟨n, member, rfl⟩ := nodes m inside
    refine ⟨n, member, ?_⟩
    split
    · rename_i stands
      obtain ⟨grown, closed⟩ := grown_renamed (made n member) (crafted n member)
        ((listed n member).mp (by simpa using stands)) free
      exact ⟨grown, fun _ => closed⟩
    · rename_i other
      have same := grown_refl n
      refine ⟨{ same with reads := fun name reads => ⟨name, reads, ?_⟩ }, fun closed => closed⟩
      refine if_neg fun ⟨relayed, named⟩ => other ?_
      rw [List.contains_iff_mem]
      refine (listed n member).mpr ?_
      obtain ⟨isVariable, first⟩ := variableName_eq_some.mp reads
      obtain ⟨p, head, names⟩ := Option.map_eq_some_iff.mp first
      simp [Asset.standsFor, Asset.propertyPin?, relayed, isVariable, head, names, named,
        show n.category = PropertyKind.localVariable.token from variable_category reads]
  · refine wired_retained (fun n member => ?_) (.refl _)
    refine ⟨if ids.contains n.id then renamed kind old new n else n, List.mem_map.mpr ⟨n, member, rfl⟩, ?_⟩
    split
    · exact retained_renamed n
    · exact retained_refl n

/-! ## A state in place of a quick state -/

theorem pin_eq_of_id (unique : UniqueIds g) (left : m ∈ g.nodes) (right : n ∈ g.nodes) (inLeft : p ∈ m.pins)
    (inRight : q ∈ n.pins) (same : p.id = q.id) : p = q :=
  List.inj_on_of_nodup_map unique.pins (List.mem_flatMap.mpr ⟨m, left, inLeft⟩)
    (List.mem_flatMap.mpr ⟨n, right, inRight⟩) same

/-- A pin of a quick state that is still found after a state has taken its place
is one of the state's. -/
theorem promoted_pin {state quick : Node} (unique : UniqueIds g) (found : g.node? self = some quick)
    (held : p ∈ quick.pins) (there : ((promoted g self state quick).pin? p.id).isSome = true) : p.isFlow = true := by
  obtain ⟨before, after, split, replaced⟩ := promoted_nodes state found
  have inside : quick ∈ g.nodes := by simp [split]
  have distinct := unique.nodes
  rw [split, List.map_append, List.map_cons, List.nodup_middle, List.nodup_cons] at distinct
  obtain ⟨r, pin⟩ := Option.isSome_iff_exists.mp there
  obtain ⟨y, inY, has, same⟩ := pin_spec pin
  rw [replaced] at inY
  have cases_ : y ∈ before ++ after ∨ y = Editor.stateFromQuick state quick := by
    simp only [List.mem_append, List.mem_cons] at inY ⊢
    tauto
  rcases cases_ with other | rfl
  · have inG : y ∈ g.nodes := by
      rw [split]
      simp only [List.mem_append, List.mem_cons] at other ⊢
      tauto
    have equal := node_eq_of_pin unique inG inside (hasPin_iff.mpr ⟨r, has, same⟩) (hasPin_iff.mpr ⟨p, held, rfl⟩)
    rw [equal] at other
    exact absurd (by simpa using List.mem_map_of_mem (f := Node.id) other) distinct.1
  · obtain ⟨q, member, rfl⟩ : ∃ q ∈ quick.inputs.filter Pin.isFlow ++ quick.outputs.filter Pin.isFlow,
        { q with node := quick.id } = r := by
      change r ∈ (Node.mapPins _ _).pins at has
      rw [pins_mapPins] at has
      exact List.mem_map.mp has
    obtain ⟨inPins, flow⟩ : q ∈ quick.pins ∧ q.isFlow = true := by
      simp only [List.mem_append, List.mem_filter, Node.pins] at member ⊢
      tauto
    exact pin_eq_of_id unique inside inside inPins held same ▸ flow

/-- The links that stay have both their pins. -/
theorem promoted_links {state quick : Node} (link : l ∈ (promoted g self state quick).links) : l ∈ g.links ∧
    ((promoted g self state quick).pin? l.source).isSome = true ∧ ((promoted g self state quick).pin? l.target).isSome = true := by
  obtain ⟨before, spared⟩ := List.mem_filter.mp link
  refine ⟨before, ?_⟩
  by_contra stale
  refine absurd spared ?_
  rw [not_and_or, Bool.not_eq_true, Option.isSome_eq_false_iff, Bool.not_eq_true, Option.isSome_eq_false_iff] at stale
  rw [Bool.not_eq_true', Bool.not_eq_false, List.contains_iff_mem]
  exact List.mem_map.mpr ⟨l, List.mem_filter.mpr ⟨before, Bool.or_eq_true_iff.mpr stale⟩, rfl⟩

theorem turns_promoted {state quick : Node} (unique : UniqueIds g) (quickMade : Made quick) (made : Made state)
    (found : g.node? self = some quick) (kind : quick.kind = .quickState) (shape : StateNode state) :
    Turns id g (promoted g self state quick) := by
  have inside : quick ∈ g.nodes := List.mem_of_find?_eq_some found
  obtain ⟨grown, closed⟩ := grown_stateFromQuick made quickMade (quickState_iff.mp kind)
    ⟨shape.category, shape.name⟩
  have takes := promoted_takes state found
  constructor
  · intro m member
    rcases promoted_origin found member with old | rfl
    · exact ⟨m, old, grown_refl m, fun closed => closed⟩
    · exact ⟨quick, inside, grown, fun _ => closed⟩
  · refine fun wired => ⟨fun l link => ?_, wired.apart.sublist (List.filter_sublist.map _)⟩
    obtain ⟨old, starts, ends⟩ := promoted_links link
    refine joins_of_pins (fun n member p output source => ?_) (fun n member p input target => ?_)
      (wired.joins l old)
    · rcases promoted_survivor state found member with still | rfl
      · exact ⟨n, still, rfl, p, output, rfl, rfl, rfl⟩
      · have flow := promoted_pin unique found (List.mem_append_right _ output) (source ▸ starts)
        exact ⟨_, takes, rfl, { p with node := n.id },
          List.mem_map.mpr ⟨p, List.mem_filter.mpr ⟨output, flow⟩, rfl⟩, rfl, rfl, rfl⟩
    · rcases promoted_survivor state found member with still | rfl
      · exact ⟨n, still, rfl, p, input, rfl, rfl, rfl⟩
      · have flow := promoted_pin unique found (List.mem_append_left _ input) (target ▸ ends)
        exact ⟨_, takes, rfl, { p with node := n.id },
          List.mem_map.mpr ⟨p, List.mem_filter.mpr ⟨input, flow⟩, rfl⟩, rfl, rfl, rfl⟩

/-! ## Pins of transitions -/

/-- A node that has got more pins, perhaps. -/
structure Spread (n m : Node) : Prop where
  grown : Grown id n m
  retained : Retained n m

theorem spread_refl (n : Node) : Spread n n := ⟨grown_refl n, retained_refl n⟩

theorem spread_trans (first : Spread n m) {k : Node} (second : Spread m k) : Spread n k where
  grown :=
    { id := second.grown.id.trans first.grown.id
      category := second.grown.category.trans first.grown.category
      made := fun made => second.grown.made (first.grown.made made)
      posed := fun made posed => second.grown.posed (first.grown.made made) (first.grown.posed made posed)
      ends := fun ends => first.grown.ends (second.grown.ends ends)
      machine := fun machine => first.grown.machine (second.grown.machine machine)
      transition := fun transition => second.grown.transition (first.grown.transition transition)
      reads := fun name reads => by
        obtain ⟨_, between, rfl⟩ := second.grown.reads name reads
        exact first.grown.reads _ between
      sets := fun sets => first.grown.sets (second.grown.sets sets) }
  retained := by
    refine ⟨second.retained.id.trans first.retained.id, fun p inside => ?_, fun p inside => ?_⟩
    · obtain ⟨q, inQ, sameQ, typeQ, storageQ⟩ := first.retained.inputs p inside
      obtain ⟨r, inR, sameR, typeR, storageR⟩ := second.retained.inputs q inQ
      exact ⟨r, inR, sameR.trans sameQ, typeR.trans typeQ, storageR.trans storageQ⟩
    · obtain ⟨q, inQ, sameQ, typeQ, storageQ⟩ := first.retained.outputs p inside
      obtain ⟨r, inR, sameR, typeR, storageR⟩ := second.retained.outputs q inQ
      exact ⟨r, inR, sameR.trans sameQ, typeR.trans typeQ, storageR.trans storageQ⟩

section Attached
variable {ins outs : List Pin} {place : Node → Point} {start finish transition : NodeId} {base i j : Nat} {middle : Point}

/-- A node with more pins. -/
def attach (ins outs : List Pin) (place : Node → Point) (n : Node) : Node :=
  { n with inputs := n.inputs ++ ins, outputs := n.outputs ++ outs, position := place n }

private theorem spread_attach (made : ∀ n ∈ g.nodes, Made n) (some_ : ins ++ outs ≠ [])
    (inputs : ∀ p ∈ ins, p.node = self ∧ p.kind = .input) (outputs : ∀ p ∈ outs, p.node = self ∧ p.kind = .output) :
    List.Forall₂ Spread g.nodes (g.modifyNode self (attach ins outs place)).nodes := by
  refine forall₂_modifyFirst spread_refl fun n member passes => ⟨?_, rfl, ?_, ?_⟩
  · have named : n.id = self := by simpa using passes
    subst named
    exact grown_attached (made n member) some_ inputs outputs
  · exact fun p inside => ⟨p, List.mem_append_left _ inside, rfl, rfl, rfl⟩
  · exact fun p inside => ⟨p, List.mem_append_left _ inside, rfl, rfl, rfl⟩

private theorem attach_member (member : n ∈ g.nodes) (named : n.id = self) :
    ∃ m ∈ (g.modifyNode self (attach ins outs place)).nodes, m.id = self ∧ (∀ p ∈ ins, p ∈ m.inputs) ∧
      ∀ p ∈ outs, p ∈ m.outputs := by
  have passes : (g.nodes.find? (·.id == self)).isSome = true := by
    rw [List.find?_isSome]
    exact ⟨n, member, by simpa using named⟩
  obtain ⟨k, found⟩ := Option.isSome_iff_exists.mp passes
  obtain ⟨before, after, -, modified, -⟩ := modifyFirst_eq (f := attach ins outs place) found
  refine ⟨attach ins outs place k, ?_, ?_, fun p inside => List.mem_append_right _ inside,
    fun p inside => List.mem_append_right _ inside⟩
  · rw [SubGraph.modifyNode, modified]
    simp
  · have same : k.id = self := by simpa using List.find?_some found
    exact same

/-- A node has a trigger pin of a given number among its inputs or outputs. -/
def Triggers (pins : Node → List Pin) (g : SubGraph) (self : NodeId) (i : Nat) : Prop :=
  ∃ m ∈ g.nodes, m.id = self ∧ ∃ p ∈ pins m, p.id = ⟨i⟩ ∧ p.type = .flow ∧ p.storage = .value

theorem joins_triggers (starts : Triggers Node.outputs g start i) (ends : Triggers Node.inputs g finish j)
    (differ : start ≠ finish) (source : l.source = ⟨i⟩) (target : l.target = ⟨j⟩) : Joins g l := by
  obtain ⟨m, inM, rfl, p, output, idP, typeP, storageP⟩ := starts
  obtain ⟨n, inN, rfl, q, input, idQ, typeQ, storageQ⟩ := ends
  exact ⟨m, inM, p, output, n, inN, q, input, idP.trans source.symm, idQ.trans target.symm, differ,
    typeP.trans typeQ.symm, storageP.trans storageQ.symm⟩

private theorem triggers_spread (each : List.Forall₂ Spread g.nodes h.nodes) :
    (Triggers Node.outputs g self i → Triggers Node.outputs h self i) ∧
      (Triggers Node.inputs g self i → Triggers Node.inputs h self i) := by
  constructor
  · rintro ⟨m, inside, named, p, output, id, type, storage⟩
    obtain ⟨k, survives, spread⟩ := LoweringSemantics.origin_of_mem each.flip inside
    obtain ⟨q, also, idQ, typeQ, storageQ⟩ := spread.retained.outputs p output
    exact ⟨k, survives, spread.retained.id.trans named, q, also, idQ.trans id, typeQ.trans type, storageQ.trans storage⟩
  · rintro ⟨m, inside, named, p, input, id, type, storage⟩
    obtain ⟨k, survives, spread⟩ := LoweringSemantics.origin_of_mem each.flip inside
    obtain ⟨q, also, idQ, typeQ, storageQ⟩ := spread.retained.inputs p input
    exact ⟨k, survives, spread.retained.id.trans named, q, also, idQ.trans id, typeQ.trans type, storageQ.trans storage⟩

/-- The pins of a transition are attached to three nodes, one after the other. -/
theorem withTransition_attach : withTransition base start finish transition middle g =
    ((g.modifyNode start (attach [] [Editor.transitionPin base start .output] Node.position)).modifyNode finish
      (attach [Editor.transitionPin (base + 3) finish .input] [] Node.position)).modifyNode transition
        (attach [Editor.transitionPin (base + 1) transition .input] [Editor.transitionPin (base + 2) transition .output]
          fun _ => middle) := by
  have leaves : attach [] [Editor.transitionPin base start .output] Node.position = fun n =>
      { n with outputs := n.outputs ++ [Editor.transitionPin base start .output] } := by
    funext n
    simp only [attach, List.append_nil]
  have arrives : attach [Editor.transitionPin (base + 3) finish .input] [] Node.position = fun n =>
      { n with inputs := n.inputs ++ [Editor.transitionPin (base + 3) finish .input] } := by
    funext n
    simp only [attach, List.append_nil]
  rw [leaves, arrives]
  rfl

private theorem spread_joined {xs ys zs : List Node} (left : List.Forall₂ Spread xs ys) (right : List.Forall₂ Spread ys zs) :
    List.Forall₂ Spread xs zs := by
  induction left generalizing zs with
  | nil =>
    cases right
    exact .nil
  | cons head tail ih =>
    cases right with
    | cons head' tail' => exact .cons (spread_trans head head') (ih tail')

private theorem spread_steps (base : Nat) (start finish transition : NodeId) (middle : Point) (made : ∀ n ∈ g.nodes, Made n) :
    List.Forall₂ Spread g.nodes (g.modifyNode start (attach [] [Editor.transitionPin base start .output] Node.position)).nodes ∧
    List.Forall₂ Spread (g.modifyNode start (attach [] [Editor.transitionPin base start .output] Node.position)).nodes
      ((g.modifyNode start (attach [] [Editor.transitionPin base start .output] Node.position)).modifyNode finish
        (attach [Editor.transitionPin (base + 3) finish .input] [] Node.position)).nodes ∧
    List.Forall₂ Spread ((g.modifyNode start (attach [] [Editor.transitionPin base start .output] Node.position)).modifyNode finish
        (attach [Editor.transitionPin (base + 3) finish .input] [] Node.position)).nodes
      (withTransition base start finish transition middle g).nodes := by
  have whole {g h : SubGraph} (each : List.Forall₂ Spread g.nodes h.nodes) (made : ∀ n ∈ g.nodes, Made n) :
      ∀ m ∈ h.nodes, Made m := by
    intro m inside
    obtain ⟨n, member, spread⟩ := LoweringSemantics.origin_of_mem each inside
    exact spread.grown.made (made n member)
  have first : List.Forall₂ Spread g.nodes
      (g.modifyNode start (attach [] [Editor.transitionPin base start .output] Node.position)).nodes :=
    spread_attach made (by simp) (by simp) (by simp [Editor.transitionPin, Pin.ofType])
  have second : List.Forall₂ Spread (g.modifyNode start (attach [] [Editor.transitionPin base start .output] Node.position)).nodes
      ((g.modifyNode start (attach [] [Editor.transitionPin base start .output] Node.position)).modifyNode finish
        (attach [Editor.transitionPin (base + 3) finish .input] [] Node.position)).nodes :=
    spread_attach (whole first made) (by simp) (by simp [Editor.transitionPin, Pin.ofType]) (by simp)
  refine ⟨first, second, ?_⟩
  rw [withTransition_attach]
  exact spread_attach (whole second (whole first made)) (by simp) (by simp [Editor.transitionPin, Pin.ofType])
    (by simp [Editor.transitionPin, Pin.ofType])

/-- Nodes keep their pins when those of a transition are attached. -/
theorem spread_withTransition (made : ∀ n ∈ g.nodes, Made n) :
    List.Forall₂ Spread g.nodes (withTransition base start finish transition middle g).nodes := by
  obtain ⟨first, second, third⟩ := spread_steps base start finish transition middle made
  exact spread_joined first (spread_joined second third)

/-- A graph in which the pins of a transition have been attached to it and to the
two states that it will join. -/
structure Threaded (base : Nat) (start finish transition : NodeId) (g h : SubGraph) : Prop where
  nodes : List.Forall₂ Spread g.nodes h.nodes
  links : h.links = g.links
  leaves : Triggers Node.outputs h start base
  enters : Triggers Node.inputs h transition (base + 1)
  goesOn : Triggers Node.outputs h transition (base + 2)
  arrives : Triggers Node.inputs h finish (base + 3)

theorem threaded_withTransition (made : ∀ n ∈ g.nodes, Made n) (startIn : start ∈ g.nodes.map Node.id)
    (finishIn : finish ∈ g.nodes.map Node.id) (transitionIn : transition ∈ g.nodes.map Node.id) :
    Threaded base start finish transition g (withTransition base start finish transition middle g) := by
  have ids {g h : SubGraph} {self : NodeId} (each : List.Forall₂ Spread g.nodes h.nodes) (inside : self ∈ g.nodes.map Node.id) :
      ∃ m ∈ h.nodes, m.id = self := by
    obtain ⟨n, member, named⟩ := List.mem_map.mp inside
    obtain ⟨m, survives, spread⟩ := LoweringSemantics.origin_of_mem each.flip member
    exact ⟨m, survives, spread.retained.id.trans named⟩
  -- The three nodes get their pins one after the other.
  obtain ⟨first, second, third⟩ := spread_steps base start finish transition middle made
  rw [withTransition_attach] at third ⊢
  refine ⟨spread_joined first (spread_joined second third), rfl, ?_, ?_, ?_, ?_⟩
  · obtain ⟨n, member, named⟩ := List.mem_map.mp startIn
    obtain ⟨m, inside, same, -, outs⟩ := attach_member member named
    exact (triggers_spread third).1 ((triggers_spread second).1
      ⟨m, inside, same, _, outs _ List.mem_cons_self, rfl, rfl, rfl⟩)
  · obtain ⟨n, member, named⟩ := ids (spread_joined first second) transitionIn
    obtain ⟨m, inside, same, ins, -⟩ := attach_member member named
    exact ⟨m, inside, same, _, ins _ List.mem_cons_self, rfl, rfl, rfl⟩
  · obtain ⟨n, member, named⟩ := ids (spread_joined first second) transitionIn
    obtain ⟨m, inside, same, -, outs⟩ := attach_member member named
    exact ⟨m, inside, same, _, outs _ List.mem_cons_self, rfl, rfl, rfl⟩
  · obtain ⟨n, member, named⟩ := ids first finishIn
    obtain ⟨m, inside, same, ins, -⟩ := attach_member member named
    exact (triggers_spread third).2 ⟨m, inside, same, _, ins _ List.mem_cons_self, rfl, rfl, rfl⟩

end Attached

end PoseGraph.GraphWiring
