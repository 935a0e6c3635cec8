import PoseGraph.Proofs.EditRuns
import PoseGraph.Proofs.LinkingEdits
import PoseGraph.Proofs.Unlinking

/-! What creating a link does, exactly, and what removing it again does. The link takes the
place of those that ended in its input. Whether the graph is as it was in the end depends
on what the input held before. -/
namespace PoseGraph.LinkReversal
open AssetOrder EditOutcomes EditRuns Editor EditorCoherence GraphDependencies GraphWiring LinkEdits LinkingEdits NodeFrames Unlinking

variable {e f : Editor} {g h k : SubGraph} {n : Node} {p s t : Pin} {pin start finish : PinId} {l new : Link}
variable {owner : NodeId} {palette : Palette} {rests : Bool} {cut : Link → Bool} {literal : Node → Pin → Value}

/-- The literal that an input of the active graph holds while nothing is linked to it. -/
def idleValue (e : Editor) (g : SubGraph) (n : Node) (p : Pin) : Value :=
  if Resting e.asset e.activeOwner g p.id then .int64 0 else SubGraph.restValue (e.palette e.activeOwner) n p

/-- What linking an output to an input makes of the active graph. The input becomes void and loses
its other links. If it had some, the pose of the output comes to rest. -/
structure LinkCreated (e : Editor) (g : SubGraph) (s t : Pin) (f : Editor) (h : SubGraph) : Prop where
  asset : f.asset = e.asset.modifyGraph e.activeOwner fun _ => h
  path : f.path = e.path
  links : h.links = (g.links.filter fun l => l.target != t.id) ++
    [{ id := ⟨e.nextId⟩, source := s.id, target := t.id, color := s.type.color }]
  nodes : h.nodes = g.nodes.map (resettled fun _ p =>
    if p.id = t.id then .void
    else if (∃ l ∈ g.links, l.target = t.id) ∧ Resting e.asset e.activeOwner h p.id then .int64 0
    else p.value)

/-- What removing that link again makes of the graph. -/
structure LinkRemoved (e : Editor) (g : SubGraph) (t : Pin) (h : SubGraph) (f : Editor) (k : SubGraph) : Prop where
  asset : f.asset = e.asset.modifyGraph e.activeOwner fun _ => k
  links : k.links = g.links.filter fun l => l.target != t.id
  nodes : k.nodes = h.nodes.map (resettled fun n p =>
    if p.id = t.id then idleValue e k n p
    else if Resting e.asset e.activeOwner k p.id then .int64 0
    else p.value)

/-- The two pins are an output and an input of the graph. -/
structure Oriented (g : SubGraph) (start finish : PinId) (s t : Pin) : Prop where
  source : g.pin? s.id = some s
  target : g.pin? t.id = some t
  output : s.kind = .output
  input : t.kind = .input
  given : start = s.id ∧ finish = t.id ∨ start = t.id ∧ finish = s.id

/-- Nothing is linked to an input, and it and the pose of the output hold what they hold then. -/
structure AtRest (e : Editor) (g : SubGraph) (t : Pin) : Prop where
  free : ∀ l ∈ g.links, l.target ≠ t.id
  input : ∀ n ∈ g.nodes, ∀ p ∈ n.pins, p.id = t.id → p.value = idleValue e g n p
  pose : ∀ n ∈ g.nodes, ∀ p ∈ n.pins, Resting e.asset e.activeOwner g p.id → p.value = .int64 0

/-! ## Creating a link -/

/-- Where a link is allowed, it leads from the one of the two pins that is an output. -/
theorem oriented_pins (allowed : g.linkVerdict start finish = .canConnect) :
    ∃ s t, Oriented g start finish s t ∧ orientLink g start finish = some (s.id, t.id, s.type) := by
  obtain ⟨p, q, first, second, -, kinds, -, -⟩ := verdict_spec allowed
  obtain ⟨-, -, -, rfl⟩ := pin_spec first
  obtain ⟨-, -, -, rfl⟩ := pin_spec second
  cases start : p.kind with
  | input =>
    cases finish : q.kind with
    | input => exact absurd (start.trans finish.symm) kinds
    | output =>
      exact ⟨q, p, ⟨second, first, finish, start, .inr ⟨rfl, rfl⟩⟩, by simp [orientLink, first, second, start]⟩
  | output =>
    cases finish : q.kind with
    | input => exact ⟨p, q, ⟨first, second, start, finish, .inl ⟨rfl, rfl⟩⟩, by simp [orientLink, first, second, start]⟩
    | output => exact absurd (start.trans finish.symm) kinds

/-- The graph with a link to an input that holds nothing. -/
def joined (g : SubGraph) (new : Link) : SubGraph :=
  (resettle (fun _ p => if p.id = new.target then .void else p.value) g).addLink new

/-- The links that a new one displaces. -/
def displaced (new l : Link) : Bool := l.target == new.target && l.id != new.id

/-- The graph with a link that has displaced the others at its input. -/
def relinked (palette : Palette) (rests : Bool) (g : SubGraph) (new : Link) : SubGraph :=
  resettle (fun _ p => if p.id = new.target then .void else p.value)
    (unlinked palette rests (displaced new) (joined g new))

theorem unique_joined (unique : UniqueIds g) (new : Link) : UniqueIds (joined g new) :=
  ⟨(unique_resettle unique).nodes, (unique_resettle unique).pins⟩

theorem distinct_joined (distinct : (g.links.map Link.id).Nodup) (fresh : ∀ l ∈ g.links, l.id ≠ new.id) :
    ((joined g new).links.map Link.id).Nodup := by
  change ((g.links ++ [new]).map Link.id).Nodup
  rw [List.map_append, List.nodup_append]
  refine ⟨distinct, List.nodup_singleton _, fun a old b own => ?_⟩
  obtain ⟨l, link, rfl⟩ := List.mem_map.mp old
  rw [List.mem_singleton.mp own]
  exact fresh l link

/-- Without links to displace, nothing more happens. -/
theorem relinked_idle (none : ∀ l ∈ (joined g new).links, displaced new l = false) :
    relinked palette rests g new = joined g new := by
  have twice : resettle (fun _ p => if p.id = new.target then .void else p.value)
      (resettle (fun _ p => if p.id = new.target then .void else p.value) g) =
        resettle (fun _ p => if p.id = new.target then .void else p.value) g := by
    rw [resettle_resettle]
    refine resettle_congr fun n _ p _ => ?_
    change (if p.id = new.target then Value.void else if p.id = new.target then .void else p.value) = _
    split <;> rfl
  rw [relinked, unlinked_idle none]
  exact congrArg₂ SubGraph.mk (congrArg SubGraph.nodes twice) rfl

theorem path_displaceLinks (e : Editor) (owner : NodeId) (pin : PinId) (kept : LinkId) :
    (e.displaceLinks owner pin kept).path = e.path := by
  rcases displaceLinks_cases e owner pin kept with same | ⟨ids, same⟩
  · rw [same]
  · rw [same]
    exact path_removeLinksIn e owner ids

theorem displaceLinks_asset (unique : UniqueIds g) (distinct : (g.links.map Link.id).Nodup)
    (fresh : ∀ l ∈ g.links, l.id ≠ new.id) (held : f.asset.graph? owner = some (joined g new)) :
    (f.displaceLinks owner new.target new.id).asset =
      f.asset.modifyGraph owner fun _ => relinked (f.palette owner) (posesRest f.asset owner) g new := by
  have kept : ((joined g new).links.map Link.id).Nodup := distinct_joined distinct fresh
  rw [displaceLinks, held]
  dsimp only
  split
  · rename_i none
    refine (modifyGraph_self fun g' also => ?_).symm
    obtain rfl : joined g new = g' := Option.some.inj (held.symm.trans also)
    refine relinked_idle fun l link => Bool.eq_false_iff.mpr ?_
    exact List.filter_eq_nil_iff.mp (List.isEmpty_iff.mp none) l link
  · have removed := removeLinksIn_filter (unique_joined unique new) kept held (displaced new)
    rw [Editor.modifyGraph, modifyAsset]
    dsimp only
    refine (congrArg (Asset.modifyGraph · owner _) removed).trans ?_
    rw [modifyGraph_modifyGraph]
    refine modifyGraph_congr fun g' also => ?_
    obtain rfl : joined g new = g' := Option.some.inj (held.symm.trans also)
    rw [Function.comp_apply, unlinkedIn, withValue_eq (unique_unlinked (unique_joined unique new)), relinked]

section Relinked
variable (fresh : ∀ l ∈ g.links, l.id ≠ new.id)
include fresh

theorem displaced_iff (link : l ∈ (joined g new).links) : displaced new l = true ↔ l ∈ g.links ∧ l.target = new.target := by
  rw [displaced, Bool.and_eq_true, beq_iff_eq, bne_iff_ne]
  rcases List.mem_append.mp link with old | own
  · exact ⟨fun both => ⟨old, both.1⟩, fun both => ⟨both.2, fresh l old⟩⟩
  · rw [List.mem_singleton.mp own]
    exact ⟨fun both => absurd rfl both.2, fun both => absurd rfl (fresh new both.1)⟩

theorem links_relinked : (relinked palette rests g new).links = (g.links.filter fun l => l.target != new.target) ++ [new] := by
  have links : (relinked palette rests g new).links = (g.links ++ [new]).filter fun l => !displaced new l := rfl
  have own : displaced new new = false := by simp [displaced]
  rw [links, List.filter_append, List.filter_cons_of_pos (by simp [own]), List.filter_nil]
  refine congrArg (· ++ [new]) (List.filter_congr fun l link => ?_)
  rw [Bool.eq_iff_iff, Bool.not_eq_true', ← Bool.not_eq_true, bne_iff_ne,
    displaced_iff fresh (List.mem_append_left _ link), and_iff_right link]

theorem nodes_relinked (a : Asset) : (relinked palette (posesRest a owner) g new).nodes = g.nodes.map (resettled fun _ p =>
    if p.id = new.target then .void
    else if (∃ l ∈ g.links, l.target = new.target) ∧ Resting a owner (relinked palette (posesRest a owner) g new) p.id then
      .int64 0
    else p.value) := by
  let void (_ : Node) (p : Pin) : Value := if p.id = new.target then .void else p.value
  have rested (pin : PinId) : Bared (posesRest a owner) (displaced new) (joined g new) pin ↔
      (∃ l ∈ g.links, l.target = new.target) ∧ Resting a owner (relinked palette (posesRest a owner) g new) pin := by
    have some_ : (∃ l ∈ (joined g new).links, displaced new l = true) ↔ ∃ l ∈ g.links, l.target = new.target := by
      constructor
      · rintro ⟨l, link, gone⟩
        exact ⟨l, (displaced_iff fresh link).mp gone⟩
      · rintro ⟨l, link, ends⟩
        have also : l ∈ (joined g new).links := List.mem_append_left _ link
        exact ⟨l, also, (displaced_iff fresh also).mpr ⟨link, ends⟩⟩
    have output : (relinked palette (posesRest a owner) g new).outputPin? =
        (unlinked palette (posesRest a owner) (displaced new) (joined g new)).outputPin? := outputPin_resettle void _
    rw [bared_iff palette (posesRest a owner), some_, ← output]
    rfl
  have literals : resettle void (resettle (cutLiteral palette (posesRest a owner) (displaced new) (joined g new))
      (resettle void g)) = resettle (fun _ p =>
        if p.id = new.target then .void
        else if (∃ l ∈ g.links, l.target = new.target) ∧ Resting a owner (relinked palette (posesRest a owner) g new) p.id then
          .int64 0
        else p.value) g := by
    rw [resettle_resettle, resettle_resettle]
    refine resettle_congr fun n _ p _ => ?_
    by_cases here : p.id = new.target
    · simp only [void, Pin.withValue, here, if_true]
    · have kept : ¬Severed (displaced new) (joined g new) p.id := by
        rintro ⟨l, link, gone, ends⟩
        exact here (ends.symm.trans ((displaced_iff fresh link).mp gone).2)
      simp only [void, Pin.withValue, cutLiteral, rested, kept, here, and_false, if_false]
  exact congrArg SubGraph.nodes literals

end Relinked

/-- The nodes of the active graph once an input has lost all links into it, and nothing else any. -/
theorem nodes_freed (own : ∀ l ∈ h.links, cut l = true ↔ l.target = t.id) (some_ : ∃ l ∈ h.links, l.target = t.id)
    (input : ∀ n ∈ h.nodes, ∀ p ∈ n.pins, p.id = t.id → p.kind = .input) :
    (unlinkedIn e e.activeOwner cut h).nodes = h.nodes.map (resettled fun n p =>
      if p.id = t.id then idleValue e (unlinkedIn e e.activeOwner cut h) n p
      else if Resting e.asset e.activeOwner (unlinkedIn e e.activeOwner cut h) p.id then .int64 0
      else p.value) := by
  obtain ⟨l, link, ends⟩ := some_
  have gone : cut l = true := (own l link).mpr ends
  have rested (pin : PinId) : Bared (posesRest e.asset e.activeOwner) cut h pin ↔
      Resting e.asset e.activeOwner (unlinkedIn e e.activeOwner cut h) pin := by
    rw [bared_iff (e.palette e.activeOwner) (posesRest e.asset e.activeOwner), and_iff_right ⟨l, link, gone⟩]
    rfl
  have severed (pin : PinId) : Severed cut h pin ↔ pin = t.id := by
    constructor
    · rintro ⟨x, inside, lost, rfl⟩
      exact (own x inside).mp lost
    · rintro rfl
      exact ⟨l, link, gone, ends⟩
  refine congrArg SubGraph.nodes (resettle_congr fun n member p inside => ?_ : resettle _ h = resettle _ h)
  rw [cutLiteral, idleValue]
  simp only [rested, severed]
  by_cases here : p.id = t.id
  · have kind := input n member p inside here
    simp only [here, kind, and_self, if_true]
  · simp only [here, and_false, if_false]

/-! ## In an editor -/

section Editors
variable (held : e.activeGraph? = some g) (unique : UniqueIds g) (distinct : (g.links.map Link.id).Nodup)
variable (fresh : ∀ l ∈ g.links, l.id ≠ ⟨e.nextId⟩)
include held unique distinct fresh

theorem createLink_created (oriented : orientLink g start finish = some (s.id, t.id, s.type)) :
    (e.createLink start finish).2 = some ⟨e.nextId⟩ ∧
      ∃ h, UniqueIds h ∧ (h.links.map Link.id).Nodup ∧ LinkCreated e g s t (e.createLink start finish).1 h := by
  let new : Link := { id := ⟨e.nextId⟩, source := s.id, target := t.id, color := s.type.color }
  let added : Editor := ({ e with nextId := e.nextId + 1 } : Editor).modifyGraph e.activeOwner fun g =>
    (g.modifyPin t.id (·.withValue .void)).addLink new
  have asset : added.asset = e.asset.modifyGraph e.activeOwner (joined · new) := by
    refine modifyGraph_congr fun g' also => ?_
    obtain rfl : g = g' := Option.some.inj (held.symm.trans also)
    rw [withValue_eq unique, joined]
  have there : added.asset.graph? e.activeOwner = some (joined g new) := by
    rw [asset, graph_modifyGraph, if_pos rfl, show e.asset.graph? e.activeOwner = some g from held]
    rfl
  have kind : added.asset.ownerKind? e.activeOwner = e.asset.ownerKind? e.activeOwner := by
    rw [asset]
    exact ownerKind_resettled e.asset e.activeOwner e.activeOwner fun g => ⟨_, rfl⟩
  have final := displaceLinks_asset unique distinct fresh there
  have created : e.createLink start finish =
      ((added.displaceLinks e.activeOwner t.id ⟨e.nextId⟩).invalidate, some ⟨e.nextId⟩) := by
    rw [createLink, createLinkIn, show e.asset.graph? e.activeOwner = some g from held, Option.bind_some, oriented]
  rw [created]
  have whole : (added.displaceLinks e.activeOwner t.id ⟨e.nextId⟩).asset = e.asset.modifyGraph e.activeOwner fun _ =>
      relinked (e.palette e.activeOwner) (posesRest e.asset e.activeOwner) g new := by
    rw [final, palette_congr kind, posesRest_congr kind, asset, modifyGraph_modifyGraph]
    rfl
  refine ⟨rfl, relinked (e.palette e.activeOwner) (posesRest e.asset e.activeOwner) g new, ?_, ?_, ?_⟩
  · exact ⟨(unique_resettle (unique_unlinked (unique_joined unique new))).nodes,
      (unique_resettle (unique_unlinked (unique_joined unique new))).pins⟩
  · exact (distinct_joined distinct fresh).sublist (List.filter_sublist.map _)
  · exact ⟨whole, path_displaceLinks added _ _ _, links_relinked fresh, nodes_relinked fresh e.asset⟩

omit unique distinct in
/-- The link that has been created goes, and nothing else with it. -/
theorem removeLink_removed (input : ∀ n ∈ g.nodes, ∀ p ∈ n.pins, p.id = t.id → p.kind = .input)
    (uniqueH : UniqueIds h) (distinctH : (h.links.map Link.id).Nodup) (created : LinkCreated e g s t f h) :
    (f.removeLink ⟨e.nextId⟩).2 = true ∧ ∃ k, LinkRemoved e g t h (f.removeLink ⟨e.nextId⟩).1 k := by
  have owner : f.activeOwner = e.activeOwner := by rw [activeOwner, activeOwner, created.path]
  have there : f.asset.graph? e.activeOwner = some h := by
    rw [created.asset, graph_modifyGraph, if_pos rfl, show e.asset.graph? e.activeOwner = some g from held]
    rfl
  have kind : f.asset.ownerKind? e.activeOwner = e.asset.ownerKind? e.activeOwner := by
    rw [created.asset]
    refine ownerKind_modifyGraph fun g' also => ?_
    obtain rfl : g = g' := Option.some.inj (held.symm.trans also)
    rw [SubGraph.node?, created.nodes, List.find?_map, Option.map_map]
    rfl
  let cut (l : Link) : Bool := [(⟨e.nextId⟩ : LinkId)].contains l.id
  let k := unlinkedIn e e.activeOwner cut h
  have mem {l : Link} : l ∈ h.links ↔ l ∈ g.links ∧ l.target ≠ t.id ∨
      l = { id := ⟨e.nextId⟩, source := s.id, target := t.id, color := s.type.color } := by
    rw [created.links, List.mem_append, List.mem_filter, bne_iff_ne, List.mem_singleton]
  -- Of all links, the new one is the one to go, and the only one at its input.
  have own (l : Link) (link : l ∈ h.links) : cut l = true ↔ l.target = t.id := by
    rw [List.contains_iff_mem, List.mem_singleton]
    rcases mem.mp link with ⟨old, other⟩ | rfl
    · exact ⟨fun same => absurd same (fresh l old), fun same => absurd same other⟩
    · exact ⟨fun _ => rfl, fun _ => rfl⟩
  have removed := removeLinksIn_asset uniqueH distinctH there [⟨e.nextId⟩]
  have asset : (f.removeLink ⟨e.nextId⟩).1.asset = e.asset.modifyGraph e.activeOwner fun _ => k := by
    rw [removeLink, removeLinks, owner, removed, created.asset, modifyGraph_modifyGraph]
    exact modifyGraph_congr fun g' _ => unlinkedIn_congr kind
  refine ⟨?_, k, asset, ?_, ?_⟩
  · rw [removeLink, removeLinks, owner, removeLinksIn_accepted there]
    exact ⟨_, mem.mpr (.inr rfl), List.mem_singleton_self _⟩
  · have kept : (h.links.filter fun l => !cut l) = h.links.filter fun l => l.target != t.id :=
      List.filter_congr fun l link => by
        rw [Bool.eq_iff_iff, Bool.not_eq_true', ← Bool.not_eq_true, bne_iff_ne, own l link]
    change (h.links.filter fun l => !cut l) = _
    rw [kept, created.links, List.filter_append, List.filter_filter]
    simp
  · refine nodes_freed own ⟨_, mem.mpr (.inr rfl), rfl⟩ fun n member p inside => ?_
    rw [created.nodes] at member
    obtain ⟨n', before, rfl⟩ := List.mem_map.mp member
    rw [resettled, pins_mapPins] at inside
    obtain ⟨q, own, rfl⟩ := List.mem_map.mp inside
    exact input n' before q own

omit unique distinct fresh in
/-- If nothing was displaced and all literals were at rest, removing the new link leaves no trace. -/
theorem removed_restores {f' : Editor} (linked : LinkCreated e g s t f h) (back : LinkRemoved e g t h f' k)
    (rest : AtRest e g t) : f'.asset = e.asset := by
  have links : k.links = g.links := by
    rw [back.links]
    exact List.filter_eq_self.mpr fun l link => bne_iff_ne.mpr (rest.free l link)
  have none : ¬∃ l ∈ g.links, l.target = t.id := by
    rintro ⟨l, link, ends⟩
    exact rest.free l link ends
  have output : k.outputPin? = g.outputPin? := by
    rw [SubGraph.outputPin?, SubGraph.nodeNamed?, back.nodes, linked.nodes]
    exact (outputPin_resettle _ (resettle _ g)).trans (outputPin_resettle _ g)
  have resting (pin : PinId) : Resting e.asset e.activeOwner k pin ↔ Resting e.asset e.activeOwner g pin := by
    rw [Resting, Resting, output, SubGraph.isLinked, SubGraph.isLinked, links]
  have idle (n : Node) (p : Pin) : idleValue e k n p = idleValue e g n p := by
    simp only [idleValue, resting]
  have literals : resettle (fun n p => if p.id = t.id then idleValue e k n p
      else if Resting e.asset e.activeOwner k p.id then .int64 0 else p.value)
        (resettle (fun _ p => if p.id = t.id then .void
          else if (∃ l ∈ g.links, l.target = t.id) ∧ Resting e.asset e.activeOwner h p.id then .int64 0
          else p.value) g) = g := by
    rw [resettle_resettle]
    refine (resettle_congr fun n member p inside => ?_).trans (resettle_id g)
    by_cases here : p.id = t.id
    · change (if p.id = t.id then idleValue e k (resettled _ n) (p.withValue _) else _) = _
      rw [if_pos here, rest.input n member p inside here, ← idle]
      rfl
    · simp only [Pin.withValue, here, none, false_and, if_false, resting]
      split
      · rename_i unlinked
        exact (rest.pose n member p inside unlinked).symm
      · rfl
  have nodes : k.nodes = g.nodes := by
    rw [back.nodes, linked.nodes]
    exact congrArg SubGraph.nodes literals
  have whole : k = g := by
    cases k
    cases g
    exact congrArg₂ SubGraph.mk nodes links
  rw [back.asset, whole]
  exact modifyGraph_self fun g' also => Option.some.inj (held.symm.trans also)

/-- A link that is allowed is created in place of the former one at its input. Removing it sets
the input to rest, which undoes it all if the graph was at rest. -/
theorem createLink_reversal (allowed : e.linkVerdict start finish = .canConnect) :
    ∃ s t h k, Oriented g start finish s t ∧
      ((e.createLink start finish).2 = some ⟨e.nextId⟩ ∧ LinkCreated e g s t (e.createLink start finish).1 h) ∧
      (((e.createLink start finish).1.removeLink ⟨e.nextId⟩).2 = true ∧
        LinkRemoved e g t h ((e.createLink start finish).1.removeLink ⟨e.nextId⟩).1 k) ∧
      (AtRest e g t → ((e.createLink start finish).1.removeLink ⟨e.nextId⟩).1.asset = e.asset) := by
  rw [linkVerdict, held] at allowed
  obtain ⟨s, t, ends, oriented⟩ := oriented_pins allowed
  obtain ⟨created, h, uniqueH, distinctH, linked⟩ := createLink_created held unique distinct fresh oriented
  have input (n : Node) (member : n ∈ g.nodes) (p : Pin) (inside : p ∈ n.pins) (same : p.id = t.id) : p.kind = .input := by
    obtain ⟨m, also, own, -⟩ := pin_spec ends.target
    rw [pin_eq_of_id unique member also inside own same, ends.input]
  obtain ⟨removed, k, back⟩ := removeLink_removed held fresh input uniqueH distinctH linked
  exact ⟨s, t, h, k, ends, ⟨created, linked⟩, ⟨removed, back⟩, removed_restores held linked back⟩

end Editors

/-- A state machine, and the output that will take its pose. -/
def feedingEditor : Editor := [Edit.createNode "Animation" "State Machine", .createNode "Animation" "Output"].foldl Edit.apply
  (.ofAsset (.ofName "Wave" ⟨1⟩) .empty .default 1)

/-- The output takes the pose of the machine, and lets go of it. -/
theorem createLink_reversal_feeding : feedingEditor.linkVerdict ⟨6⟩ ⟨3⟩ = .canConnect ∧
    (feedingEditor.createLink ⟨6⟩ ⟨3⟩).2 = some ⟨7⟩ ∧
    ((feedingEditor.createLink ⟨6⟩ ⟨3⟩).1.activeGraph?.map fun g => g.links.map fun l => (l.source, l.target)) =
      some [(⟨3⟩, ⟨6⟩)] ∧
    ((feedingEditor.createLink ⟨6⟩ ⟨3⟩).1.removeLink ⟨7⟩).1.asset = feedingEditor.asset := by
  have allowed : feedingEditor.linkVerdict ⟨6⟩ ⟨3⟩ = .canConnect := by decide +kernel
  obtain ⟨g, held⟩ : ∃ g, feedingEditor.activeGraph? = some g := Option.isSome_iff_exists.mp (by decide +kernel)
  have nodes : ∀ g ∈ feedingEditor.activeGraph?, (g.nodes.map Node.id).Nodup ∧ ((g.nodes.flatMap Node.pins).map Pin.id).Nodup ∧
      g.links = [] := by decide +kernel
  have input : ∀ g ∈ feedingEditor.activeGraph?, ∀ p ∈ g.pin? ⟨6⟩, p.kind = .input := by decide +kernel
  have resting : ∀ g ∈ feedingEditor.activeGraph?, Resting feedingEditor.asset feedingEditor.activeOwner g ⟨6⟩ := by decide +kernel
  have values : feedingEditor.activeGraph?.map (fun g => (g.nodes.flatMap Node.pins).map Pin.value) =
      some [.int64 0, .int64 0] := rfl
  have still (n : Node) (member : n ∈ g.nodes) (p : Pin) (inside : p ∈ n.pins) : p.value = .int64 0 := by
    have listed := List.mem_map_of_mem (f := Pin.value) (List.mem_flatMap.mpr ⟨n, member, inside⟩)
    rw [held, Option.map_some, Option.some.injEq] at values
    rw [values] at listed
    simpa using listed
  obtain ⟨ids, pins, none⟩ := nodes g held
  obtain ⟨s, t, h, k, ends, -, -, undone⟩ := createLink_reversal held ⟨ids, pins⟩ (by simp [none]) (by simp [none]) allowed
  have target : t.id = ⟨6⟩ := by
    rcases ends.given with ⟨start, -⟩ | ⟨start, -⟩
    · have wrong := input g held s (start ▸ ends.source)
      rw [ends.output] at wrong
      cases wrong
    · exact start.symm
  refine ⟨allowed, by decide +kernel, by decide +kernel, undone ⟨by simp [none], ?_, ?_⟩⟩
  · intro n member p inside same
    rw [idleValue, same, target, if_pos (resting g held)]
    exact still n member p inside
  · exact fun n member p inside _ => still n member p inside

end PoseGraph.LinkReversal
