import PoseGraph.Proofs.PlacingEdits
import PoseGraph.Proofs.Validity

/-! Linking keeps an editor sound if the pins fit. They do when the verdict on them
allows the link; the editor itself joins transitions to states by triggers, and a
player of a clip to an output, which takes a pose first. -/
namespace PoseGraph.LinkingEdits
open AssetOrder EditOutcomes Editor EditorCoherence EditorSoundness GraphDependencies GraphWiring LinkEdits NodeCraft NodeEdits NodeFrames
  PlacingEdits SheddingEdits StateEdits Validity

variable {e f k : Editor} {g h : SubGraph} {l x : Link} {m n t : Node} {p q : Pin} {owner self : NodeId}
variable {start finish source target : PinId} {type : PinType} {except : Option NodeId} {names : String → Prop}
variable {change : SubGraph → SubGraph} {a b transition : NodeId} {middle : Point}

/-! ## Editing within one graph -/

/-- All graphs but that of one owner are as before. -/
structure Within (owner : NodeId) (e f : Editor) : Prop where
  draws : e.nextId ≤ f.nextId
  others : ∀ id, id ≠ owner → f.asset.graph? id = e.asset.graph? id

theorem within_of_graphs (graphs : f.asset.graphs = e.asset.graphs) (draws : e.nextId ≤ f.nextId) : Within owner e f :=
  ⟨draws, fun _ _ => by rw [Asset.graph?, Asset.graph?, graphs]⟩

theorem within_trans (first : Within owner e f) (second : Within owner f k) : Within owner e k :=
  ⟨Nat.le_trans first.draws second.draws, fun id other => (second.others id other).trans (first.others id other)⟩

theorem within_modifyGraph (e : Editor) (change : SubGraph → SubGraph) : Within owner e (e.modifyGraph owner change) :=
  ⟨Nat.le_refl _, fun id other => by rw [Editor.modifyGraph, modifyAsset, graph_modifyGraph, if_neg other]⟩

theorem within_invalidate (e : Editor) : Within owner e e.invalidate := within_of_graphs rfl (Nat.le_refl _)

theorem within_dropLinksIn (e : Editor) (owner : NodeId) (g : SubGraph) (dead : List Link) :
    Within owner e (e.dropLinksIn owner g dead) := by
  have dropped : Within owner e ((e.spend (dead.foldl (fun cost l => cost + g.resetCost (e.palette owner) l.target) 0)).modifyGraph
      owner fun g => g.dropLinks (e.palette owner) dead) :=
    within_trans (within_of_graphs (f := e.spend _) rfl (Nat.le_add_right _ _)) (within_modifyGraph _ _)
  rw [dropLinksIn, afterUnlink]
  split
  · exact within_trans dropped (within_trans (within_invalidate _) (within_modifyGraph _ _))
  · exact within_trans dropped (within_invalidate _)

theorem within_removeLinksIn (e : Editor) (owner : NodeId) (ids : List LinkId) :
    Within owner e (e.removeLinksIn owner ids).1 := by
  rcases removeLinksIn_cases e owner ids with same | ⟨g, -, -, same⟩
  · rw [same]
    exact within_of_graphs rfl (Nat.le_refl _)
  · rw [same]
    exact within_dropLinksIn e owner g _

theorem within_removeDeadLinks (e : Editor) (owner id : NodeId) : Within owner e (e.removeDeadLinks owner id) := by
  rcases removeDeadLinks_cases e owner id with same | ⟨g, -, same⟩
  · rw [same]
    exact within_of_graphs rfl (Nat.le_refl _)
  · rw [same]
    exact within_dropLinksIn e owner g _

theorem within_dropNodes (e : Editor) (owner : NodeId) (doomed : List NodeId) :
    Within owner e (e.dropNodes owner doomed) := by
  have fold (ids : List NodeId) (e : Editor) : Within owner e (ids.foldl (fun e id => e.removeDeadLinks owner id) e) := by
    induction ids generalizing e with
    | nil => exact within_of_graphs rfl (Nat.le_refl _)
    | cons id ids ih => exact within_trans (within_removeDeadLinks e owner id) (ih _)
  exact within_trans (fold doomed e) (within_modifyGraph _ _)

theorem within_displaceLinks (e : Editor) (owner : NodeId) (pin : PinId) (kept : LinkId) :
    Within owner e (e.displaceLinks owner pin kept) := by
  rcases displaceLinks_cases e owner pin kept with same | ⟨ids, same⟩
  · rw [same]
    exact within_of_graphs rfl (Nat.le_refl _)
  · rw [same]
    exact within_trans (within_removeLinksIn e owner ids) (within_modifyGraph _ _)

theorem within_createLinkIn (e : Editor) (owner : NodeId) (start finish : PinId) :
    Within owner e (e.createLinkIn owner start finish).1 := by
  rw [createLinkIn]
  split
  · exact within_of_graphs rfl (Nat.le_refl _)
  · refine within_trans ?_ (within_invalidate _)
    refine within_trans ?_ (within_displaceLinks _ owner _ _)
    exact within_trans (f := { e with nextId := e.nextId + 1 }) (within_of_graphs rfl (Nat.le_succ _))
      (within_modifyGraph _ _)

/-- Soundness is kept within a graph if the graph changes as it may. -/
theorem sound_within (sound : Sound names e) (within : Within owner e f)
    (turns : Turns id (graphOf e.asset owner) (graphOf f.asset owner)) : Sound names f := by
  refine sound_develop sound within.draws fun self => ?_
  by_cases here : self = owner
  · rw [here]
    exact turns
  · rw [graphOf, graphOf, within.others self here]
    exact turns_refl _

/-! ## What becomes of the graph -/

/-- Once a link has been added, all others into its pin are taken away. -/
theorem linked_displaceLinks (held : e.asset.graph? owner = some h) (nodes : (h.nodes.map frame).Perm (g.nodes.map frame))
    (links : h.links = g.links ++ [l]) (fresh : ∀ x ∈ g.links, x.id ≠ l.id) :
    ∃ k, (e.displaceLinks owner l.target l.id).asset.graph? owner = some k ∧ Linked l g k := by
  have single (x : Link) (link : x ∈ h.links) (same : x.id = l.id) : x = l := by
    rw [links] at link
    rcases List.mem_append.mp link with old | new
    · exact absurd same (fresh x old)
    · exact List.mem_singleton.mp new
  have newcomer : l ∉ g.links := fun old => fresh l old rfl
  rw [displaceLinks, held]
  dsimp only
  split
  · rename_i none
    refine ⟨h, held, nodes, links ▸ .refl _, fun x link ends => ?_, newcomer⟩
    by_contra other
    have displaced : x ∈ h.links.filter fun x => x.target == l.target && x.id != l.id := by
      refine List.mem_filter.mpr ⟨link, ?_⟩
      rw [Bool.and_eq_true, beq_iff_eq, bne_iff_ne]
      exact ⟨ends, fun same => other (single x link same)⟩
    rw [List.isEmpty_iff.mp none] at displaced
    cases displaced
  · obtain ⟨k, found, kept, gone⟩ := kept_removeLinksIn held
      ((h.links.filter fun x => x.target == l.target && x.id != l.id).map Link.id)
    have void := kept_trans kept (kept_withValue k l.target .void)
    refine ⟨_, graph_modifyGraph_self found, void.nodes.trans nodes, links ▸ void.links, fun x link ends => ?_, newcomer⟩
    refine single x (kept.links.subset link) ?_
    by_contra other
    refine gone x link (List.mem_map.mpr ⟨x, List.mem_filter.mpr ⟨kept.links.subset link, ?_⟩, rfl⟩)
    rw [Bool.and_eq_true, beq_iff_eq, bne_iff_ne]
    exact ⟨ends, other⟩

theorem linked_createLinkIn (coherent : Coherent except e) (held : e.asset.graph? owner = some g)
    (oriented : orientLink g start finish = some (source, target, type)) :
    ∃ l h, l.source = source ∧ l.target = target ∧ (e.createLinkIn owner start finish).1.asset.graph? owner = some h ∧
      Linked l g h := by
  let l : Link := { id := ⟨e.nextId⟩, source, target, color := type.color }
  have added : (({ e with nextId := e.nextId + 1 } : Editor).modifyGraph owner fun g =>
      (g.modifyPin target (·.withValue .void)).addLink l).asset.graph? owner =
        some ((g.modifyPin target (·.withValue .void)).addLink l) :=
    graph_modifyGraph_self (e := { e with nextId := e.nextId + 1 }) held
  have fresh (x : Link) (link : x ∈ g.links) : x.id ≠ l.id := by
    intro same
    have taken : x.id.value ∈ allIdentities e.asset :=
      (identities_sublist held).subset (List.mem_append_right _ (List.mem_map_of_mem link))
    have before := (coherent.drawn _ taken).2
    rw [same] at before
    exact Nat.lt_irrefl _ before
  obtain ⟨h, found, linked⟩ := linked_displaceLinks added (kept_withValue g target .void).nodes rfl fresh
  refine ⟨l, h, rfl, rfl, ?_, linked⟩
  rw [createLinkIn, held, Option.bind_some, oriented]
  exact found

/-- Linking leaves the frames of all nodes. -/
theorem frames_createLinkIn (coherent : Coherent except e) (held : e.asset.graph? owner = some g) (start finish : PinId) :
    ∃ h, (e.createLinkIn owner start finish).1.asset.graph? owner = some h ∧ (h.nodes.map frame).Perm (g.nodes.map frame) := by
  cases oriented : orientLink g start finish with
  | none =>
    rw [createLinkIn, held, Option.bind_some, oriented]
    exact ⟨g, held, .refl _⟩
  | some ends =>
    obtain ⟨source, target, type⟩ := ends
    obtain ⟨l, h, -, -, found, linked⟩ := linked_createLinkIn coherent held oriented
    exact ⟨h, found, linked.nodes⟩

/-- Linking keeps an editor sound if the link joins fitting pins. -/
theorem sound_createLinkIn (start finish : PinId) (coherent : Coherent except e) (sound : Sound names e)
    (joins : ∀ g, e.asset.graph? owner = some g → ∀ source target type,
      orientLink g start finish = some (source, target, type) →
        ∀ l : Link, l.source = source → l.target = target → Joins g l) :
    Sound names (e.createLinkIn owner start finish).1 := by
  cases oriented : (e.asset.graph? owner).bind fun g => orientLink g start finish with
  | none =>
    rw [createLinkIn, oriented]
    exact sound
  | some ends =>
    obtain ⟨source, target, type⟩ := ends
    obtain ⟨g, held, turned⟩ := Option.bind_eq_some_iff.mp oriented
    obtain ⟨l, h, starts, arrives, found, linked⟩ := linked_createLinkIn coherent held turned
    refine sound_within sound (within_createLinkIn e owner start finish) ?_
    rw [graphOf_eq held, graphOf_eq found]
    exact turns_linked linked (joins g held source target type turned l starts arrives)

/-! ## Pins that fit -/

theorem pin_side (bound : Bound n) (inside : p ∈ n.pins) :
    p ∈ n.inputs ∧ p.kind = .input ∨ p ∈ n.outputs ∧ p.kind = .output := by
  rcases List.mem_append.mp inside with input | output
  · exact .inl ⟨input, (bound.inputs p input).2⟩
  · exact .inr ⟨output, (bound.outputs p output).2⟩

theorem orient_pins (oriented : orientLink g start finish = some (source, target, type)) :
    ∃ p q, g.pin? start = some p ∧ g.pin? finish = some q := by
  obtain ⟨p, first, rest⟩ := Option.bind_eq_some_iff.mp oriented
  by_cases input : p.kind = .input
  · simp only [input, if_true] at rest
    obtain ⟨q, second, -⟩ := Option.bind_eq_some_iff.mp rest
    exact ⟨p, q, first, second⟩
  · simp only [input, if_false] at rest
    obtain ⟨s, -, last⟩ := Option.bind_eq_some_iff.mp rest
    obtain ⟨q, second, -⟩ := Option.map_eq_some_iff.mp last
    exact ⟨p, q, first, second⟩

theorem orient_ends (oriented : orientLink g start finish = some (source, target, type)) :
    source = start ∧ target = finish ∨ source = finish ∧ target = start := by
  obtain ⟨p, -, rest⟩ := Option.bind_eq_some_iff.mp oriented
  by_cases input : p.kind = .input
  · simp only [input, if_true] at rest
    obtain ⟨s, -, last⟩ := Option.bind_eq_some_iff.mp rest
    obtain ⟨q, -, ends⟩ := Option.map_eq_some_iff.mp last
    cases ends
    exact .inr ⟨rfl, rfl⟩
  · simp only [input, if_false] at rest
    obtain ⟨s, -, last⟩ := Option.bind_eq_some_iff.mp rest
    obtain ⟨q, -, ends⟩ := Option.map_eq_some_iff.mp last
    cases ends
    exact .inl ⟨rfl, rfl⟩

theorem orient_arrives (oriented : orientLink g start finish = some (source, target, type)) : target ∈ [start, finish] := by
  rcases orient_ends oriented with ⟨-, rfl⟩ | ⟨-, rfl⟩
  · exact List.mem_cons_of_mem _ List.mem_cons_self
  · exact List.mem_cons_self

/-- Two pins of different directions are linked from the output to the input. -/
theorem orient_sides (bound : ∀ n ∈ g.nodes, Bound n) (first : g.pin? start = some p) (second : g.pin? finish = some q)
    (kinds : p.kind ≠ q.kind) (oriented : orientLink g start finish = some (source, target, type)) :
    ∃ x y, (x = p ∧ y = q ∨ x = q ∧ y = p) ∧ (∃ m ∈ g.nodes, x ∈ m.outputs) ∧ x.id = source ∧
      (∃ n ∈ g.nodes, y ∈ n.inputs) ∧ y.id = target := by
  obtain ⟨m, inM, pinsM, sameP⟩ := pin_spec first
  obtain ⟨n, inN, pinsN, sameQ⟩ := pin_spec second
  rw [orientLink, first, Option.bind_some] at oriented
  rcases pin_side (bound m inM) pinsM with ⟨inputP, kindP⟩ | ⟨outputP, kindP⟩
  · rcases pin_side (bound n inN) pinsN with ⟨-, kindQ⟩ | ⟨outputQ, -⟩
    · exact absurd (kindP.trans kindQ.symm) kinds
    · simp only [kindP, if_true, first, second, Option.bind_some, Option.map_some, Option.some.injEq, Prod.mk.injEq] at oriented
      obtain ⟨rfl, rfl, -⟩ := oriented
      exact ⟨q, p, .inr ⟨rfl, rfl⟩, ⟨n, inN, outputQ⟩, sameQ, ⟨m, inM, inputP⟩, sameP⟩
  · rcases pin_side (bound n inN) pinsN with ⟨inputQ, -⟩ | ⟨-, kindQ⟩
    · simp only [kindP, reduceCtorEq, if_false, first, second, Option.bind_some, Option.map_some, Option.some.injEq,
        Prod.mk.injEq] at oriented
      obtain ⟨rfl, rfl, -⟩ := oriented
      exact ⟨p, q, .inl ⟨rfl, rfl⟩, ⟨m, inM, outputP⟩, sameP, ⟨n, inN, inputQ⟩, sameQ⟩
    · exact absurd (kindP.trans kindQ.symm) kinds

theorem verdict_spec (allowed : g.linkVerdict start finish = .canConnect) :
    ∃ p q, g.pin? start = some p ∧ g.pin? finish = some q ∧ p.node ≠ q.node ∧ p.kind ≠ q.kind ∧
      p.storage = q.storage ∧ p.type = q.type := by
  rw [SubGraph.linkVerdict] at allowed
  split at allowed
  · cases allowed
  · cases allowed
  · rename_i p q first second
    refine ⟨p, q, first, second, ?_⟩
    split at allowed
    · cases allowed
    · split at allowed
      · cases allowed
      · split at allowed
        · cases allowed
        · split at allowed
          · cases allowed
          · split at allowed
            · cases allowed
            · rename_i nodes kinds storages types
              exact ⟨nodes, kinds, not_not.mp storages, not_not.mp types⟩

/-- Pins that may be linked fit. -/
theorem joins_of_verdict (made : ∀ n ∈ g.nodes, Made n) (allowed : g.linkVerdict start finish = .canConnect)
    (oriented : orientLink g start finish = some (source, target, type)) (starts : l.source = source)
    (ends : l.target = target) : Joins g l := by
  obtain ⟨p, q, first, second, nodes, kinds, storages, types⟩ := verdict_spec allowed
  obtain ⟨x, y, which, ⟨m, inM, output⟩, outlet, ⟨n, inN, input⟩, inlet⟩ :=
    orient_sides (fun n member => (made n member).bound) first second kinds oriented
  have fits : x.node ≠ y.node ∧ x.type = y.type ∧ x.storage = y.storage := by
    rcases which with ⟨rfl, rfl⟩ | ⟨rfl, rfl⟩
    · exact ⟨nodes, types, storages⟩
    · exact ⟨nodes.symm, types.symm, storages.symm⟩
  rw [((made m inM).bound.outputs x output).1, ((made n inN).bound.inputs y input).1] at fits
  exact ⟨m, inM, x, output, n, inN, y, input, outlet.trans starts.symm, inlet.trans ends.symm, fits⟩

theorem graph_made (sound : Sound names e) (held : e.asset.graph? owner = some g) : ∀ n ∈ g.nodes, Made n :=
  fun n member => sound.made n (mem_allNodes.mpr ⟨owner, g, held, member⟩)

theorem sound_createLink (coherent : Coherent except e) (sound : Sound names e)
    (allowed : e.linkVerdict start finish = .canConnect) : Sound names (e.createLink start finish).1 := by
  refine sound_createLinkIn start finish coherent sound fun g held source target type oriented l starts ends => ?_
  rw [Editor.linkVerdict, activeGraph?, held] at allowed
  exact joins_of_verdict (graph_made sound held) allowed oriented starts ends

/-- Linking an output keeps the order of the pins. -/
theorem orient_output (unique : UniqueIds g) (member : n ∈ g.nodes) (made : Made n) (output : p ∈ n.outputs)
    (oriented : orientLink g p.id finish = some (source, target, type)) : source = p.id ∧ target = finish := by
  have kind := (made.bound.outputs p output).2
  have found : g.pin? p.id = some p := pin_of_member unique member (List.mem_append_right _ output)
  simp only [orientLink, found, kind, reduceCtorEq, if_false, Option.bind_some, Option.map_eq_some_iff,
    Prod.mk.injEq] at oriented
  obtain ⟨-, -, rfl, rfl, -⟩ := oriented
  exact ⟨rfl, rfl⟩

/-! ## Joining states -/

/-- Every node is still in its graph, perhaps with other contents. -/
def Stays (e f : Editor) : Prop :=
  ∀ owner, ∀ n ∈ (graphOf e.asset owner).nodes, ∃ m ∈ (graphOf f.asset owner).nodes, Recast n m

theorem stays_refl (e : Editor) : Stays e e := fun _ n member => ⟨n, member, recast_refl n⟩

theorem stays_trans (first : Stays e f) (second : Stays f k) : Stays e k := by
  intro owner n member
  obtain ⟨m, inF, before⟩ := first owner n member
  obtain ⟨x, inK, after⟩ := second owner m inF
  exact ⟨x, inK, recast_trans before after⟩

theorem stays_of_graphs (graphs : f.asset.graphs = e.asset.graphs) : Stays e f := by
  intro owner n member
  refine ⟨n, ?_, recast_refl n⟩
  rw [graphOf, Asset.graph?, graphs]
  exact member

theorem stays_ensureGraph (e : Editor) (id : NodeId) : Stays e (e.modifyAsset (·.ensureGraph id)) := by
  intro owner n member
  refine ⟨n, ?_, recast_refl n⟩
  change n ∈ (graphOf (e.asset.ensureGraph id) owner).nodes
  rw [graphOf_ensureGraph]
  exact member

theorem stays_modifyGraph (keeps : ∀ g, e.asset.graph? owner = some g → ∀ n ∈ g.nodes, ∃ m ∈ (change g).nodes, Recast n m) :
    Stays e (e.modifyGraph owner change) := by
  intro id n member
  cases held : e.asset.graph? owner with
  | none =>
    have same : (e.modifyGraph owner change).asset = e.asset := modifyGraph_missing held
    exact stays_of_graphs (congrArg Asset.graphs same) id n member
  | some g =>
    change ∃ m ∈ (graphOf (e.asset.modifyGraph owner change) id).nodes, Recast n m
    rw [graphOf_modifyGraph held]
    split
    · rename_i here
      rw [here, graphOf_eq held] at member
      exact keeps g held n member
    · exact ⟨n, member, recast_refl n⟩

theorem stays_addNode (e : Editor) (owner : NodeId) (n : Node) : Stays e (e.modifyGraph owner (·.addNode n)) :=
  stays_modifyGraph fun _ _ m member => ⟨m, List.mem_append_left _ member, recast_refl m⟩

theorem stays_ensureSubGraph (e : Editor) (id : NodeId) : Stays e (e.ensureSubGraph id) := by
  rcases ensureSubGraph_cases e id with same | ⟨n, -, ⟨-, same⟩ | ⟨output, graph, category, f, seeding⟩⟩
  · rw [same]
    exact stays_refl e
  · rw [same]
    exact stays_ensureGraph e id
  · have drew : Stays e f := stays_of_graphs (by rw [spawn_asset seeding.spawn])
    rw [seeding.result]
    exact stays_trans drew (stays_trans (stays_ensureGraph f id) (stays_addNode _ id output))

/-- A node that is placed is in its graph with all that were there. -/
theorem stays_addNodeTo (e : Editor) (owner : NodeId) (n : Node) : Stays e (e.addNode owner n) ∧
    ∃ m ∈ (graphOf (e.addNode owner n).asset owner).nodes, Recast n m := by
  have first : Stays e (e.modifyAsset fun a => (a.ensureGraph owner).modifyGraph owner (·.addNode n)) :=
    stays_trans (stays_ensureGraph e owner) (stays_addNode _ owner n)
  have there : n ∈ (graphOf ((e.asset.ensureGraph owner).modifyGraph owner (·.addNode n)) owner).nodes := by
    have held : (e.asset.ensureGraph owner).graph? owner = some ((e.asset.graph? owner).getD .empty) := by
      rw [graph_ensureGraph, if_pos rfl]
    rw [graphOf_modifyGraph held, if_pos rfl]
    exact List.mem_append_right _ List.mem_cons_self
  have rest : Stays (e.modifyAsset fun a => (a.ensureGraph owner).modifyGraph owner (·.addNode n)) (e.addNode owner n) := by
    have marked (k : Editor) : Stays k (k.ensureEntryOfMachine owner) := by
      rw [ensureEntryOfMachine]
      split
      · refine stays_modifyGraph fun g _ x member => ?_
        obtain ⟨m, inside, edited⟩ := LoweringSemantics.origin_of_mem (revised_ensureEntry g).nodes.flip member
        exact ⟨m, inside, edited_recast edited⟩
      · exact stays_refl k
    rw [addNode]
    refine stays_trans ?_ (marked _)
    split
    · exact stays_trans (f := Editor.invalidate _) (stays_of_graphs rfl) (stays_ensureSubGraph _ n.id)
    · exact stays_of_graphs rfl
  exact ⟨stays_trans first rest, rest owner n there⟩

/-- A node that is no annotation is in the graph of an owner. -/
def Meets (e : Editor) (owner id : NodeId) : Prop :=
  ∃ m ∈ (graphOf e.asset owner).nodes, m.id = id ∧ m.isComment = false

theorem meets_stays (stays : Stays e f) (meets : Meets e owner self) : Meets f owner self := by
  obtain ⟨n, member, named, text⟩ := meets
  obtain ⟨m, inside, recast⟩ := stays owner n member
  exact ⟨m, inside, recast.id.trans named, (recast_isComment recast).trans text⟩

theorem meets_voiced (coherent : Coherent except e) (meets : Meets e owner self) (held : e.asset.graph? owner = some g) :
    Voiced g self ∧ self ∈ g.nodes.map Node.id := by
  obtain ⟨m, inside, named, text⟩ := meets
  refine ⟨voiced_of_member coherent (mem_graphOf.mpr ⟨owner, inside⟩) named text held, ?_⟩
  rw [graphOf_eq held] at inside
  exact List.mem_map.mpr ⟨m, inside, named⟩

theorem meets_graph (meets : Meets e owner self) : ∃ g, e.asset.graph? owner = some g := by
  obtain ⟨m, inside, -⟩ := meets
  cases held : e.asset.graph? owner with
  | none =>
    rw [graphOf_missing held] at inside
    cases inside
  | some g => exact ⟨g, rfl⟩

/-- Attaching the pins of a transition to nodes that are there. -/
theorem coherent_attached (coherent : Coherent except e) (meetsA : Meets e owner a) (meetsB : Meets e owner b)
    (meetsT : Meets e owner transition) : Coherent except
      ((drawn e (e.nextId + 4)).modifyGraph owner (withTransition e.nextId a b transition middle)) :=
  coherent_withTransition middle coherent fun _ held => ⟨(meets_voiced coherent meetsA held).1,
    (meets_voiced coherent meetsB held).1, (meets_voiced coherent meetsT held).1⟩

/-- The owner's graph is a state machine, by its node. -/
def Hosts (e : Editor) (owner : NodeId) : Prop :=
  ∃ t ∈ allNodes e.asset, t.id = owner ∧ (IsMachine t ∨ t.category = localVariableCategory)

theorem hosts_active (sound : Sound names e) (active : e.activeMachine? = some owner) :
    Hosts e owner := by
  obtain ⟨-, t, inside, same, kind⟩ := ownerKind_origin (rearranged_refl _) (activeMachine_spec active)
  refine ⟨t, inside, same, ?_⟩
  exact ((sound.made t inside).titled.machine kind).imp_left fun owns => ⟨owns, kind⟩

theorem hosts_stays (coherent : Coherent except e) (stays : Stays e f) (hosts : Hosts e owner) : Hosts f owner := by
  obtain ⟨n, member, named, suits⟩ := hosts
  obtain ⟨id, inside⟩ := mem_graphOf.mp member
  obtain ⟨m, survives, recast⟩ := stays id n inside
  refine ⟨m, mem_graphOf.mpr ⟨id, survives⟩, recast.id.trans named, ?_⟩
  exact suits.imp (recast_machine recast (coherent.crafted n member)).mpr recast.category.trans

/-- Attaching the pins of a transition in a state machine. -/
theorem sound_threaded (coherent : Coherent except e) (sound : Sound names e) (hosts : Hosts e owner)
    (held : e.asset.graph? owner = some g) {base : Nat}
    (threaded : Threaded base a b transition g (change g)) : Sound names (e.modifyGraph owner change) := by
  obtain ⟨t, member, named, suits⟩ := hosts
  have drawnOwner : 0 < owner.value ∧ owner.value < e.nextId := named ▸ node_drawn coherent member
  have look (id : NodeId) : graphOf (e.modifyGraph owner change).asset id =
      if id = owner then change g else graphOf e.asset id := graphOf_modifyGraph held
  have here : graphOf e.asset owner = g := graphOf_eq held
  refine sound_grow id sound (Nat.le_refl _) (fun id m inside => ?_) (fun id => ?_) (fun id before => ?_)
    (fun _ known => known) (fun _ _ _ _ same => same) sound.reserved
  · rw [look] at inside
    split at inside
    · rename_i same
      obtain ⟨n, old, spread⟩ := LoweringSemantics.origin_of_mem threaded.nodes inside
      exact ⟨n, by rw [same, here]; exact old, spread.grown⟩
    · exact ⟨m, inside, grown_refl m⟩
  · rw [look]
    split
    · refine wired_retained (fun n inside => ?_) (threaded.links ▸ .refl _) (here ▸ sound.wired owner)
      obtain ⟨m, survives, spread⟩ := LoweringSemantics.origin_of_mem threaded.nodes.flip inside
      exact ⟨m, survives, spread.retained⟩
    · exact sound.wired id
  · rw [look]
    split
    · rename_i same
      subst same
      rcases suits with machine | relayed
      · -- No node of a state machine ends a graph.
        have plain (m : Node) (inside : m ∈ (change g).nodes) : ¬Ends m := by
          obtain ⟨n, old, spread⟩ := LoweringSemantics.origin_of_mem threaded.nodes inside
          have endless := sound.endless t member machine n
          rw [named, here] at endless
          exact fun ends => endless old (spread.grown.ends ends)
        exact .inl fun m inside => ⟨fun ends => absurd ends (plain m inside), fun output => absurd (.inl output) (plain m inside)⟩
      · refine .inr ⟨fun root => ?_, drawnOwner.2, fun n inside same => ?_⟩
        · have positive := drawnOwner.1
          rw [root] at positive
          exact absurd positive (by decide)
        · rw [List.inj_on_of_nodup_map (identified_of_coherent coherent).nodes inside member (same.trans named.symm)]
          exact relayed
    · exact .inl before

theorem triggers_frames {i : Nat} {side : Node → List Pin} (frames : (h.nodes.map frame).Perm (g.nodes.map frame))
    (sides : ∀ n m, SameFrame n m → (side m).map pinFrame = (side n).map pinFrame) (triggers : Triggers side g self i) :
    Triggers side h self i := by
  obtain ⟨n, member, named, p, inside, pin, type, storage⟩ := triggers
  obtain ⟨m, survives, same⟩ := kept_survivor frames member
  obtain ⟨q, also, frames⟩ := pin_counterpart (sides n m same).symm inside
  exact ⟨m, survives, same.id.trans named, q, also, (congrArg Pin.id frames).trans pin,
    (congrArg Pin.type frames).trans type, (congrArg Pin.storage frames).trans storage⟩

/-- Linking two trigger pins by their numbers. -/
theorem joins_oriented {i j : Nat} (unique : UniqueIds g) (made : ∀ n ∈ g.nodes, Made n)
    (starts : Triggers Node.outputs g a i) (ends : Triggers Node.inputs g b j) (differ : a ≠ b)
    (oriented : orientLink g ⟨i⟩ ⟨j⟩ = some (source, target, type)) (from_ : l.source = source)
    (to_ : l.target = target) : Joins g l := by
  have order : source = ⟨i⟩ ∧ target = ⟨j⟩ := by
    obtain ⟨m, member, -, p, output, same, -⟩ := starts
    rw [← same] at oriented ⊢
    exact orient_output unique member (made m member) output oriented
  exact joins_triggers starts ends differ (from_.trans order.1) (to_.trans order.2)

theorem sound_joinTransition (coherent : Coherent except e) (sound : Sound names e) (hosts : Hosts e owner)
    (meetsA : Meets e owner a) (meetsB : Meets e owner b) (meetsT : Meets e owner transition)
    (differA : a ≠ transition) (differB : transition ≠ b) :
    Sound names (e.joinTransition owner transition a b middle).1 := by
  obtain ⟨g, held⟩ := meets_graph meetsA
  have threaded : Threaded e.nextId a b transition g (withTransition e.nextId a b transition middle g) :=
    threaded_withTransition (graph_made sound held) (meets_voiced coherent meetsA held).2
      (meets_voiced coherent meetsB held).2 (meets_voiced coherent meetsT held).2
  have pinned : Coherent except ((drawn e (e.nextId + 4)).modifyGraph owner (withTransition e.nextId a b transition middle)) :=
    coherent_attached coherent meetsA meetsB meetsT
  have attached : Sound names ((drawn e (e.nextId + 4)).modifyGraph owner (withTransition e.nextId a b transition middle)) :=
    sound_threaded (coherent_drawn coherent (Nat.le_add_right _ 4)) (sound_drawn sound (Nat.le_add_right _ 4)) hosts held
      threaded
  have there : ((drawn e (e.nextId + 4)).modifyGraph owner (withTransition e.nextId a b transition middle)).asset.graph? owner =
      some (withTransition e.nextId a b transition middle g) :=
    graph_modifyGraph_self (e := drawn e (e.nextId + 4)) held
  have once := sound_createLinkIn ⟨e.nextId⟩ ⟨e.nextId + 1⟩ pinned attached
    fun h found source target type oriented l from_ to_ => by
      rw [there] at found
      cases found
      exact joins_oriented (identified_unique (identified_of_coherent pinned) there) (graph_made attached there)
        threaded.leaves threaded.enters differA oriented from_ to_
  have firm := coherent_createLinkIn pinned owner ⟨e.nextId⟩ ⟨e.nextId + 1⟩
  obtain ⟨f, rfl, same | same⟩ := joinTransition_cases e owner transition a b middle
  · rw [same]
    exact once
  · rw [same]
    refine sound_createLinkIn ⟨e.nextId + 2⟩ ⟨e.nextId + 3⟩ firm once
      fun h found source target type oriented l from_ to_ => ?_
    obtain ⟨k, nodes, frames⟩ := frames_createLinkIn pinned there ⟨e.nextId⟩ ⟨e.nextId + 1⟩
    rw [nodes] at found
    cases found
    exact joins_oriented (identified_unique (identified_of_coherent firm) nodes) (graph_made once nodes)
      (triggers_frames frames (fun _ _ same => same.outputs) threaded.goesOn)
      (triggers_frames frames (fun _ _ same => same.inputs) threaded.arrives) differB oriented from_ to_

theorem createTransitionNode_meets (active : e.activeMachine? = some owner)
    (made : e.createTransitionNode = (f, some transition)) :
    Stays e f ∧ Meets f owner transition ∧ e.nextId ≤ transition.value := by
  rw [createTransitionNode, active] at made
  obtain ⟨stays, m, inside, recast⟩ := stays_addNodeTo (e.adopt Template.transition).2 owner (e.adopt Template.transition).1
  change ((e.adopt Template.transition).2.addNode owner (e.adopt Template.transition).1,
    some (e.adopt Template.transition).1.id) = (f, some transition) at made
  obtain ⟨rfl, same⟩ := Prod.mk.inj made
  obtain rfl := Option.some.inj same
  exact ⟨stays_trans (f := (e.adopt Template.transition).2) (stays_of_graphs rfl) stays,
    ⟨m, inside, recast.id, recast_isComment recast⟩, Nat.le_refl _⟩

/-- States that are joined were there before the transition, so that they differ from it. All are there once it has
got its graph. -/
theorem joining_meets (coherent : Coherent none e) (joining : Joining e a b owner g n m f transition) :
    Stays e (f.ensureSubGraph transition) ∧ Meets (f.ensureSubGraph transition) owner transition ∧
      ∀ self x, g.state? self = some x → Meets e owner self ∧ Meets (f.ensureSubGraph transition) owner self ∧
        self ≠ transition := by
  obtain ⟨stays, meets, new⟩ := createTransitionNode_meets joining.active joining.created
  have onward := stays_trans stays (stays_ensureSubGraph f transition)
  refine ⟨onward, meets_stays (stays_ensureSubGraph f transition) meets, fun self x found => ?_⟩
  obtain ⟨member, named, state⟩ := state_spec found
  have inside : x ∈ (graphOf e.asset owner).nodes := by
    rw [graphOf_eq joining.held]
    exact member
  have here : Meets e owner self := ⟨x, inside, named, state_voiced state⟩
  refine ⟨here, meets_stays onward here, fun same => ?_⟩
  have before := (node_drawn coherent (mem_graphOf.mpr ⟨owner, inside⟩)).2
  rw [named, same] at before
  exact Nat.not_lt.mpr new before

theorem sound_createTransition (coherent : Coherent none e) (sound : Sound names e) (a b : NodeId) :
    Sound names (e.createTransition a b).1 := by
  rcases createTransition_cases e a b with same | ⟨owner, g, n, m, f, transition, joining⟩
  · rw [same]
    exact sound
  · have firm := coherent_createTransitionNode coherent
    have made := sound_createTransitionNode coherent sound
    rw [joining.created] at firm made
    obtain ⟨onward, meets, state⟩ := joining_meets coherent joining
    obtain ⟨-, meetsA, differA⟩ := state a n joining.first
    obtain ⟨-, meetsB, differB⟩ := state b m joining.second
    rw [joining.result]
    exact sound_joinTransition (coherent_ensureSubGraph firm transition) (sound_ensureSubGraph firm made transition)
      (hosts_stays coherent onward (hosts_active sound joining.active)) meetsA meetsB meets differA differB.symm

/-! ## Promoting a quick state -/

theorem welcome_sameFrame (same : SameFrame n m) (welcome : Welcome names e owner n) : Welcome names e owner m where
  made := sameFrame_made same welcome.made
  closed := sameFrame_sealed same welcome.closed
  posed := welcome.posed.imp_left (sameFrame_posed same)
  ends := fun ends => welcome.ends ((sameFrame_grown same).ends ends)
  declared := by
    rw [sameFrame_variableName same]
    exact welcome.declared
  unset := by
    rw [sameFrame_isSetter same, sameFrame_variableName same]
    exact welcome.unset
  awaited := by
    rw [same.id]
    intro k inside
    obtain ⟨posed, closed, endless⟩ := welcome.awaited k inside
    exact ⟨posed, closed, fun machine => endless ((sameFrame_grown same).machine machine)⟩
  fresh := by
    rw [same.id]
    exact welcome.fresh

theorem sameFrame_loaded (clip : Option Value) (player : Node) : SameFrame player (loaded clip player) := by
  rw [loaded.eq_def]
  split
  · rename_i v p ps inputs
    exact ⟨rfl, rfl, rfl, rfl, by rw [inputs]; rfl, rfl⟩
  · exact ⟨rfl, rfl, rfl, rfl, rfl, rfl⟩

/-- The pose of a player fits the output of a graph that ends in a pose. -/
theorem joins_player {player : Node} {pose : Pin} {sink : PinId} (unique : UniqueIds (g.addNode player))
    (made : ∀ n ∈ (g.addNode player).nodes, Made n) (posed : ∀ n ∈ g.nodes, Posed n) (output : pose ∈ player.outputs)
    (plays : pose.type = .pose ∧ pose.storage = .value) (ends : g.outputPin? = some sink)
    (fresh : ∀ n ∈ g.nodes, n.id ≠ player.id)
    (oriented : orientLink (g.addNode player) pose.id sink = some (source, target, type))
    (starts : l.source = source) (arrives : l.target = target) : Joins (g.addNode player) l := by
  have inside : player ∈ (g.addNode player).nodes := List.mem_append_right _ List.mem_cons_self
  obtain ⟨rfl, rfl⟩ := orient_output unique inside (made player inside) output oriented
  obtain ⟨q, found, same⟩ := Option.map_eq_some_iff.mp ends
  obtain ⟨n, named, first⟩ := Option.bind_eq_some_iff.mp found
  have member : n ∈ g.nodes := List.mem_of_find?_eq_some named
  obtain ⟨p, head, typed, single⟩ := posed n member (by simpa using List.find?_some named)
  rw [head] at first
  cases first
  exact ⟨player, inside, pose, output, n, List.mem_append_left _ member, q, List.mem_of_mem_head? head, starts.symm,
    same.trans arrives.symm, (fresh n member).symm, plays.1.trans typed.symm, plays.2.trans single.symm⟩

theorem sound_playClip (clip : Option Value) (coherent : Coherent none e) (sound : Sound names e)
    (member : n ∈ allNodes e.asset) (kind : n.kind = .state) : Sound names (e.playClip n.id clip).1 := by
  rcases playClip_cases e n.id clip with same | ⟨player, f, spawn, outcome⟩
  · rw [same]
    exact sound
  have spawned := spawn_spec coherent spawn
  have grown : Sound names f := by
    rw [spawned.rest]
    exact sound_drawn sound spawned.more
  rcases outcome with same | ⟨pose, sink, playing⟩
  · rw [same]
    exact grown
  obtain ⟨shaped, new⟩ := spawn_shaped spawn
  have frames := sameFrame_loaded clip player
  have after := coherent_spawned coherent spawned
  have same : f.asset = e.asset := spawn_asset spawn
  have only (t : Node) (inside : t ∈ allNodes e.asset) (named : t.id = n.id) : t = n :=
    List.inj_on_of_nodup_map (identified_of_coherent coherent).nodes inside member named
  have welcome : Welcome names f n.id (loaded clip player) := by
    refine welcome_sameFrame frames ?_
    rw [spawned.rest]
    refine welcome_drawn (welcome_spawned coherent sound spawn (fun other => absurd other (by decide))
      (fun _ t inside named machine => ?_) (fun machine => ?_)) _
    · have other := machine.2
      rw [only t inside named, kind] at other
      cases other
    · have other := machine.2
      simp [Node.kind, spawned.named] at other
  obtain ⟨g, held, ends⟩ := Option.bind_eq_some_iff.mp playing.input
  have full : Coherent (some n.id) (f.modifyGraph n.id (·.addNode (loaded clip player))) :=
    coherent_addNode (coherent_exempt after _) (newcomer_edited spawned.newcomer (edited_loaded clip player)) (.inl rfl)
      (.inl (node_drawn after (same ▸ member)).2)
  have placed : Sound names (f.modifyGraph n.id (·.addNode (loaded clip player))) :=
    sound_addNode after grown welcome held
  have there : (f.modifyGraph n.id (·.addNode (loaded clip player))).asset.graph? n.id =
      some (g.addNode (loaded clip player)) := graph_modifyGraph_self held
  have posed : ∀ m ∈ g.nodes, Posed m := by
    refine graphOf_eq held ▸ (grown.posed n.id).resolve_right fun nested => ?_
    have other := nested.2 n (same ▸ member) rfl
    rw [kind] at other
    cases other
  have output : pose ∈ (loaded clip player).outputs := List.mem_of_find?_eq_some playing.output
  have named : pose.name = "Pose" := by simpa using List.find?_some playing.output
  have plays : pose.type = .pose ∧ pose.storage = .value := by
    obtain ⟨q, inside, also⟩ := pin_counterpart frames.outputs output
    obtain ⟨type, storage⟩ := shaped.player spawned.named q inside ((congrArg Pin.name also).trans named)
    exact ⟨(congrArg Pin.type also).symm.trans type, (congrArg Pin.storage also).symm.trans storage⟩
  have linked := sound_createLinkIn pose.id sink full placed
    fun k found source target type oriented l starts arrives => by
      rw [there] at found
      cases found
      exact joins_player (identified_unique (identified_of_coherent full) there) (graph_made placed there) posed output
        plays ends (fun m inside => welcome.fresh m (mem_allNodes.mpr ⟨n.id, g, held, inside⟩)) oriented starts arrives
  obtain ⟨_, rfl, result | ⟨result, -⟩⟩ := playing.result
  · rw [result]
    exact sound_invalidate linked
  · rw [result]
    exact linked

theorem sound_promoteQuickState (coherent : Coherent none e) (sound : Sound names e) (id : NodeId) :
    Sound names (e.promoteQuickState id).1 := by
  rcases promoteQuickState_cases e id with same | ⟨owner, quick, state, f, promotion⟩
  · rw [same]
    exact sound
  · have spawned := spawn_spec coherent promotion.spawn
    have found := promotion.found
    have firm := coherent_promoted coherent spawned found promotion.kind
    have replaced : Sound names (f.modifyGraph owner (StateEdits.promoted · id state quick)) := by
      have same : f.asset = e.asset := spawn_asset promotion.spawn
      refine sound_modifyGraph ?_ fun g held => ?_
      · rw [spawned.rest]
        exact sound_drawn sound spawned.more
      · rw [same] at held
        rw [held, Option.bind_some] at found
        exact turns_promoted (identified_unique (identified_of_coherent coherent) held)
          (graph_made sound held quick (List.mem_of_find?_eq_some found)) (spawn_shaped promotion.spawn).1.made found
          promotion.kind ⟨spawned.under, spawned.named⟩
    obtain ⟨m, inside, rfl, kind, -⟩ := promotion.stands coherent
    rw [promotion.result]
    exact sound_playClip _ (coherent_ensureSubGraph firm m.id) (sound_ensureSubGraph firm replaced m.id) inside kind

end PoseGraph.LinkingEdits
