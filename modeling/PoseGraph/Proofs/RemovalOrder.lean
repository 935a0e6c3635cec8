import PoseGraph.Proofs.CleanRemoval

/-! Removing nodes together and removing them one by one, in whatever order, come to the
same. Each step on its own drops transitions and graphs, marks an entry and puts the pose of
the output to rest, but the nodes that have fallen in the end are the same, and of all that
is done in between only what concerns the nodes that are left can be seen. -/
namespace PoseGraph.RemovalOrder
open AssetOrder CleanRemoval EditRuns Editor EditorCoherence EntryMarks GraphDependencies GroundedGraphs Nesting NodeCascades
  NodeEdits Relation Unlinking

variable {a : Asset} {e f : Editor} {g h k : SubGraph} {n m : Node} {p : Pin} {nodes : List Node}
variable {owner id : NodeId} {ids order doomed done gone : List NodeId} {palette : Palette} {rests : Bool} {cut : Link → Bool}
variable {literal : Node → Pin → Value}

/-! ## Marks and removals -/

/-- The nodes of a graph after an entry has been marked. -/
def entered (nodes : List Node) : List Node :=
  if nodes.any Node.isEntry then nodes else Node.modifyFirst Node.isState (fun n => { n with isEntry := true }) nodes

theorem ensureEntry_eq (g : SubGraph) : g.ensureEntry = { g with nodes := entered g.nodes } := by
  rw [SubGraph.ensureEntry, entered]
  split <;> rfl

/-- An entry that is marked before nodes are dropped is the same afterwards, or it is marked anew. -/
theorem entered_filter (kept : NodeId → Bool) (nodes : List Node) :
    entered ((entered nodes).filter fun n => kept n.id) = entered (nodes.filter fun n => kept n.id) := by
  let mark (n : Node) : Node := { n with isEntry := true }
  have plain {xs : List Node} (none : xs.any Node.isEntry = false) : entered xs = Node.modifyFirst Node.isState mark xs := by
    rw [entered, none]
    rfl
  by_cases marked : nodes.any Node.isEntry = true
  · have same : entered nodes = nodes := by rw [entered, if_pos marked]
    rw [same]
  · rw [Bool.not_eq_true] at marked
    rw [plain marked]
    induction nodes with
    | nil => rfl
    | cons n nodes ih =>
      obtain ⟨first, rest⟩ := Bool.or_eq_false_iff.mp (List.any_cons ▸ marked)
      have later : (nodes.filter fun n => kept n.id).any Node.isEntry = false := by
        rw [List.any_eq_false] at rest ⊢
        exact fun x inside => rest x (List.mem_filter.mp inside).1
      rw [Node.modifyFirst]
      by_cases state : n.isState = true
      · rw [if_pos state, List.filter_cons, List.filter_cons]
        by_cases keep : kept n.id = true
        · have here : (n :: nodes.filter fun n => kept n.id).any Node.isEntry = false := by
            rw [List.any_cons, first, later]
            rfl
          rw [if_pos keep, if_pos keep, plain here, Node.modifyFirst, if_pos state, entered, List.any_cons]
          rfl
        · rw [if_neg keep, if_neg keep]
      · rw [if_neg state, List.filter_cons, List.filter_cons]
        by_cases keep : kept n.id = true
        · have here : (n :: nodes.filter fun n => kept n.id).any Node.isEntry = false := by
            rw [List.any_cons, first, later]
            rfl
          have step (xs : List Node) : entered (n :: xs) = n :: entered xs := by
            rw [entered, entered, List.any_cons, first, Bool.false_or, Node.modifyFirst, if_neg state]
            split <;> rfl
          rw [if_pos keep, if_pos keep, step, ih rest, step]
        · rw [if_neg keep, if_neg keep]
          exact ih rest

theorem entered_resettled (blind : ∀ n p, literal { n with isEntry := true } p = literal n p) (nodes : List Node) :
    (entered nodes).map (resettled literal) = entered (nodes.map (resettled literal)) := by
  have mark (n : Node) : resettled literal { n with isEntry := true } = { resettled literal n with isEntry := true } := by
    simp only [resettled, Node.mapPins, blind]
  have first (nodes : List Node) : (Node.modifyFirst Node.isState (fun n => { n with isEntry := true }) nodes).map (resettled literal) =
      Node.modifyFirst Node.isState (fun n => { n with isEntry := true }) (nodes.map (resettled literal)) := by
    induction nodes with
    | nil => rfl
    | cons n nodes ih =>
      have state : (resettled literal n).isState = n.isState := rfl
      rw [Node.modifyFirst, List.map_cons, Node.modifyFirst, state]
      split
      · rw [List.map_cons, mark]
      · rw [List.map_cons, ih]
  have marked : (nodes.map (resettled literal)).any Node.isEntry = nodes.any Node.isEntry := by
    rw [List.any_map]
    rfl
  rw [entered, entered, marked]
  split
  · rfl
  · exact first nodes

theorem outputPin_marked (same : SameButMarks g h) : h.outputPin? = g.outputPin? := by
  have pin (g : SubGraph) : g.outputPin? =
      (((g.nodes.map unmarked).find? (·.name == "Output")).bind fun n => n.inputs.head?).map Pin.id := by
    have names : (fun n : Node => n.name == "Output") ∘ unmarked = fun n => n.name == "Output" := rfl
    rw [List.find?_map, names, Option.bind_map]
    rfl
  rw [pin, pin, same.nodes]

theorem adjoins_marked (same : SameButMarks g h) (doomed : List NodeId) : adjoins doomed h = adjoins doomed g := by
  have node (g : SubGraph) (pin : PinId) : (g.nodeOfPin? pin).any (fun n => doomed.contains n.id) =
      ((g.nodes.map unmarked).find? (·.hasPin pin)).any fun n => doomed.contains n.id := by
    have pins : (fun n : Node => n.hasPin pin) ∘ unmarked = fun n => n.hasPin pin := rfl
    rw [List.find?_map, pins, Option.any_map]
    rfl
  funext l
  simp only [adjoins, node, same.nodes]

theorem cutLiteral_marked (same : SameButMarks g h) : cutLiteral palette rests cut h = cutLiteral palette rests cut g := by
  funext n p
  have bared : Bared rests cut h p.id ↔ Bared rests cut g p.id := by
    rw [Bared, Bared, outputPin_marked same, same.links]
  have severed : Severed cut h p.id ↔ Severed cut g p.id := by
    rw [Severed, Severed, same.links]
  simp only [cutLiteral, bared, severed]

/-- Marking an entry can wait until nodes have been removed. -/
theorem ensureEntry_purge (g : SubGraph) (doomed : List NodeId) :
    (purge palette rests doomed g.ensureEntry).ensureEntry = (purge palette rests doomed g).ensureEntry := by
  have same := sameButMarks_ensureEntry g
  have blind (n : Node) (p : Pin) : cutLiteral palette rests (adjoins doomed g) g { n with isEntry := true } p =
      cutLiteral palette rests (adjoins doomed g) g n p := rfl
  have nodes : entered (purge palette rests doomed g.ensureEntry).nodes = entered (purge palette rests doomed g).nodes := by
    change entered ((g.ensureEntry.nodes.map (resettled (cutLiteral palette rests (adjoins doomed g.ensureEntry)
      g.ensureEntry))).filter fun n => !doomed.contains n.id) = _
    rw [adjoins_marked same, cutLiteral_marked same, ensureEntry_eq, entered_resettled blind,
      entered_filter fun id => !doomed.contains id]
    rfl
  have links : (purge palette rests doomed g.ensureEntry).links = (purge palette rests doomed g).links := by
    change g.ensureEntry.links.filter (fun l => !adjoins doomed g.ensureEntry l) = g.links.filter fun l => !adjoins doomed g l
    rw [adjoins_marked same, ← same.links]
  rw [ensureEntry_eq, ensureEntry_eq (purge palette rests doomed g), nodes, links]

theorem purge_marked (same : SameButMarks g h) (doomed : List NodeId) :
    SameButMarks (purge palette rests doomed g) (purge palette rests doomed h) := by
  have nodes (g : SubGraph) : (purge palette rests doomed g).nodes.map unmarked =
      ((g.nodes.map unmarked).map (resettled (cutLiteral palette rests (adjoins doomed g) g))).filter
        fun n => !doomed.contains n.id := by
    have ids : (fun n : Node => !doomed.contains n.id) ∘ unmarked = fun n => !doomed.contains n.id := rfl
    have swap : unmarked ∘ resettled (cutLiteral palette rests (adjoins doomed g) g) =
        resettled (cutLiteral palette rests (adjoins doomed g) g) ∘ unmarked := rfl
    rw [List.map_map, ← swap, ← List.map_map, List.filter_map, ids]
    rfl
  constructor
  · rw [nodes, nodes, adjoins_marked same, cutLiteral_marked same, same.nodes]
  · change g.links.filter (fun l => !adjoins doomed g l) = h.links.filter fun l => !adjoins doomed h l
    rw [adjoins_marked same, same.links]

theorem settled_marked (anchored : Anchored g) (same : SameButMarks g h) (settled : g.danglingTransitions = []) :
    h.danglingTransitions = [] := by
  rw [SubGraph.danglingTransitions, List.map_eq_nil_iff, List.filter_eq_nil_iff]
  intro m inside
  rw [Bool.and_eq_true, beq_iff_eq, not_and]
  intro kind
  obtain ⟨input, output⟩ := joined_of_settled anchored settled same inside kind
  simp [input, output]

/-- Marks do not count for what falls. -/
theorem falls_marked (sturdy : Sturdy g) (same : SameButMarks g h) (falls : Falls palette rests h doomed gone) :
    Falls palette rests g doomed gone where
  removed := falls.removed
  settled := settled_marked (sturdy_purge (sturdy_marked same sturdy) palette rests gone).anchored
    (sameButMarks_symm (purge_marked same gone)) falls.settled
  least := fun other within stable => falls.least other within <|
    settled_marked (sturdy_purge sturdy palette rests other).anchored (purge_marked same other) stable

/-! ## What is left of an asset -/

/-- The graph with an entry, if it is that of a state machine. -/
def ensured (a : Asset) (owner : NodeId) (k : SubGraph) : SubGraph :=
  if a.ownerKind? owner = some .stateMachine then k.ensureEntry else k

/-- The asset after a graph has been replaced and those that are not reached any more have gone. -/
def leftover (a : Asset) (owner : NodeId) (k : SubGraph) : Asset := (replaced a owner (ensured a owner k)).collectOrphans

theorem sameButMarks_ensured (a : Asset) (owner : NodeId) (k : SubGraph) : SameButMarks k (ensured a owner k) := by
  rw [ensured]
  split
  · exact sameButMarks_ensureEntry k
  · exact ⟨rfl, rfl⟩

theorem hasNode_ensured (a : Asset) (owner : NodeId) (k : SubGraph) (id : NodeId) :
    (ensured a owner k).hasNode id = k.hasNode id := hasNode_marked (sameButMarks_ensured a owner k) id

theorem ensured_purge (a : Asset) (owner : NodeId) (k : SubGraph) (doomed : List NodeId) :
    ensured a owner (purge palette rests doomed (ensured a owner k)) = ensured a owner (purge palette rests doomed k) := by
  rw [ensured, ensured, ensured]
  split
  · exact ensureEntry_purge k doomed
  · rfl

/-- The nodes of a graph stem from those of another. -/
def Stem (g k : SubGraph) : Prop := ∀ m ∈ k.nodes, ∃ n ∈ g.nodes, n.id = m.id ∧ n.kind = m.kind

theorem stem_purge (g : SubGraph) (doomed : List NodeId) : Stem g (purge palette rests doomed g) := by
  intro m inside
  obtain ⟨n, member, -, rfl⟩ := mem_purge.mp inside
  exact ⟨n, member, rfl, rfl⟩

theorem stem_trans (first : Stem g h) (second : Stem h k) : Stem g k := by
  intro m inside
  obtain ⟨n, between, id, kind⟩ := second m inside
  obtain ⟨n', member, id', kind'⟩ := first n between
  exact ⟨n', member, id'.trans id, kind'.trans kind⟩

theorem stem_marked (same : SameButMarks g h) : Stem g h := by
  intro m inside
  obtain ⟨n, member, bare⟩ := marked_member same inside
  exact ⟨n, member, (congrArg Node.id bare :), (congrArg Node.kind bare :)⟩

theorem stem_fewer (stem : Stem g k) (has : k.hasNode id = true) : g.hasNode id = true := by
  obtain ⟨m, inside, rfl⟩ := hasNode_iff.mp has
  obtain ⟨n, member, same, -⟩ := stem m inside
  exact hasNode_iff.mpr ⟨n, member, same⟩

section Leftover
variable (distinct : ((allNodes a).map Node.id).Nodup) (loopless : Loopless a) (held : a.graph? owner = some g)
variable (stem : Stem g k)
include loopless held stem

include distinct in
/-- An owner whose graph is still there is of the same kind as before. -/
theorem ownerKind_collected (grounded : Grounded (replaced a owner k) owner) :
    (replaced a owner k).collectOrphans.ownerKind? owner = a.ownerKind? owner := by
  rw [Asset.ownerKind?, Asset.ownerKind?]
  split
  · rfl
  rename_i nested
  have fewer (id : NodeId) (has : k.hasNode id = true) : g.hasNode id = true := stem_fewer stem has
  have between : Loopless (replaced a owner k) := loopless_replaced loopless held fewer
  have collected := collected_collectOrphans (replaced a owner k)
  obtain ⟨outer, type, holds⟩ := (collected.owned owner ((hasGraph_collected between owner).mpr grounded)).resolve_left fun top =>
    nested (beq_iff_eq.mpr top)
  obtain ⟨m, found⟩ := Option.isSome_iff_exists.mp (findNode_isSome_iff.mpr ⟨outer, type, holds⟩)
  obtain ⟨inside, same⟩ := findNode_spec found
  -- The node that is found there has been in the asset before.
  obtain ⟨n, member, sameId, sameKind⟩ : ∃ n ∈ allNodes a, n.id = m.id ∧ n.kind = m.kind := by
    obtain ⟨place, g', also, here⟩ := mem_allNodes.mp inside
    have before := collected.graphs place g' also
    rw [replaced, graph_modifyGraph] at before
    split at before
    · rename_i atOwner
      rw [atOwner, held] at before
      cases before
      obtain ⟨n, member, same⟩ := stem m here
      exact ⟨n, mem_allNodes.mpr ⟨owner, g, held, member⟩, same⟩
    · exact ⟨m, mem_allNodes.mpr ⟨place, g', before, here⟩, rfl, rfl⟩
  obtain ⟨n', also⟩ := findNode_isSome member
  obtain ⟨inA, sameN⟩ := findNode_spec also
  obtain rfl : n' = n := List.inj_on_of_nodup_map distinct inA member sameN
  rw [found, ← same, ← sameId, also, Option.map_some, Option.map_some, sameKind]

include distinct in
/-- What the end of a removal leaves. -/
theorem leftover_eq (collected : f.asset.collectOrphans = (replaced a owner k).collectOrphans) :
    ((f.modifyAsset (·.collectOrphans)).ensureEntryOfMachine owner).asset = leftover a owner k := by
  have fewer (id : NodeId) (has : k.hasNode id = true) : g.hasNode id = true := stem_fewer stem has
  have marked (id : NodeId) (has : k.ensureEntry.hasNode id = true) : g.hasNode id = true :=
    fewer id (hasNode_marked (sameButMarks_ensureEntry k) id ▸ has)
  rw [ensured_asset loopless held fewer collected, leftover, ensured]
  by_cases grounded : Grounded (replaced a owner k) owner
  · rw [ownerKind_collected distinct loopless held stem grounded]
    split <;> rfl
  · have lost := collect_lost loopless held fewer grounded marked
    split <;> split <;> simp only [lost]

end Leftover

/-! ## One removal after another -/

/-- What a removal of nodes from the active graph starts from: nodes are told apart in the asset,
nesting does not loop, and the active graph is sturdy and has one output at most. -/
structure Removable (e : Editor) (g : SubGraph) : Prop where
  held : e.activeGraph? = some g
  distinct : ((allNodes e.asset).map Node.id).Nodup
  loopless : Loopless e.asset
  sturdy : Sturdy g
  sole : SoleOutput g

/-- The active graph after nodes have gone from it. -/
def remnant (e : Editor) (g : SubGraph) (gone : List NodeId) : SubGraph :=
  ensured e.asset e.activeOwner (purged e e.activeOwner gone g)

/-- The editor after nodes have fallen together with others. -/
structure Removed (e : Editor) (g : SubGraph) (doomed : List NodeId) (f : Editor) : Prop where
  path : f.path = e.path
  fallen : ∃ gone, Falls (e.palette e.activeOwner) (posesRest e.asset e.activeOwner) g doomed gone ∧
    f.asset = (replaced e.asset e.activeOwner (remnant e g gone)).collectOrphans

theorem remnant_marks (e : Editor) (g : SubGraph) (gone : List NodeId) :
    SameButMarks (purged e e.activeOwner gone g) (remnant e g gone) := sameButMarks_ensured ..

theorem hasNode_remnant : (remnant e g gone).hasNode id = true ↔ g.hasNode id = true ∧ id ∉ gone := by
  rw [remnant, hasNode_ensured, purged, hasNode_purge]

theorem stem_remnant (e : Editor) (g : SubGraph) (gone : List NodeId) : Stem g (remnant e g gone) :=
  stem_trans (stem_purge g gone) (stem_marked (remnant_marks e g gone))

/-- Removing a node that is not in the active graph. -/
theorem removeNode_idle (absent : ∀ h, f.activeGraph? = some h → h.hasNode id = false) : (f.removeNode id).1 = f := by
  rw [removeNode, removeNodes]
  cases held : f.asset.graph? f.activeOwner with
  | none => rw [removeNodesIn, held]
  | some h => rw [removeNodesIn_none held fun id single => List.mem_singleton.mp single ▸ absent h held]

theorem path_ensureEntryOfMachine (e : Editor) (owner : NodeId) : (e.ensureEntryOfMachine owner).path = e.path := by
  rw [ensureEntryOfMachine]
  split <;> rfl

theorem sole_marked (same : SameButMarks g h) (sole : SoleOutput g) : SoleOutput h := by
  intro m inM n inN
  obtain ⟨m', memberM, bareM⟩ := marked_member same inM
  obtain ⟨n', memberN, bareN⟩ := marked_member same inN
  have idM : m'.id = m.id := (congrArg Node.id bareM :)
  have idN : n'.id = n.id := (congrArg Node.id bareN :)
  have nameM : m'.name = m.name := (congrArg Node.name bareM :)
  have nameN : n'.name = n.name := (congrArg Node.name bareN :)
  rw [← idM, ← idN, ← nameM, ← nameN]
  exact sole m' memberM n' memberN

section Steps
variable (removable : Removable e g)
include removable

theorem removed_together (ids : List NodeId) (some_ : ∃ id ∈ ids, g.hasNode id = true) :
    Removed e g (ids.filter g.hasNode) (e.removeNodes ids).1 := by
  obtain ⟨held, distinct, loopless, sturdy, sole⟩ := removable
  obtain ⟨f, k, rounds, asset, path, ends⟩ :=
    removeNodesIn_spec sturdy (outside_of_loopless loopless held) held some_
  obtain ⟨gone, rfl, falls⟩ := rounds_falls sturdy sole rounds
  rw [removeNodes, ends]
  exact ⟨(path_ensureEntryOfMachine _ _).trans path, gone, falls,
    leftover_eq distinct loopless held (stem_purge g gone) (congrArg Asset.collectOrphans asset)⟩

section Later
variable (path : f.path = e.path) (asset : f.asset = (replaced e.asset e.activeOwner (remnant e g gone)).collectOrphans)
include path asset

/-- The active graph is still there if it is reached, or it has gone. -/
theorem active_cases :
    Grounded (replaced e.asset e.activeOwner (remnant e g gone)) e.activeOwner ∧ f.activeGraph? = some (remnant e g gone) ∨
      ¬Grounded (replaced e.asset e.activeOwner (remnant e g gone)) e.activeOwner ∧ f.activeGraph? = none := by
  have between := loopless_replaced removable.loopless removable.held fun _ => stem_fewer (stem_remnant e g gone)
  have owner : f.activeOwner = e.activeOwner := by rw [activeOwner, activeOwner, path]
  rw [activeGraph?, owner, asset]
  by_cases grounded : Grounded (replaced e.asset e.activeOwner (remnant e g gone)) e.activeOwner
  · refine .inl ⟨grounded, ?_⟩
    rw [graph_collected between grounded, replaced, graph_modifyGraph, if_pos rfl,
      show e.asset.graph? e.activeOwner = some g from removable.held]
    rfl
  · refine .inr ⟨grounded, ?_⟩
    by_contra present
    obtain ⟨h, held⟩ := Option.ne_none_iff_exists'.mp present
    exact grounded ((hasGraph_collected between e.activeOwner).mp (hasGraph_iff.mpr ⟨h, held⟩))

/-- A node that is still there is removed from what is left. -/
theorem removed_further (falls : Falls (e.palette e.activeOwner) (posesRest e.asset e.activeOwner) g doomed gone)
    (grounded : Grounded (replaced e.asset e.activeOwner (remnant e g gone)) e.activeOwner)
    (held' : f.activeGraph? = some (remnant e g gone)) (has : (remnant e g gone).hasNode id = true) :
    Removed e g (doomed ++ [id]) (f.removeNode id).1 := by
  obtain ⟨held, distinct, loopless, sturdy, sole⟩ := removable
  have owner : f.activeOwner = e.activeOwner := by rw [activeOwner, activeOwner, path]
  have marks := remnant_marks e g gone
  have before : Sturdy (purged e e.activeOwner gone g) := sturdy_purge sturdy _ _ gone
  have stem := stem_remnant e g gone
  have fewer (id : NodeId) (has : (remnant e g gone).hasNode id = true) : g.hasNode id = true := stem_fewer stem has
  have outside : (remnant e g gone).hasNode f.activeOwner = false := by
    rw [owner, Bool.eq_false_iff]
    exact fun inside => Bool.eq_false_iff.mp (outside_of_loopless loopless held) (fewer _ inside)
  have kind : f.asset.ownerKind? e.activeOwner = e.asset.ownerKind? e.activeOwner := by
    rw [asset]
    exact ownerKind_collected distinct loopless held stem grounded
  have one : [id].filter (remnant e g gone).hasNode = [id] := by simp [has]
  obtain ⟨f', k, rounds, asset', path', ends⟩ :=
    removeNodesIn_spec (sturdy_marked marks before) outside held' ⟨id, List.mem_singleton_self id, has⟩
  rw [one, owner, palette_congr kind, posesRest_congr kind] at rounds
  obtain ⟨more, rfl, after⟩ := rounds_falls (sturdy_marked marks before) (sole_marked marks (sole_purge sole gone)) rounds
  have both := falls_append sturdy sole falls (falls_marked before marks after)
  rw [removeNode, removeNodes, ends, owner]
  refine ⟨(path_ensureEntryOfMachine _ _).trans (path'.trans path), gone ++ more, both, ?_⟩
  have stemmed : Stem g (purged e e.activeOwner more (remnant e g gone)) := stem_trans stem (stem_purge _ more)
  have again : f'.asset.collectOrphans =
      (replaced e.asset e.activeOwner (purged e e.activeOwner more (remnant e g gone))).collectOrphans := by
    rw [asset', asset, owner]
    exact collect_again loopless held fewer grounded fun _ still => (hasNode_purge.mp still).1
  rw [leftover_eq distinct loopless held stemmed again, leftover, remnant, purged, ensured_purge, purged,
    purge_purge sturdy sole]
  rfl

/-- Once the active graph has gone, it makes no difference what else would fall in it. -/
theorem removed_lost (known : ∀ id ∈ doomed, g.hasNode id = true) (some_ : doomed ≠ [])
    (lost : ¬Grounded (replaced e.asset e.activeOwner (remnant e g gone)) e.activeOwner) : Removed e g doomed f := by
  obtain ⟨id, inside⟩ := List.exists_mem_of_ne_nil doomed some_
  have all : doomed.filter g.hasNode = doomed := List.filter_eq_self.mpr known
  obtain ⟨-, more, falls, -⟩ := removed_together removable doomed ⟨id, inside, known id inside⟩
  rw [all] at falls
  have fewer (gone : List NodeId) (id : NodeId) : (remnant e g gone).hasNode id = true → g.hasNode id = true :=
    stem_fewer (stem_remnant e g gone)
  exact ⟨path, more, falls, asset.trans (collect_lost removable.loopless removable.held (fewer gone) lost (fewer more)).symm⟩

end Later

/-- Removing one more node. -/
theorem removed_next (known : ∀ id ∈ doomed, g.hasNode id = true) (removed : Removed e g doomed f) (id : NodeId) :
    Removed e g (doomed ++ [id].filter g.hasNode) (f.removeNode id).1 := by
  obtain ⟨path, gone, falls, asset⟩ := removed
  have idle (absent : ¬(remnant e g gone).hasNode id = true) : (f.removeNode id).1 = f := by
    refine removeNode_idle fun h also => ?_
    rcases active_cases removable path asset with ⟨-, held⟩ | ⟨-, none⟩
    · rw [← Option.some.inj (held.symm.trans also)]
      simpa using absent
    · rw [none] at also
      cases also
  by_cases here : g.hasNode id = true
  · rw [List.filter_cons_of_pos here, List.filter_nil]
    by_cases fallen : id ∈ gone
    · rw [idle fun has => (hasNode_remnant.mp has).2 fallen]
      exact ⟨path, gone, falls_known falls fallen, asset⟩
    · rcases active_cases removable path asset with ⟨grounded, held⟩ | ⟨lost, none⟩
      · exact removed_further removable path asset falls grounded held (hasNode_remnant.mpr ⟨here, fallen⟩)
      · rw [removeNode_idle fun h also => by rw [none] at also; cases also]
        refine removed_lost removable path asset (fun other inside => ?_) (by simp) lost
        exact (List.mem_append.mp inside).elim (known other) fun own => List.mem_singleton.mp own ▸ here
  · rw [List.filter_cons_of_neg here, List.filter_nil, List.append_nil, idle fun has => here (hasNode_remnant.mp has).1]
    exact ⟨path, gone, falls, asset⟩

theorem removed_run (order : List NodeId) (known : ∀ id ∈ doomed, g.hasNode id = true) (removed : Removed e g doomed f) :
    Removed e g (doomed ++ order.filter g.hasNode) (order.foldl (fun e id => (e.removeNode id).1) f) := by
  induction order generalizing f doomed with
  | nil => rwa [List.filter_nil, List.append_nil]
  | cons id order ih =>
    have split : (id :: order).filter g.hasNode = [id].filter g.hasNode ++ order.filter g.hasNode := by
      rw [← List.filter_append, List.singleton_append]
    rw [List.foldl_cons, split, ← List.append_assoc]
    refine ih (fun id inside => ?_) (removed_next removable known removed id)
    exact (List.mem_append.mp inside).elim (known id) fun own => (List.mem_filter.mp own).2

/-- Nothing happens before the first node that is there. -/
theorem removed_singly (order : List NodeId) (some_ : ∃ id ∈ order, g.hasNode id = true) :
    Removed e g (order.filter g.hasNode) (order.foldl (fun e id => (e.removeNode id).1) e) := by
  induction order with
  | nil => simp at some_
  | cons id order ih =>
    have split : (id :: order).filter g.hasNode = [id].filter g.hasNode ++ order.filter g.hasNode := by
      rw [← List.filter_append, List.singleton_append]
    rw [List.foldl_cons, split]
    by_cases here : g.hasNode id = true
    · refine removed_run removable order (fun id inside => (List.mem_filter.mp inside).2) ?_
      exact removed_together removable [id] ⟨id, List.mem_singleton_self id, here⟩
    · have idle : (e.removeNode id).1 = e := removeNode_idle fun h also => by
        rw [← Option.some.inj (removable.held.symm.trans also)]
        simpa using here
      have none : [id].filter g.hasNode = [] := by simp [here]
      rw [idle, none, List.nil_append]
      obtain ⟨other, inside, has⟩ := some_
      refine ih ⟨other, (List.mem_cons.mp inside).resolve_left fun same => here (same ▸ has), has⟩

end Steps

/-- Removing nodes one by one, in whatever order, leaves what removing them together leaves. -/
theorem removal_order_irrelevant (distinct : ((allNodes e.asset).map Node.id).Nodup) (loopless : Loopless e.asset)
    (active : ∀ g, e.activeGraph? = some g → Sturdy g ∧ SoleOutput g) (perm : order.Perm ids) :
    (order.foldl (fun e id => (e.removeNode id).1) e).asset = (e.removeNodes ids).1.asset := by
  have idle (none : ∀ id ∈ order, (e.removeNode id).1 = e) : order.foldl (fun e id => (e.removeNode id).1) e = e := by
    clear perm
    induction order with
    | nil => rfl
    | cons id order ih =>
      rw [List.foldl_cons, none id List.mem_cons_self]
      exact ih fun other inside => none other (List.mem_cons_of_mem _ inside)
  cases held : e.activeGraph? with
  | none =>
    have nothing : (e.removeNodes ids).1 = e := by
      rw [removeNodes, removeNodesIn, show e.asset.graph? e.activeOwner = none from held]
    rw [idle fun id _ => removeNode_idle (by simp [held]), nothing]
  | some g =>
    obtain ⟨sturdy, sole⟩ := active g held
    have removable : Removable e g := ⟨held, distinct, loopless, sturdy, sole⟩
    by_cases some_ : ∃ id ∈ ids, g.hasNode id = true
    · obtain ⟨id, inside, has⟩ := some_
      obtain ⟨-, gone, falls, together⟩ := removed_together removable ids ⟨id, inside, has⟩
      obtain ⟨-, fallen, also, singly⟩ := removed_singly removable order ⟨id, perm.mem_iff.mpr inside, has⟩
      rw [together, singly]
      refine congrArg (leftover e.asset e.activeOwner) (falls_unique also falls fun other => ?_)
      rw [List.mem_filter, List.mem_filter, perm.mem_iff]
    · push Not at some_
      have absent (id : NodeId) (inside : id ∈ ids) : g.hasNode id = false := Bool.eq_false_iff.mpr (some_ id inside)
      rw [idle fun id inside => removeNode_idle fun h also => ?_, removeNodes, removeNodesIn_none held absent]
      rw [← Option.some.inj (held.symm.trans also)]
      exact absent id (perm.mem_iff.mp inside)

/-- Three states of a state machine, the first two with a transition between them. -/
def marchingEditor : Editor := (pacing ++ [Edit.createNode "StateMachine" "State"]).foldl Edit.apply
  (.ofAsset (.ofName "Wave" ⟨1⟩) .empty .default 1)

/-- Whichever of the two joined states goes first, the third one becomes the entry. -/
theorem removal_order_irrelevant_marching : [(⟨8⟩ : NodeId), ⟨4⟩].Perm [⟨4⟩, ⟨8⟩] ∧
    ((marchingEditor.removeNode ⟨8⟩).1.removeNode ⟨4⟩).1.asset = (marchingEditor.removeNodes [⟨4⟩, ⟨8⟩]).1.asset ∧
    ((marchingEditor.removeNodes [⟨4⟩, ⟨8⟩]).1.asset.graph? ⟨2⟩).map (fun g => g.nodes.map fun n => (n.id, n.isEntry)) =
      some [(⟨26⟩, true)] := by
  have orderly : Orderly marchingEditor.asset :=
    orderly_of_entries ⟨by decide +kernel, by decide +kernel⟩ (by decide +kernel) (by decide +kernel)
  have perm : [(⟨8⟩ : NodeId), ⟨4⟩].Perm [⟨4⟩, ⟨8⟩] := .swap _ _ _
  have sole : ∀ g ∈ marchingEditor.activeGraph?, SoleOutput g := by decide +kernel
  have same := removal_order_irrelevant orderly.identified.nodes orderly.loopless
    (fun g held => ⟨orderly_sturdy orderly held, sole g held⟩) perm
  rw [List.foldl_cons, List.foldl_cons, List.foldl_nil] at same
  exact ⟨perm, same, by decide +kernel⟩

end PoseGraph.RemovalOrder
