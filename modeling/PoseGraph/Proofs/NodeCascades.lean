import PoseGraph.Proofs.NodeEdits
import PoseGraph.Proofs.Unlinking

/-! Which nodes go when some are removed. With a node go the links at it, and a
transition that has lost the last link at one of its ends goes in the next round. The
nodes that are gone in the end are the least set that contains those to be removed and
is closed under such losses, however the removal is divided into rounds. -/
namespace PoseGraph.NodeCascades
open AssetOrder EditOutcomes Editor EditorCoherence GraphDependencies LinkEdits NodeCraft NodeEdits Unlinking

variable {a : Asset} {e f : Editor} {g h k : SubGraph} {n m : Node} {p : Pin} {pin : PinId} {l : Link}
variable {owner id : NodeId} {ids doomed done gone : List NodeId} {palette : Palette} {rests : Bool} {cut : Link → Bool}
variable {literal : Node → Pin → Value}

/-! ## Links at nodes -/

/-- Every link has both of its ends. -/
def Anchored (g : SubGraph) : Prop :=
  ∀ l ∈ g.links, (g.pin? l.source).isSome = true ∧ (g.pin? l.target).isSome = true

instance : Decidable (Anchored g) := inferInstanceAs (Decidable (∀ l ∈ g.links, _))

/-- What identities have to tell apart for a removal to be exact: nodes, pins and links,
where no link lacks an end. -/
structure Sturdy (g : SubGraph) : Prop where
  unique : UniqueIds g
  distinct : (g.links.map Link.id).Nodup
  anchored : Anchored g

/-- Whether an end of a link is at one of some nodes. -/
def adjoins (doomed : List NodeId) (g : SubGraph) (l : Link) : Bool :=
  (g.nodeOfPin? l.source).any (fun n => doomed.contains n.id) || (g.nodeOfPin? l.target).any fun n => doomed.contains n.id

theorem adjoins_iff : adjoins doomed g l = true ↔
    ∃ n, (g.nodeOfPin? l.source = some n ∨ g.nodeOfPin? l.target = some n) ∧ n.id ∈ doomed := by
  simp only [adjoins, Bool.or_eq_true, Option.any_eq_true, List.contains_iff_mem, or_and_right, exists_or]

theorem adjoins_append (done doomed : List NodeId) (g : SubGraph) (l : Link) :
    adjoins (done ++ doomed) g l = (adjoins done g l || adjoins doomed g l) := by
  rw [Bool.eq_iff_iff, Bool.or_eq_true]
  simp only [adjoins_iff, List.mem_append, and_or_left, exists_or]

theorem nodeOfPin_isSome : (g.nodeOfPin? pin).isSome = (g.pin? pin).isSome := by
  rw [Bool.eq_iff_iff, pin_isSome_iff, SubGraph.nodeOfPin?, List.find?_isSome]

theorem anchored_ends (anchored : Anchored g) (link : l ∈ g.links) :
    ∃ s t, g.nodeOfPin? l.source = some s ∧ g.nodeOfPin? l.target = some t := by
  obtain ⟨source, target⟩ := anchored l link
  rw [← nodeOfPin_isSome] at source target
  obtain ⟨s, starts⟩ := Option.isSome_iff_exists.mp source
  obtain ⟨t, ends⟩ := Option.isSome_iff_exists.mp target
  exact ⟨s, t, starts, ends⟩

theorem nodeOfPin_unlinked : (unlinked palette rests cut g).nodeOfPin? pin =
    (g.nodeOfPin? pin).map (resettled (cutLiteral palette rests cut g)) :=
  nodeOfPin_resettle

theorem adjoins_unlinked (palette : Palette) (rests : Bool) (cut : Link → Bool) (ids : List NodeId) (g : SubGraph) :
    adjoins ids (unlinked palette rests cut g) = adjoins ids g := by
  funext l
  simp only [adjoins, nodeOfPin_unlinked, Option.any_map]
  rfl

theorem sturdy_unlinked (sturdy : Sturdy g) (palette : Palette) (rests : Bool) (cut : Link → Bool) :
    Sturdy (unlinked palette rests cut g) where
  unique := unique_unlinked sturdy.unique
  distinct := sturdy.distinct.sublist (List.filter_sublist.map _)
  anchored := by
    intro l link
    have both := sturdy.anchored l (mem_unlinked.mp link).1
    simpa only [← nodeOfPin_isSome, nodeOfPin_unlinked, Option.isSome_map] using both

/-- Where no link lacks an end, only links at a node go with it. -/
theorem deadLinks_eq (anchored : Anchored g) (id : NodeId) : g.deadLinks id = g.links.filter (adjoins [id] g) := by
  refine List.filter_congr fun l link => ?_
  obtain ⟨s, t, starts, ends⟩ := anchored_ends anchored link
  rw [Bool.eq_iff_iff, adjoins_iff]
  simp [starts, ends, or_and_right, exists_or]

theorem removeDeadLinks_asset (sturdy : Sturdy g) (held : e.asset.graph? owner = some g) (id : NodeId) :
    (e.removeDeadLinks owner id).asset = e.asset.modifyGraph owner (unlinkedIn e owner (adjoins [id] g)) := by
  rw [removeDeadLinks, held]
  dsimp only
  rw [deadLinks_eq sturdy.anchored]
  split
  · rename_i none
    refine (modifyGraph_self fun g' also => ?_).symm
    obtain rfl : g = g' := Option.some.inj (held.symm.trans also)
    exact unlinked_idle fun l link => by simpa using List.filter_eq_nil_iff.mp (List.isEmpty_iff.mp none) l link
  · rename_i some_
    rw [List.isEmpty_iff, List.filter_eq_nil_iff] at some_
    push Not at some_
    exact dropLinksIn_asset sturdy.unique sturdy.distinct held some_

/-- Removing the links at one node after the other removes the links at all of them. -/
theorem removeAllDeadLinks_asset (sturdy : Sturdy g) (held : e.asset.graph? owner = some g) (doomed : List NodeId) :
    (doomed.foldl (fun e id => e.removeDeadLinks owner id) e).asset =
      e.asset.modifyGraph owner (unlinkedIn e owner (adjoins doomed g)) := by
  induction doomed generalizing e g with
  | nil =>
    refine (modifyGraph_self fun g' _ => unlinked_idle fun l _ => Bool.eq_false_iff.mpr fun touched => ?_).symm
    obtain ⟨n, -, inside⟩ := adjoins_iff.mp touched
    cases inside
  | cons id ids ih =>
    have first := removeDeadLinks_asset sturdy held id
    have after : (e.removeDeadLinks owner id).asset.graph? owner = some (unlinkedIn e owner (adjoins [id] g) g) := by
      rw [first, graph_modifyGraph, if_pos rfl, held]
      rfl
    have kind : (e.removeDeadLinks owner id).asset.ownerKind? owner = e.asset.ownerKind? owner := by
      rw [first]
      exact ownerKind_unlinked e.asset owner owner
    rw [List.foldl_cons, ih (sturdy_unlinked sturdy _ _ _) after, first, modifyGraph_modifyGraph]
    refine modifyGraph_congr fun g' also => ?_
    obtain rfl : g = g' := Option.some.inj (held.symm.trans also)
    rw [Function.comp_apply, unlinkedIn_congr kind, unlinkedIn, unlinkedIn, unlinked_unlinked, adjoins_unlinked, unlinkedIn]
    exact unlinked_congr fun l _ => (adjoins_append [id] ids g l).symm

/-- The graph after nodes have been removed with the links at them. -/
def purge (palette : Palette) (rests : Bool) (doomed : List NodeId) (g : SubGraph) : SubGraph :=
  without doomed (unlinked palette rests (adjoins doomed g) g)

/-- The graph of an owner after nodes have been removed from it. -/
def purged (e : Editor) (owner : NodeId) (doomed : List NodeId) (g : SubGraph) : SubGraph :=
  purge (e.palette owner) (posesRest e.asset owner) doomed g

theorem dropNodes_asset (sturdy : Sturdy g) (held : e.asset.graph? owner = some g) (doomed : List NodeId) :
    (e.dropNodes owner doomed).asset = e.asset.modifyGraph owner (purged e owner doomed) := by
  have dropped : (e.dropNodes owner doomed).asset =
      (doomed.foldl (fun e id => e.removeDeadLinks owner id) e).asset.modifyGraph owner (without doomed) := rfl
  rw [dropped, removeAllDeadLinks_asset sturdy held, modifyGraph_modifyGraph]
  refine modifyGraph_congr fun g' also => ?_
  obtain rfl : g = g' := Option.some.inj (held.symm.trans also)
  rfl

/-! ## Removing nodes in rounds -/

/-- A graph has one output at most. -/
def SoleOutput (g : SubGraph) : Prop :=
  ∀ m ∈ g.nodes, ∀ n ∈ g.nodes, m.name = "Output" → n.name = "Output" → m.id = n.id

instance : Decidable (SoleOutput g) := inferInstanceAs (Decidable (∀ m ∈ g.nodes, _))

theorem nodeOfPin_without (found : g.nodeOfPin? pin = some n) (spared : n.id ∉ doomed) :
    (without doomed g).nodeOfPin? pin = some n := by
  obtain ⟨has, before, after, shape, unmet⟩ := List.find?_eq_some_iff_append.mp found
  have spares : (!doomed.contains n.id) = true := by simpa using spared
  refine List.find?_eq_some_iff_append.mpr ⟨has, before.filter fun m => !doomed.contains m.id,
    after.filter fun m => !doomed.contains m.id, ?_, fun m inside => unmet m (List.mem_filter.mp inside).1⟩
  rw [without, shape, List.filter_append, List.filter_cons, if_pos spares]

theorem mem_without : n ∈ (without doomed g).nodes ↔ n ∈ g.nodes ∧ n.id ∉ doomed := by
  rw [without, List.mem_filter, Bool.not_eq_true', ← Bool.not_eq_true, List.contains_iff_mem]

theorem unique_without (unique : UniqueIds g) (doomed : List NodeId) : UniqueIds (without doomed g) :=
  ⟨unique.nodes.sublist (List.filter_sublist.map _), unique.pins.sublist ((List.filter_sublist.flatMap _).map _)⟩

theorem without_without (g : SubGraph) (done doomed : List NodeId) :
    without doomed (without done g) = without (done ++ doomed) g := by
  have nodes : ((g.nodes.filter fun n => !done.contains n.id).filter fun n => !doomed.contains n.id) =
      g.nodes.filter fun n => !(done ++ doomed).contains n.id := by
    rw [List.filter_filter]
    refine List.filter_congr fun n _ => ?_
    rw [Bool.eq_iff_iff]
    simp [and_comm]
  rw [without, without, without, nodes]

/-- The ends of a link that is kept are as before. -/
theorem adjoins_without (anchored : Anchored g) (link : l ∈ g.links) (spared : adjoins done g l = false) :
    adjoins doomed (without done g) l = adjoins doomed g l := by
  obtain ⟨s, t, starts, ends⟩ := anchored_ends anchored link
  have spares {n : Node} (here : g.nodeOfPin? l.source = some n ∨ g.nodeOfPin? l.target = some n) : n.id ∉ done :=
    fun inside => Bool.eq_false_iff.mp spared (adjoins_iff.mpr ⟨n, here, inside⟩)
  simp only [adjoins, starts, ends, nodeOfPin_without starts (spares (.inl starts)),
    nodeOfPin_without ends (spares (.inr ends))]

/-- Where a graph has one output at most, removing a node does not turn another one into the output. -/
theorem outputPin_without (unique : UniqueIds g) (sole : SoleOutput g) (member : n ∈ g.nodes) (spared : n.id ∉ doomed)
    (has : n.hasPin pin = true) : (without doomed g).outputPin? = some pin ↔ g.outputPin? = some pin := by
  have spec {h : SubGraph} : h.outputPin? = some pin ↔
      ∃ o, h.nodeNamed? "Output" = some o ∧ ∃ p, o.inputs.head? = some p ∧ p.id = pin := by
    simp only [SubGraph.outputPin?, Option.map_eq_some_iff, Option.bind_eq_some_iff]
    grind
  have named {h : SubGraph} {o : Node} (found : h.nodeNamed? "Output" = some o) : o ∈ h.nodes ∧ o.name = "Output" :=
    ⟨List.mem_of_find?_eq_some found, by simpa using List.find?_some found⟩
  rw [spec, spec]
  constructor
  · rintro ⟨o, found, rest⟩
    obtain ⟨kept, output⟩ := named found
    have inside := (mem_without.mp kept).1
    refine ⟨o, find_unique inside (beq_iff_eq.mpr output) fun m also same => ?_, rest⟩
    exact node_eq_of_id unique also inside (sole m also o inside (beq_iff_eq.mp same) output)
  · rintro ⟨o, found, p, first, rfl⟩
    obtain ⟨inside, output⟩ := named found
    obtain rfl : o = n := node_eq_of_pin unique inside member
      (hasPin_iff.mpr ⟨p, List.mem_append_left _ (List.mem_of_mem_head? first), rfl⟩) has
    refine ⟨o, find_unique (mem_without.mpr ⟨inside, spared⟩) (beq_iff_eq.mpr output) fun m also same => ?_, p, first, rfl⟩
    have before := (mem_without.mp also).1
    exact node_eq_of_id unique before inside (sole m before o inside (beq_iff_eq.mp same) output)

/-- Taking links away from a graph without some nodes. -/
theorem unlinked_without (unique : UniqueIds g) (sole : SoleOutput g) (cut : Link → Bool) (doomed : List NodeId) :
    unlinked palette rests cut (without doomed g) = without doomed (unlinked palette rests cut g) := by
  have nodes : (without doomed g).nodes.map (resettled (cutLiteral palette rests cut (without doomed g))) =
      (g.nodes.map (resettled (cutLiteral palette rests cut g))).filter fun n => !doomed.contains n.id := by
    have ids : (fun n : Node => !doomed.contains n.id) ∘ resettled (cutLiteral palette rests cut g) =
        fun n => !doomed.contains n.id := rfl
    rw [List.filter_map, ids]
    have same : resettle (cutLiteral palette rests cut (without doomed g)) (without doomed g) =
        resettle (cutLiteral palette rests cut g) (without doomed g) := resettle_congr fun n inside p held => ?_
    · exact congrArg SubGraph.nodes same
    · obtain ⟨member, spared⟩ := mem_without.mp inside
      have output := outputPin_without unique sole member spared (hasPin_iff.mpr ⟨p, held, rfl⟩)
      have bared : Bared rests cut (without doomed g) p.id ↔ Bared rests cut g p.id :=
        and_congr_right fun _ => and_congr output Iff.rfl
      have severed : Severed cut (without doomed g) p.id ↔ Severed cut g p.id := Iff.rfl
      simp only [cutLiteral, bared, severed]
  exact congrArg₂ SubGraph.mk nodes rfl

theorem sturdy_purge (sturdy : Sturdy g) (palette : Palette) (rests : Bool) (doomed : List NodeId) :
    Sturdy (purge palette rests doomed g) := by
  have before : Sturdy (unlinked palette rests (adjoins doomed g) g) := sturdy_unlinked sturdy _ _ _
  refine ⟨unique_without before.unique doomed, before.distinct, fun l (link : l ∈ (unlinked palette rests _ g).links) => ?_⟩
  have kept := (mem_unlinked.mp link).2
  rw [← adjoins_unlinked palette rests (adjoins doomed g)] at kept
  obtain ⟨s, t, starts, ends⟩ := anchored_ends before.anchored link
  have spares {n : Node} (here : (unlinked palette rests (adjoins doomed g) g).nodeOfPin? l.source = some n ∨
      (unlinked palette rests (adjoins doomed g) g).nodeOfPin? l.target = some n) : n.id ∉ doomed :=
    fun inside => Bool.eq_false_iff.mp kept (adjoins_iff.mpr ⟨n, here, inside⟩)
  rw [← nodeOfPin_isSome, ← nodeOfPin_isSome, purge, nodeOfPin_without starts (spares (.inl starts)),
    nodeOfPin_without ends (spares (.inr ends))]
  exact ⟨rfl, rfl⟩

/-- Removing nodes, and then others, is removing all of them. -/
theorem purge_purge (sturdy : Sturdy g) (sole : SoleOutput g) (done doomed : List NodeId) :
    purge palette rests doomed (purge palette rests done g) = purge palette rests (done ++ doomed) g := by
  have soleUnlinked : SoleOutput (unlinked palette rests (adjoins done g) g) := by
    intro m inM n inN
    obtain ⟨m', memberM, rfl⟩ := List.mem_map.mp inM
    obtain ⟨n', memberN, rfl⟩ := List.mem_map.mp inN
    exact sole m' memberM n' memberN
  have anchored := (sturdy_unlinked sturdy palette rests (adjoins done g)).anchored
  rw [purge, purge, unlinked_without (unique_unlinked sturdy.unique) soleUnlinked, without_without, unlinked_unlinked, purge]
  refine congrArg (without _) (unlinked_congr fun l link => ?_)
  rw [adjoins_append]
  cases first : adjoins done g l with
  | true => rfl
  | false =>
    rw [Bool.false_or, Bool.false_or, adjoins_without anchored (mem_unlinked.mpr ⟨link, first⟩)
      ((adjoins_unlinked ..).symm ▸ first), adjoins_unlinked]

/-- Only which nodes are removed matters. -/
theorem purge_congr (same : ∀ id, id ∈ done ↔ id ∈ doomed) : purge palette rests done g = purge palette rests doomed g := by
  have contains (id : NodeId) : done.contains id = doomed.contains id := by
    rw [Bool.eq_iff_iff, List.contains_iff_mem, List.contains_iff_mem, same]
  have adjoin : adjoins done g = adjoins doomed g := by
    funext l
    simp only [adjoins, contains]
  simp only [purge, without, adjoin, contains]

theorem mem_purge : m ∈ (purge palette rests doomed g).nodes ↔
    ∃ n ∈ g.nodes, n.id ∉ doomed ∧ resettled (cutLiteral palette rests (adjoins doomed g) g) n = m := by
  rw [purge, mem_without]
  constructor
  · rintro ⟨inside, spared⟩
    obtain ⟨n, member, rfl⟩ := List.mem_map.mp inside
    exact ⟨n, member, spared, rfl⟩
  · rintro ⟨n, member, spared, rfl⟩
    exact ⟨List.mem_map_of_mem member, spared⟩

theorem link_purge : l ∈ (purge palette rests doomed g).links ↔ l ∈ g.links ∧ adjoins doomed g l = false := by
  change l ∈ g.links.filter (fun l => !adjoins doomed g l) ↔ _
  rw [List.mem_filter, Bool.not_eq_true']

theorem hasNode_purge : (purge palette rests doomed g).hasNode id = true ↔ g.hasNode id = true ∧ id ∉ doomed := by
  rw [hasNode_iff, hasNode_iff]
  constructor
  · rintro ⟨m, inside, rfl⟩
    obtain ⟨n, member, spared, rfl⟩ := mem_purge.mp inside
    exact ⟨⟨n, member, rfl⟩, spared⟩
  · rintro ⟨⟨n, member, rfl⟩, spared⟩
    exact ⟨_, mem_purge.mpr ⟨n, member, spared, rfl⟩, rfl⟩

theorem sole_purge (sole : SoleOutput g) (doomed : List NodeId) : SoleOutput (purge palette rests doomed g) := by
  intro m inM n inN
  obtain ⟨m', memberM, -, rfl⟩ := mem_purge.mp inM
  obtain ⟨n', memberN, -, rfl⟩ := mem_purge.mp inN
  exact sole m' memberM n' memberN

/-! ## Transitions that lose an end -/

/-- A link that is kept when nodes are removed touches the pin. -/
def Moored (g : SubGraph) (doomed : List NodeId) (pin : Option PinId) : Prop :=
  ∃ id, pin = some id ∧ ∃ l ∈ g.links, adjoins doomed g l = false ∧ l.touches id = true

/-- A transition lacks an end when nodes are removed. -/
def Adrift (g : SubGraph) (doomed : List NodeId) (n : Node) : Prop :=
  n.kind = .transition ∧
    ¬(Moored g doomed (n.inputs.head?.map Pin.id) ∧ Moored g doomed (n.outputs.head?.map Pin.id))

theorem adrift_mono (more : done ⊆ doomed) (adrift : Adrift g done n) : Adrift g doomed n := by
  have moored {pin : Option PinId} : Moored g doomed pin → Moored g done pin := by
    rintro ⟨id, here, l, link, kept, touches⟩
    refine ⟨id, here, l, link, Bool.eq_false_iff.mpr fun gone => Bool.eq_false_iff.mp kept ?_, touches⟩
    obtain ⟨n, ends, inside⟩ := adjoins_iff.mp gone
    exact adjoins_iff.mpr ⟨n, ends, more inside⟩
  exact ⟨adrift.1, fun both => adrift.2 ⟨moored both.1, moored both.2⟩⟩

/-- In a graph without loose links, a pin is joined to a node if any link touches it. -/
theorem isJoined_iff (anchored : Anchored g) (pin : Option Pin) :
    g.isJoined pin = true ↔ ∃ p, pin = some p ∧ g.isLinked p.id = true := by
  rw [SubGraph.isJoined, Option.any_eq_true]
  refine exists_congr fun p => and_congr_right fun _ => ?_
  rw [SubGraph.neighbour?, SubGraph.isLinked, SubGraph.linkAt?]
  constructor
  · intro joined
    obtain ⟨n, joined⟩ := Option.isSome_iff_exists.mp joined
    obtain ⟨l, found, -⟩ := Option.bind_eq_some_iff.mp joined
    exact List.any_eq_true.mpr ⟨l, List.mem_of_find?_eq_some found, by simpa using List.find?_some found⟩
  · intro linked
    obtain ⟨l, found⟩ := Option.isSome_iff_exists.mp (List.find?_isSome.mpr (List.any_eq_true.mp linked))
    obtain ⟨s, t, starts, ends⟩ := anchored_ends anchored (List.mem_of_find?_eq_some found)
    rw [found, Option.bind_some]
    split
    · rw [ends]
      rfl
    · rw [starts]
      rfl

theorem mem_dangling (sturdy : Sturdy g) : id ∈ (purge palette rests doomed g).danglingTransitions ↔
    ∃ n ∈ g.nodes, n.id = id ∧ id ∉ doomed ∧ Adrift g doomed n := by
  have anchored := (sturdy_purge sturdy palette rests doomed).anchored
  have linked (ps : List Pin) (literal : Pin → Value) :
      (purge palette rests doomed g).isJoined ((ps.map fun p => p.withValue (literal p)).head?) = true ↔
        Moored g doomed (ps.head?.map Pin.id) := by
    rw [isJoined_iff anchored, List.head?_map]
    simp only [Moored, SubGraph.isLinked, List.any_eq_true, Option.map_eq_some_iff]
    constructor
    · rintro ⟨q, ⟨p, first, rfl⟩, l, link, touches⟩
      obtain ⟨inside, kept⟩ := link_purge.mp link
      exact ⟨p.id, ⟨p, first, rfl⟩, l, inside, kept, touches⟩
    · rintro ⟨id, ⟨p, first, rfl⟩, l, inside, kept, touches⟩
      exact ⟨_, ⟨p, first, rfl⟩, l, link_purge.mpr ⟨inside, kept⟩, touches⟩
  simp only [SubGraph.danglingTransitions, List.mem_map, List.mem_filter, Bool.and_eq_true, beq_iff_eq,
    Bool.not_eq_true', ← Bool.not_eq_true]
  constructor
  · rintro ⟨m, ⟨inside, kind, loose⟩, rfl⟩
    obtain ⟨n, member, spared, rfl⟩ := mem_purge.mp inside
    exact ⟨n, member, rfl, spared, kind, fun both => loose ⟨(linked _ _).mpr both.1, (linked _ _).mpr both.2⟩⟩
  · rintro ⟨n, member, rfl, spared, kind, loose⟩
    refine ⟨_, ⟨mem_purge.mpr ⟨n, member, spared, rfl⟩, kind, fun both => loose ?_⟩, rfl⟩
    exact ⟨(linked _ _).mp both.1, (linked _ _).mp both.2⟩

/-! ## The rounds of a removal -/

/-- What removing nodes makes of a graph, round by round. -/
inductive Rounds (palette : Palette) (rests : Bool) : SubGraph → List NodeId → SubGraph → Prop
  | last {g : SubGraph} {doomed : List NodeId} (settled : (purge palette rests doomed g).danglingTransitions = []) :
      Rounds palette rests g doomed (purge palette rests doomed g)
  | next {g k : SubGraph} {doomed : List NodeId}
      (more : Rounds palette rests (purge palette rests doomed g) (purge palette rests doomed g).danglingTransitions k) :
      Rounds palette rests g doomed k

section Rounds
variable (sturdy : Sturdy g) (rounds : Rounds palette rests g doomed k)

include rounds in
theorem rounds_settled : k.danglingTransitions = [] := by
  induction rounds with
  | last settled => exact settled
  | next _ ih => exact ih

include rounds in
/-- A node that is left was there before, and was not to be removed. -/
theorem rounds_survivor (inside : m ∈ k.nodes) : ∃ n ∈ g.nodes, n.id ∉ doomed ∧ m.id = n.id ∧ m.kind = n.kind := by
  induction rounds with
  | last =>
    obtain ⟨n, member, spared, rfl⟩ := mem_purge.mp inside
    exact ⟨n, member, spared, rfl, rfl⟩
  | next _ ih =>
    obtain ⟨m', between, -, id, kind⟩ := ih inside
    obtain ⟨n, member, spared, rfl⟩ := mem_purge.mp between
    exact ⟨n, member, spared, id, kind⟩

include sturdy rounds

theorem rounds_sturdy : Sturdy k := by
  induction rounds with
  | last => exact sturdy_purge sturdy palette rests _
  | next _ ih => exact ih (sturdy_purge sturdy palette rests _)

/-- Beside the nodes to be removed, only transitions go. -/
theorem rounds_vanished (member : n ∈ g.nodes) : k.hasNode n.id = true ∨ n.id ∈ doomed ∨ n.kind = .transition := by
  induction rounds generalizing n with
  | @last g doomed settled =>
    by_cases spared : n.id ∈ doomed
    · exact .inr (.inl spared)
    · exact .inl (hasNode_purge.mpr ⟨hasNode_iff.mpr ⟨n, member, rfl⟩, spared⟩)
  | @next g k doomed more ih =>
    by_cases spared : n.id ∈ doomed
    · exact .inr (.inl spared)
    · rcases ih (sturdy_purge sturdy palette rests doomed) (mem_purge.mpr ⟨n, member, spared, rfl⟩) with left | lost | kind
      · exact .inl left
      · obtain ⟨n', member', same, -, kind, -⟩ := (mem_dangling sturdy).mp lost
        obtain rfl : n' = n := node_eq_of_id sturdy.unique member' member same
        exact .inr (.inr kind)
      · exact .inr (.inr kind)

end Rounds

/-- What falls when nodes are removed: the least set of nodes with them that leaves no
transition without an end. -/
structure Falls (palette : Palette) (rests : Bool) (g : SubGraph) (doomed gone : List NodeId) : Prop where
  removed : doomed ⊆ gone
  settled : (purge palette rests gone g).danglingTransitions = []
  least : ∀ other, doomed ⊆ other → (purge palette rests other g).danglingTransitions = [] → gone ⊆ other

section Falls
variable (sturdy : Sturdy g) (sole : SoleOutput g)
include sturdy sole

/-- Removing nodes that are gone in the end does not change what is left. -/
theorem purge_within (within : done ⊆ doomed) :
    purge palette rests doomed (purge palette rests done g) = purge palette rests doomed g := by
  rw [purge_purge sturdy sole]
  refine purge_congr fun id => ?_
  rw [List.mem_append]
  exact ⟨fun either => either.elim (fun first => within first) fun second => second, .inr⟩

/-- What the rounds of a removal leave. -/
theorem rounds_falls (rounds : Rounds palette rests g doomed k) :
    ∃ gone, k = purge palette rests gone g ∧ Falls palette rests g doomed gone := by
  induction rounds with
  | @last g doomed settled => exact ⟨doomed, rfl, List.Subset.refl _, settled, fun other more _ => more⟩
  | @next g k doomed more ih =>
    obtain ⟨gone, rfl, falls⟩ := ih (sturdy_purge sturdy palette rests doomed) (sole_purge sole doomed)
    refine ⟨doomed ++ gone, purge_purge sturdy sole doomed gone, List.subset_append_left _ _, ?_, fun other within stable => ?_⟩
    · rw [← purge_purge sturdy sole]
      exact falls.settled
    · refine List.append_subset.mpr ⟨within, falls.least other (fun id lost => ?_) ?_⟩
      · by_contra spared
        obtain ⟨n, member, same, -, adrift⟩ := (mem_dangling sturdy).mp lost
        have still : id ∈ (purge palette rests other g).danglingTransitions :=
          (mem_dangling sturdy).mpr ⟨n, member, same, spared, adrift_mono within adrift⟩
        rw [stable] at still
        cases still
      · rw [purge_within sturdy sole within]
        exact stable

/-- Removing nodes, and then others, makes the same nodes fall as removing all of them. -/
theorem falls_append {fallen : List NodeId} (first : Falls palette rests g done fallen)
    (second : Falls palette rests (purge palette rests fallen g) doomed gone) :
    Falls palette rests g (done ++ doomed) (fallen ++ gone) where
  removed := List.append_subset.mpr ⟨fun id inside => List.mem_append_left _ (first.removed inside),
    fun id inside => List.mem_append_right _ (second.removed inside)⟩
  settled := by
    rw [← purge_purge sturdy sole]
    exact second.settled
  least := by
    intro other within stable
    obtain ⟨withDone, withDoomed⟩ := List.append_subset.mp within
    have before := first.least other withDone stable
    refine List.append_subset.mpr ⟨before, second.least other withDoomed ?_⟩
    rw [purge_within sturdy sole before]
    exact stable

omit sturdy sole

/-- Removing a node that has fallen anyway makes no difference. -/
theorem falls_known (falls : Falls palette rests g doomed gone) (known : id ∈ gone) :
    Falls palette rests g (doomed ++ [id]) gone where
  removed := List.append_subset.mpr ⟨falls.removed, by simpa using known⟩
  settled := falls.settled
  least := fun other within stable => falls.least other (List.append_subset.mp within).1 stable

/-- What is left depends on which nodes are removed only. -/
theorem falls_unique {fallen : List NodeId} (first : Falls palette rests g done fallen)
    (second : Falls palette rests g doomed gone) (same : ∀ id, id ∈ done ↔ id ∈ doomed) :
    purge palette rests fallen g = purge palette rests gone g :=
  purge_congr fun _ =>
    ⟨fun inside => first.least gone (fun _ inside => second.removed ((same _).mp inside)) second.settled inside,
      fun inside => second.least fallen (fun _ inside => first.removed ((same _).mpr inside)) first.settled inside⟩

end Falls

/-! ## Removing nodes in an editor -/

theorem path_removeDeadLinks (e : Editor) (owner id : NodeId) : (e.removeDeadLinks owner id).path = e.path := by
  rcases removeDeadLinks_cases e owner id with same | ⟨g, -, same⟩
  · rw [same]
  · rw [same]
    exact path_dropLinksIn e owner _ _

theorem path_dropNodes (e : Editor) (owner : NodeId) (doomed : List NodeId) : (e.dropNodes owner doomed).path = e.path := by
  change (doomed.foldl (fun e id => e.removeDeadLinks owner id) e).path = e.path
  induction doomed generalizing e with
  | nil => rfl
  | cons id ids ih => exact (ih _).trans (path_removeDeadLinks e owner id)

theorem purge_shorter (known : ∀ id ∈ doomed, g.hasNode id = true) (some_ : doomed ≠ []) :
    (purge palette rests doomed g).nodes.length < g.nodes.length := by
  obtain ⟨id, inside⟩ := List.exists_mem_of_ne_nil doomed some_
  obtain ⟨n, member, rfl⟩ := hasNode_iff.mp (known id inside)
  have same : (unlinked palette rests (adjoins doomed g) g).nodes.length = g.nodes.length := List.length_map _
  rw [← same, purge, without]
  refine List.length_filter_lt_length_iff_exists.mpr ⟨_, List.mem_map_of_mem member, ?_⟩
  change ¬(!doomed.contains n.id) = true
  simpa using inside

/-- A graph that does not have its owner among its nodes has the same one after nodes are removed. -/
theorem ownerKind_purge (outside : g.hasNode owner = false) (held : a.graph? owner = some g) (doomed : List NodeId) :
    (a.modifyGraph owner (purge palette rests doomed)).ownerKind? owner = a.ownerKind? owner := by
  have missing {h : SubGraph} (absent : h.hasNode owner = false) : h.node? owner = none :=
    List.find?_eq_none.mpr (List.any_eq_false.mp absent)
  refine ownerKind_modifyGraph fun g' also => ?_
  obtain rfl : g = g' := Option.some.inj (held.symm.trans also)
  have after : (purge palette rests doomed g).hasNode owner = false := by
    rw [Bool.eq_false_iff] at outside ⊢
    exact fun has => outside (hasNode_purge.mp has).1
  rw [missing outside, missing after]

/-- Removing nodes takes as many rounds as it needs; then the graphs without an owner are collected. -/
theorem removeRounds_spec {rounds : Nat} (sturdy : Sturdy g) (outside : g.hasNode owner = false)
    (held : e.asset.graph? owner = some g) (enough : g.nodes.length < rounds)
    (known : ∀ id ∈ doomed, g.hasNode id = true) (some_ : doomed ≠ []) :
    ∃ (f : Editor) (k : SubGraph), Rounds (e.palette owner) (posesRest e.asset owner) g doomed k ∧
      f.asset = e.asset.modifyGraph owner (fun _ => k) ∧ f.path = e.path ∧
      removeRounds owner rounds e doomed = (f.modifyAsset (·.collectOrphans)).ensureEntryOfMachine owner := by
  induction rounds generalizing e g doomed with
  | zero => exact absurd enough (Nat.not_lt_zero _)
  | succ rounds ih =>
    let dropped := (e.dropNodes owner doomed).invalidate
    have asset : dropped.asset = e.asset.modifyGraph owner (purged e owner doomed) := dropNodes_asset sturdy held doomed
    have path : dropped.path = e.path := path_dropNodes e owner doomed
    have after : dropped.asset.graph? owner = some (purged e owner doomed g) := by
      rw [asset, graph_modifyGraph, if_pos rfl, held]
      rfl
    have whole : dropped.asset = e.asset.modifyGraph owner fun _ => purged e owner doomed g := by
      rw [asset]
      refine modifyGraph_congr fun g' also => ?_
      obtain rfl : g = g' := Option.some.inj (held.symm.trans also)
      rfl
    have kind : dropped.asset.ownerKind? owner = e.asset.ownerKind? owner := by
      rw [asset]
      exact ownerKind_purge outside held doomed
    rw [removeRounds]
    simp only [show (e.dropNodes owner doomed).invalidate = dropped from rfl, after, Option.map_some, Option.getD_some]
    split
    · rename_i none
      exact ⟨dropped, _, .last (List.isEmpty_iff.mp none), whole, path, rfl⟩
    · rename_i remain
      have fewer : (purged e owner doomed g).nodes.length < g.nodes.length := purge_shorter known some_
      have still : (purged e owner doomed g).hasNode owner = false := by
        rw [Bool.eq_false_iff] at outside ⊢
        exact fun has => outside (hasNode_purge.mp has).1
      have lighter : (purged e owner doomed g).nodes.length < rounds := by omega
      obtain ⟨f, k, rest, graph, trail, ends⟩ := ih (sturdy_purge sturdy _ _ doomed) still after lighter
        (dangling_known _) (mt List.isEmpty_iff.mpr remain)
      refine ⟨f, k, .next ?_, ?_, trail.trans path, ends⟩
      · rwa [palette_congr kind, posesRest_congr kind] at rest
      · rw [graph, whole, modifyGraph_modifyGraph]
        rfl

/-- Removing nodes does nothing if there is none of them. -/
theorem removeNodesIn_none (held : e.asset.graph? owner = some g) (none : ∀ id ∈ ids, g.hasNode id = false) :
    e.removeNodesIn owner ids = (e, false) := by
  have empty : ids.filter g.hasNode = [] := List.filter_eq_nil_iff.mpr fun id inside => by simp [none id inside]
  rw [removeNodesIn, held]
  simp only [empty, List.isEmpty_nil, if_true]

theorem removeNodesIn_spec (sturdy : Sturdy g) (outside : g.hasNode owner = false)
    (held : e.asset.graph? owner = some g) (some_ : ∃ id ∈ ids, g.hasNode id = true) :
    ∃ (f : Editor) (k : SubGraph), Rounds (e.palette owner) (posesRest e.asset owner) g (ids.filter g.hasNode) k ∧
      f.asset = e.asset.modifyGraph owner (fun _ => k) ∧ f.path = e.path ∧
      e.removeNodesIn owner ids = ((f.modifyAsset (·.collectOrphans)).ensureEntryOfMachine owner, true) := by
  obtain ⟨id, inside, has⟩ := some_
  have nonempty : ids.filter g.hasNode ≠ [] := List.ne_nil_of_mem (List.mem_filter.mpr ⟨inside, has⟩)
  obtain ⟨f, k, rounds, asset, path, ends⟩ := removeRounds_spec sturdy outside held (Nat.lt_succ_self _)
    (fun id inside => (List.mem_filter.mp inside).2) nonempty
  refine ⟨f, k, rounds, asset, path, ?_⟩
  rw [removeNodesIn, held]
  dsimp only
  rw [if_neg (by simpa using nonempty), ends]

end PoseGraph.NodeCascades
