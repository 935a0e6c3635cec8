import PoseGraph.Proofs.EditRuns
import PoseGraph.Proofs.EntryMarks
import PoseGraph.Proofs.GroundedGraphs
import PoseGraph.Proofs.NodeCascades

/-! What a removal of nodes leaves behind: no transition without its ends, no link without
its ends, and no graph whose owner is gone. -/
namespace PoseGraph.CleanRemoval
open AssetOrder EditRuns Editor EditorCoherence EntryMarks GraphDependencies GroundedGraphs LinkEdits Nesting NodeCascades Relation
  Unlinking

variable {a : Asset} {e f : Editor} {g h k : SubGraph} {n m : Node} {l : Link}
variable {owner outer inner id : NodeId} {ids doomed gone : List NodeId} {palette : Palette} {rests : Bool}

/-! ## Entry marks -/

theorem marked_member (same : SameButMarks g h) (inside : m ∈ h.nodes) : ∃ n ∈ g.nodes, unmarked n = unmarked m :=
  List.mem_map.mp (same.nodes ▸ List.mem_map_of_mem inside)

theorem sameButMarks_symm (same : SameButMarks g h) : SameButMarks h g := ⟨same.nodes.symm, same.links.symm⟩

theorem hasNode_marked (same : SameButMarks g h) (id : NodeId) : h.hasNode id = g.hasNode id := by
  have forward {g h : SubGraph} (same : SameButMarks g h) (has : h.hasNode id = true) : g.hasNode id = true := by
    obtain ⟨m, inside, rfl⟩ := hasNode_iff.mp has
    obtain ⟨n, member, bare⟩ := marked_member same inside
    exact hasNode_iff.mpr ⟨n, member, (congrArg Node.id bare :)⟩
  exact Bool.eq_iff_iff.mpr ⟨forward same, forward (sameButMarks_symm same)⟩

theorem pins_unmarked (bare : unmarked n = unmarked m) : n.pins = m.pins := (congrArg Node.pins bare :)

theorem anchored_marked (same : SameButMarks g h) (anchored : Anchored g) : Anchored h := by
  have still {pin : PinId} (found : (g.pin? pin).isSome = true) : (h.pin? pin).isSome = true := by
    obtain ⟨n, member, has⟩ := pin_isSome_iff.mp found
    obtain ⟨m, inside, bare⟩ := marked_member (sameButMarks_symm same) member
    refine pin_isSome_iff.mpr ⟨m, inside, ?_⟩
    rw [Node.hasPin, pins_unmarked bare]
    exact has
  intro l link
  obtain ⟨source, target⟩ := anchored l (same.links ▸ link)
  exact ⟨still source, still target⟩

theorem unique_marked (same : SameButMarks g h) (unique : UniqueIds g) : UniqueIds h := by
  have ids (xs : List Node) : xs.map Node.id = (xs.map unmarked).map Node.id := by
    rw [List.map_map]
    rfl
  have pins (xs : List Node) : xs.flatMap Node.pins = (xs.map unmarked).flatMap Node.pins := by
    rw [List.flatMap_map]
    rfl
  constructor
  · rw [ids, ← same.nodes, ← ids]
    exact unique.nodes
  · rw [pins, ← same.nodes, ← pins]
    exact unique.pins

theorem sturdy_marked (same : SameButMarks g h) (sturdy : Sturdy g) : Sturdy h :=
  ⟨unique_marked same sturdy.unique, same.links ▸ sturdy.distinct, anchored_marked same sturdy.anchored⟩

/-! ## What is left of an asset -/

/-- After nodes have been removed from a graph, what is left is the asset with what is left of the
graph, perhaps with an entry, but for the graphs that are not reached any more. -/
theorem ensured_asset (loopless : Loopless a) (held : a.graph? owner = some g)
    (fewer : ∀ id, k.hasNode id = true → g.hasNode id = true)
    (collected : f.asset.collectOrphans = (replaced a owner k).collectOrphans) :
    ((f.modifyAsset (·.collectOrphans)).ensureEntryOfMachine owner).asset =
      if (replaced a owner k).collectOrphans.ownerKind? owner = some .stateMachine then
        (replaced a owner k.ensureEntry).collectOrphans
      else (replaced a owner k).collectOrphans := by
  have collected : (f.modifyAsset (·.collectOrphans)).asset = (replaced a owner k).collectOrphans := collected
  rw [ensureEntryOfMachine, ← collected]
  split
  · rw [← collect_change loopless held fewer (hasNode_marked (sameButMarks_ensureEntry k)), ← collected]
    rfl
  · rfl

/-- An asset whose nodes, pins and links are told apart, without loose links, in which every
graph is owned and nesting does not loop. -/
structure Orderly (a : Asset) : Prop where
  identified : Identified a
  distinct : ∀ owner g, a.graph? owner = some g → (g.links.map Link.id).Nodup
  anchored : ∀ owner g, a.graph? owner = some g → Anchored g
  owned : Owned a
  loopless : Loopless a

theorem orderly_sturdy (orderly : Orderly a) (held : a.graph? owner = some g) : Sturdy g :=
  ⟨identified_unique orderly.identified held, orderly.distinct owner g held, orderly.anchored owner g held⟩

/-- Where the nodes of a graph are numbered after its owner, it can be computed that an asset is orderly. -/
theorem orderly_of_entries (identified : Identified a)
    (each : ∀ entry ∈ a.graphs.entries, (entry.2.links.map Link.id).Nodup ∧ Anchored entry.2 ∧
      ∀ n ∈ entry.2.nodes, entry.1.value < n.id.value)
    (owned : ∀ owner ∈ a.graphs.keys, owner = .root ∨ ∃ entry ∈ a.graphs.entries, entry.2.hasNode owner = true) : Orderly a where
  identified := identified
  distinct := fun owner g held => (each (owner, g) (get_eq_some_iff.mp held)).1
  anchored := fun owner g held => (each (owner, g) (get_eq_some_iff.mp held)).2.1
  owned := by
    intro owner present
    obtain ⟨g, held⟩ := hasGraph_iff.mp present
    refine (owned owner (List.mem_map_of_mem (get_eq_some_iff.mp held))).imp_right ?_
    exact fun ⟨entry, inside, has⟩ => ⟨entry.1, entry.2, get_eq_some_iff.mpr inside, has⟩
  loopless := by
    have climbs {outer inner : NodeId} (way : TransGen (Lies a) outer inner) : outer.value < inner.value := by
      have step {outer inner : NodeId} (lies : Lies a outer inner) : outer.value < inner.value := by
        obtain ⟨g, held, has⟩ := lies
        obtain ⟨n, member, rfl⟩ := hasNode_iff.mp has
        exact (each (outer, g) (get_eq_some_iff.mp held)).2.2 n member
      induction way with
      | single lies => exact step lies
      | tail _ lies ih => exact Nat.lt_trans ih (step lies)
    exact fun owner loop => Nat.lt_irrefl _ (climbs loop)

theorem lies_unique (identified : Identified a) (first : Lies a outer id) (second : Lies a inner id) : outer = inner := by
  obtain ⟨s, first⟩ := lies_iff.mp first
  obtain ⟨t, second⟩ := lies_iff.mp second
  exact (holds_unique identified first second).1

theorem outside_of_loopless (loopless : Loopless a) (held : a.graph? owner = some g) : g.hasNode owner = false :=
  Bool.eq_false_iff.mpr fun has => loopless owner (.single ⟨g, held, has⟩)

/-- The top level does not lie in any graph. -/
theorem root_outermost (orderly : Orderly a) : ¬Lies a outer .root := by
  intro lies
  have grounded := grounded_of_owned orderly.loopless orderly.owned (lies_hasGraph lies)
  exact orderly.loopless outer (TransGen.head' lies (grounded_reached grounded))

/-- Where nodes are taken out of a graph, the graphs that are still reached are those that do not
lie below any of these nodes. -/
theorem grounded_replaced_iff (orderly : Orderly a) (held : a.graph? owner = some g)
    (fewer : ∀ id, k.hasNode id = true → g.hasNode id = true) : Grounded (replaced a owner k) id ↔
      a.hasGraph id = true ∧ ¬∃ gone, g.hasNode gone = true ∧ k.hasNode gone = false ∧ ReflTransGen (Lies a) gone id := by
  have present : a.hasGraph owner = true := hasGraph_iff.mpr ⟨g, held⟩
  have before {outer inner : NodeId} (lies : Lies (replaced a owner k) outer inner) : Lies a outer inner :=
    lies_of_fewer held fewer lies
  constructor
  · intro grounded
    refine ⟨?_, ?_⟩
    · have here := grounded_hasGraph grounded
      rwa [hasGraph_replaced] at here
    rintro ⟨gone, was, lost, below⟩
    have inG : Lies a owner gone := ⟨g, held, was⟩
    induction grounded with
    | top =>
      rcases below.cases_tail with same | ⟨outer, -, lies⟩
      · exact root_outermost orderly (same ▸ inG)
      · exact root_outermost orderly lies
    | @inner outer id _ lies _ ih =>
      rcases below.cases_tail with rfl | ⟨between, within, last⟩
      · obtain rfl := lies_unique orderly.identified inG (before lies)
        rw [lies_replaced present, if_pos rfl, lost] at lies
        cases lies
      · obtain rfl := lies_unique orderly.identified last (before lies)
        exact ih within
  · rintro ⟨here, kept⟩
    have grounded := grounded_of_owned orderly.loopless orderly.owned here
    induction grounded with
    | top top => exact .top ((hasGraph_replaced a owner k .root).trans top)
    | @inner outer id ground lies inside ih =>
      have above := ih (grounded_hasGraph ground) fun ⟨gone, was, lost, below⟩ => kept ⟨gone, was, lost, below.tail lies⟩
      refine .inner above ((lies_replaced present).mpr ?_) ((hasGraph_replaced a owner k id).trans inside)
      split
      · rename_i atOwner
        obtain ⟨g', also, has⟩ := lies
        obtain rfl : g = g' := Option.some.inj (held.symm.trans (atOwner ▸ also))
        by_contra lost
        exact kept ⟨id, has, Bool.eq_false_iff.mpr lost, .refl⟩
      · exact lies

/-! ## Clean removals -/

/-- A node of the active graph that an edit has removed. -/
def Vanished (e f : Editor) (id : NodeId) : Prop := (e.node? id).isSome = true ∧ f.node? id = none

/-- What removing nodes from the active graph leaves. -/
structure Cleared (e f : Editor) (ids : List NodeId) : Prop where
  /-- The same graph is active. -/
  path : f.path = e.path
  active : f.activeGraph?.isSome = true
  removed : ∀ id ∈ ids, f.node? id = none
  /-- Beside the nodes to be removed, only transitions have gone. -/
  others : ∀ id n, e.node? id = some n → Vanished e f id → id ∈ ids ∨ n.kind = .transition
  /-- Each transition that is left has a node at either end. -/
  joined : ∀ g, f.activeGraph? = some g → ∀ n ∈ g.nodes, n.kind = .transition →
    g.isJoined n.inputs.head? = true ∧ g.isJoined n.outputs.head? = true
  anchored : ∀ owner g, f.asset.graph? owner = some g → Anchored g
  /-- The graphs that have gone are those below the nodes that have. -/
  graphs : ∀ owner, f.asset.hasGraph owner = true ↔
    e.asset.hasGraph owner = true ∧ ¬∃ id, Vanished e f id ∧ ReflTransGen (Lies e.asset) id owner

theorem node_isSome (held : e.activeGraph? = some g) (id : NodeId) : (e.node? id).isSome = true ↔ g.hasNode id = true := by
  rw [Editor.node?, held, Option.bind_some, SubGraph.node?, List.find?_isSome, SubGraph.hasNode, List.any_eq_true]

theorem vanished_iff (before : e.activeGraph? = some g) (after : f.activeGraph? = some h) :
    Vanished e f id ↔ g.hasNode id = true ∧ h.hasNode id = false := by
  rw [Vanished, node_isSome before, ← Option.not_isSome_iff_eq_none, node_isSome after, Bool.not_eq_true]

/-- Transitions that are left are joined, whatever is marked. -/
theorem joined_of_settled (anchored : Anchored k) (settled : k.danglingTransitions = []) (same : SameButMarks k h)
    (inside : m ∈ h.nodes) (kind : m.kind = .transition) :
    h.isJoined m.inputs.head? = true ∧ h.isJoined m.outputs.head? = true := by
  obtain ⟨n, member, bare⟩ := marked_member same inside
  have linked (pin : Option Pin) (joined : k.isJoined pin = true) : h.isJoined pin = true := by
    obtain ⟨p, here, touched⟩ := (isJoined_iff anchored pin).mp joined
    refine (isJoined_iff (anchored_marked same anchored) pin).mpr ⟨p, here, ?_⟩
    rw [SubGraph.isLinked, ← same.links]
    exact touched
  have both : k.isJoined n.inputs.head? = true ∧ k.isJoined n.outputs.head? = true := by
    by_contra loose
    rw [← Bool.and_eq_true, Bool.not_eq_true] at loose
    have machine : n.kind = .transition := (congrArg Node.kind bare :).trans kind
    have dangling : n.id ∈ k.danglingTransitions :=
      List.mem_map_of_mem (List.mem_filter.mpr ⟨member, by simp [machine, loose]⟩)
    rw [settled] at dangling
    cases dangling
  have inputs : n.inputs = m.inputs := (congrArg Node.inputs bare :)
  have outputs : n.outputs = m.outputs := (congrArg Node.outputs bare :)
  exact ⟨linked _ (inputs ▸ both.1), linked _ (outputs ▸ both.2)⟩

theorem rounds_fewer (rounds : Rounds palette rests g doomed k) (has : k.hasNode id = true) : g.hasNode id = true := by
  obtain ⟨m, inside, rfl⟩ := hasNode_iff.mp has
  obtain ⟨n, member, -, same, -⟩ := rounds_survivor rounds inside
  exact hasNode_iff.mpr ⟨n, member, same.symm⟩

/-- The rounds of a removal and the collection of graphs, taken together. -/
theorem cleared_of_rounds (orderly : Orderly e.asset) (held : e.activeGraph? = some g)
    (rounds : Rounds palette rests g (ids.filter g.hasNode) k) (marks : SameButMarks k h)
    (asset : f.asset = (replaced e.asset e.activeOwner h).collectOrphans) (path : f.path = e.path) : Cleared e f ids := by
  have sturdy := orderly_sturdy orderly held
  have fewer (id : NodeId) (has : h.hasNode id = true) : g.hasNode id = true :=
    rounds_fewer rounds (hasNode_marked marks id ▸ has)
  have loopless := loopless_replaced orderly.loopless held fewer
  have present : e.asset.hasGraph e.activeOwner = true := hasGraph_iff.mpr ⟨g, held⟩
  have grounded : Grounded (replaced e.asset e.activeOwner h) e.activeOwner := by
    rw [grounded_owner present, replaced_self held]
    exact grounded_of_owned orderly.loopless orderly.owned present
  have graph {place : NodeId} (here : Grounded (replaced e.asset e.activeOwner h) place) :
      f.asset.graph? place = if place = e.activeOwner then some h else e.asset.graph? place := by
    rw [asset, graph_collected loopless here, replaced, graph_modifyGraph]
    split
    · rename_i atOwner
      rw [atOwner, show e.asset.graph? e.activeOwner = some g from held]
      rfl
    · rfl
  have active : f.activeGraph? = some h := by
    rw [activeGraph?, activeOwner, path]
    exact (graph grounded).trans (if_pos rfl)
  have vanished (id : NodeId) : Vanished e f id ↔ g.hasNode id = true ∧ h.hasNode id = false := vanished_iff held active
  exact {
    path
    active := by rw [active]; rfl
    removed := by
      intro id inside
      rw [← Option.not_isSome_iff_eq_none, node_isSome active, hasNode_marked marks]
      intro has
      obtain ⟨m, left, rfl⟩ := hasNode_iff.mp has
      obtain ⟨n, member, spared, same, -⟩ := rounds_survivor rounds left
      exact spared (List.mem_filter.mpr ⟨same ▸ inside, hasNode_iff.mpr ⟨n, member, rfl⟩⟩)
    others := by
      intro id n found gone
      rw [Editor.node?, held] at found
      have member : n ∈ g.nodes := List.mem_of_find?_eq_some found
      have same : n.id = id := by simpa using List.find?_some found
      rcases rounds_vanished sturdy rounds member with left | doomed | kind
      · rw [← hasNode_marked marks, same, ((vanished id).mp gone).2] at left
        cases left
      · exact .inl (same ▸ (List.mem_filter.mp doomed).1)
      · exact .inr kind
    joined := by
      intro h' also m inside kind
      obtain rfl : h = h' := Option.some.inj (active.symm.trans also)
      exact joined_of_settled (rounds_sturdy sturdy rounds).anchored (rounds_settled rounds) marks inside kind
    anchored := by
      intro place g' found
      have here : Grounded (replaced e.asset e.activeOwner h) place := by
        rw [← hasGraph_collected loopless, ← asset]
        exact hasGraph_iff.mpr ⟨g', found⟩
      rw [graph here] at found
      split at found
      · cases found
        exact anchored_marked marks (rounds_sturdy sturdy rounds).anchored
      · exact orderly.anchored place g' found
    graphs := by
      intro place
      rw [asset, hasGraph_collected loopless, grounded_replaced_iff orderly held fewer]
      simp only [vanished, and_assoc] }

/-- Removing nodes does nothing if there is none of them; else it cleans up after all of them. -/
theorem removal_cleans_up (orderly : Orderly e.asset) (ids : List NodeId) :
    ((∀ id ∈ ids, e.node? id = none) → e.removeNodes ids = (e, false)) ∧
      ((∃ id ∈ ids, (e.node? id).isSome = true) →
        (e.removeNodes ids).2 = true ∧ Cleared e (e.removeNodes ids).1 ids) := by
  cases held : e.activeGraph? with
  | none =>
    refine ⟨fun _ => ?_, fun ⟨id, _, found⟩ => ?_⟩
    · rw [removeNodes, removeNodesIn, show e.asset.graph? e.activeOwner = none from held]
    · rw [Editor.node?, held] at found
      cases found
  | some g =>
    refine ⟨fun absent => removeNodesIn_none held fun id inside => ?_, fun ⟨id, inside, found⟩ => ?_⟩
    · rw [← Bool.not_eq_true, ← node_isSome held, absent id inside]
      exact Bool.false_ne_true
    have sturdy := orderly_sturdy orderly held
    obtain ⟨f, k, rounds, asset, path, ends⟩ := removeNodesIn_spec sturdy (outside_of_loopless orderly.loopless held) held
      ⟨id, inside, (node_isSome held id).mp found⟩
    rw [removeNodes, ends]
    refine ⟨rfl, ?_⟩
    -- What is left of the active graph may have got an entry mark.
    obtain ⟨h, marks, whole⟩ : ∃ h, SameButMarks k h ∧
        ((f.modifyAsset (·.collectOrphans)).ensureEntryOfMachine e.activeOwner).asset =
          (replaced e.asset e.activeOwner h).collectOrphans := by
      rw [ensured_asset orderly.loopless held (fun _ => rounds_fewer rounds)
        (congrArg Asset.collectOrphans asset)]
      split
      · exact ⟨_, sameButMarks_ensureEntry k, rfl⟩
      · exact ⟨k, ⟨rfl, rfl⟩, rfl⟩
    refine cleared_of_rounds orderly held rounds marks whole (.trans ?_ path)
    rw [ensureEntryOfMachine]
    split <;> rfl

/-- Two states of a state machine with a transition between them. -/
def pacing : List Edit :=
  [.createNode "Animation" "State Machine", .enterNode ⟨2⟩, .createNode "StateMachine" "State",
    .createNode "StateMachine" "State", .createTransition ⟨4⟩ ⟨8⟩]

/-- The editor after these edits. -/
def pacingEditor : Editor := pacing.foldl Edit.apply (.ofAsset (.ofName "Wave" ⟨1⟩) .empty .default 1)

theorem pacing_orderly : Orderly pacingEditor.asset :=
  orderly_of_entries ⟨by decide +kernel, by decide +kernel⟩ (by decide +kernel) (by decide +kernel)

/-- With the first state go the transition and the graphs of both. -/
theorem removal_cleans_up_pacing : (∃ id ∈ [(⟨4⟩ : NodeId)], (pacingEditor.node? id).isSome = true) ∧
    Cleared pacingEditor (pacingEditor.removeNodes [⟨4⟩]).1 [⟨4⟩] ∧
    pacingEditor.asset.owners = [.root, ⟨2⟩, ⟨4⟩, ⟨8⟩, ⟨12⟩] ∧
    (pacingEditor.removeNodes [⟨4⟩]).1.asset.owners = [.root, ⟨2⟩, ⟨8⟩] := by
  have present : ∃ id ∈ [(⟨4⟩ : NodeId)], (pacingEditor.node? id).isSome = true := by decide +kernel
  exact ⟨present, ((removal_cleans_up pacing_orderly [⟨4⟩]).2 present).2, by decide +kernel, by decide +kernel⟩

end PoseGraph.CleanRemoval
