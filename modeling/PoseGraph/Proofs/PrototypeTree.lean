import PoseGraph.Proofs.CompiledGraphs
import PoseGraph.Proofs.LoweringFailures

/-! Prototypes have the shape of the asset from which they are compiled. At each level
there is one runtime node for each node of the graph that runs, in the order of the
graph, and those that own a graph hold the prototype of that graph. Since a node lies
in one graph and no graph lies inside itself, no node turns up twice in the tree. -/
namespace PoseGraph.PrototypeTree
open AssetOrder CompiledGraphs EditRuns Editor GraphDependencies IndexRanks LoweringFailures LoweringSemantics Nesting
  Rearrangement Relation

variable {a : Asset} {e : Editor} {g : SubGraph} {m n : Node} {p q r : Prototype} {owner x y id self : NodeId}
variable {depth : Nat} {name : String} {session : CompileSession}

/-! ## Nodes that run -/

/-- What makes a node of the graph of an owner a runtime node. In state machines and
blend spaces its place in the order does not matter. -/
def Runnable (a : Asset) (owner : NodeId) (n : Node) : Prop :=
  n.isComment = false ∧ n.isLocalVariable = false ∧ n.name ∉ ["Input Action", "Input", "Output", "Event"] ∧
    (a.ownerKind? owner = some .stateMachine ∨ a.ownerKind? owner = some .blendSpace ∨
      n.sortIndex ≠ undefinedSortIndex)

instance (a : Asset) (owner : NodeId) (n : Node) : Decidable (Runnable a owner n) := by
  unfold Runnable
  infer_instance

theorem isContainer_iff : e.isContainer owner = true ↔
    e.asset.ownerKind? owner = some .stateMachine ∨ e.asset.ownerKind? owner = some .blendSpace := by
  rw [isContainer]
  split <;> simp_all

theorem isEmitted_iff : n.isEmitted (e.isContainer owner) = true ↔ Runnable e.asset owner n := by
  rw [Runnable, ← or_assoc, ← isContainer_iff]
  simp only [Node.isEmitted, boundaryNames, Node.isSorted, Bool.and_eq_true, Bool.or_eq_true, Bool.not_eq_true',
    List.contains_eq_mem, decide_eq_false_iff_not, bne_iff_ne]
  tauto

theorem emitted_eq (e : Editor) (owner : NodeId) (g : SubGraph) :
    g.nodes.filter (Node.isEmitted · (e.isContainer owner)) = g.nodes.filter fun n => Runnable e.asset owner n :=
  List.filter_congr fun n _ => by rw [Bool.eq_iff_iff, isEmitted_iff, decide_eq_true_iff]

/-! ## Nodes of a tree -/

mutual

/-- The nodes of a prototype and of those nested in it. -/
def nodeIds : Prototype → List NodeId
  | ⟨_, _, _, _, _, _, nodes, _⟩ => listedIds nodes

/-- The nodes of a list and of the prototypes that they hold. -/
def listedIds : List (RuntimeNode Prototype) → List NodeId
  | [] => []
  | ⟨_, id, _, none⟩ :: rest => id :: listedIds rest
  | ⟨_, id, _, some sub⟩ :: rest => id :: (nodeIds sub ++ listedIds rest)

end

/-- A node and the ones inside of it. -/
def branch (n : RuntimeNode Prototype) : List NodeId := n.id :: n.subroutine.elim [] nodeIds

theorem nodeIds_eq (p : Prototype) : nodeIds p = p.nodes.flatMap branch := by
  have listed (ns : List (RuntimeNode Prototype)) : listedIds ns = ns.flatMap branch := by
    induction ns with
    | nil => rfl
    | cons n rest ih =>
      obtain ⟨type, id, plugs, _ | sub⟩ := n
      · rw [listedIds, ih]
        rfl
      · rw [listedIds, ih]
        rfl
  obtain ⟨_, _, _, _, _, _, nodes, _⟩ := p
  rw [nodeIds, listed]

theorem mem_branch {n : RuntimeNode Prototype} :
    id ∈ branch n ↔ id = n.id ∨ ∃ r, n.subroutine = some r ∧ id ∈ nodeIds r := by
  rw [branch, List.mem_cons]
  cases n.subroutine <;> simp

/-! ## Ways down -/

/-- A graph lies inside that of an owner, or is it. -/
def Below (a : Asset) : NodeId → NodeId → Prop := ReflTransGen (Nests a)

section Apart
variable (identified : Identified a) (acyclic : Acyclic a)

include acyclic in
theorem not_below_outer (nests : Nests a owner x) : ¬Below a x owner :=
  fun below => acyclic owner (.head' nests below)

include identified in
/-- A graph lies in one other graph at most. -/
theorem outer_unique : Relator.RightUnique (Function.swap (Nests a)) :=
  fun _ _ _ first second => (holds_unique identified first second).1

include identified acyclic

/-- Of two graphs side by side, none lies inside the other one. -/
theorem beside_not_below (first : Nests a owner x) (second : Nests a owner y) (differ : x ≠ y) : ¬Below a x y := by
  intro below
  rcases ReflTransGen.cases_tail below with same | ⟨z, down, last⟩
  · exact differ same.symm
  · rw [outer_unique identified last second] at down
    exact not_below_outer acyclic first down

/-- Two graphs side by side have nothing below them in common. -/
theorem below_apart (first : Nests a owner x) (second : Nests a owner y) (differ : x ≠ y) (left : Below a x id) :
    ¬Below a y id := by
  intro right
  rcases ReflTransGen.total_of_right_unique (outer_unique identified) left.swap right.swap with up | up
  · exact beside_not_below identified acyclic second first differ.symm up.swap
  · exact beside_not_below identified acyclic first second differ up.swap

end Apart

/-! ## The tree of an asset -/

/-- A runtime node that holds a prototype stems from a node that owns a graph, of which
this is the prototype. -/
theorem inner_of_lowers {n : RuntimeNode Prototype} (lowers : Lowers e depth m n) (body : n.subroutine = some r) :
    m.isSubroutine = true ∧ (e.lowerWithin depth m.id m.id m.description).result = .ok r := by
  have held := lowers.body
  split at held
  · obtain ⟨q, lowered, same⟩ := held
    cases body.symm.trans same
    exact ⟨‹_›, lowered⟩
  · cases body.symm.trans held

theorem subroutine_isSome {n : RuntimeNode Prototype} (lowers : Lowers e depth m n) :
    n.subroutine.isSome = m.isSubroutine := by
  have held := lowers.body
  split at held
  · rename_i owns
    obtain ⟨q, -, same⟩ := held
    rw [same, owns, Option.isSome_some]
  · rename_i simple
    rw [held, Option.isSome_none, Bool.eq_false_iff.mpr simple]

/-- The nodes in the tree of a graph lie in this graph or below it. -/
theorem holder_of_lowered (lowered : (e.lowerWithin depth owner self name).result = .ok p) (inside : id ∈ nodeIds p) :
    ∃ x type, Below e.asset owner x ∧ Holds e.asset x id type := by
  induction depth generalizing owner self name p with
  | zero => exact absurd lowered lowerWithin_zero
  | succ depth ih =>
    obtain ⟨g, held, nodes, connections, each, -, rfl⟩ := lowerWithin_ok_iff.mp lowered
    rw [nodeIds_eq, List.mem_flatMap] at inside
    obtain ⟨n, listed, inside⟩ := inside
    obtain ⟨m, emitted, lowers⟩ := origin_of_mem each listed
    have member := (List.mem_filter.mp emitted).1
    rcases mem_branch.mp inside with rfl | ⟨r, body, deeper⟩
    · exact ⟨owner, m.type, .refl, lowers.id ▸ holds_of_member held member⟩
    · obtain ⟨owns, inner⟩ := inner_of_lowers lowers body
      obtain ⟨x, type, below, holds⟩ := ih inner deeper
      exact ⟨x, type, .head (nests_of_member held member owns) below, holds⟩

section Distinct
variable (identified : Identified e.asset) (acyclic : Acyclic e.asset)

include identified in
theorem runtime_ids_distinct {emitted : List Node} {nodes : List (RuntimeNode Prototype)}
    (held : e.asset.graph? owner = some g) (some : emitted.Sublist g.nodes)
    (each : List.Forall₂ (Lowers e depth) emitted nodes) : (nodes.map RuntimeNode.id).Nodup := by
  rw [lowered_ids each]
  exact (identified_unique identified held).nodes.sublist (some.map Node.id)

include identified acyclic

/-- What lies inside of a node does not lie beside it. -/
theorem inside_not_beside {type : NodeType} (nests : Nests e.asset owner x)
    (lowered : (e.lowerWithin depth x self name).result = .ok p) (inside : id ∈ nodeIds p) :
    ¬Holds e.asset owner id type := by
  intro beside
  obtain ⟨y, _, below, holds⟩ := holder_of_lowered lowered inside
  rw [(holds_unique identified holds beside).1] at below
  exact not_below_outer acyclic nests below

/-- Two nodes beside each other have nothing in common, themselves and what lies inside
of them. -/
theorem branches_apart {s t : RuntimeNode Prototype} (held : e.asset.graph? owner = some g) (inM : m ∈ g.nodes)
    (inN : n ∈ g.nodes) (first : Lowers e depth m s) (second : Lowers e depth n t) (differ : s.id ≠ t.id) :
    List.Disjoint (branch s) (branch t) := by
  have holdsM := first.id ▸ holds_of_member held inM
  have holdsN := second.id ▸ holds_of_member held inN
  rw [first.id, second.id] at differ
  intro id left right
  rcases mem_branch.mp left with rfl | ⟨q, bodyS, insideS⟩
  · rcases mem_branch.mp right with same | ⟨r, bodyT, insideT⟩
    · rw [first.id, second.id] at same
      exact differ same
    · obtain ⟨owns, lowered⟩ := inner_of_lowers second bodyT
      exact inside_not_beside identified acyclic (nests_of_member held inN owns) lowered insideT holdsM
  · obtain ⟨ownsM, loweredM⟩ := inner_of_lowers first bodyS
    rcases mem_branch.mp right with rfl | ⟨r, bodyT, insideT⟩
    · exact inside_not_beside identified acyclic (nests_of_member held inM ownsM) loweredM insideS holdsN
    · obtain ⟨ownsN, loweredN⟩ := inner_of_lowers second bodyT
      obtain ⟨x, _, belowM, holds⟩ := holder_of_lowered loweredM insideS
      obtain ⟨y, _, belowN, also⟩ := holder_of_lowered loweredN insideT
      rw [(holds_unique identified also holds).1] at belowN
      exact below_apart identified acyclic (nests_of_member held inM ownsM) (nests_of_member held inN ownsN) differ
        belowM belowN

/-- No node turns up twice in the tree of a graph. -/
theorem nodeIds_distinct (lowered : (e.lowerWithin depth owner self name).result = .ok p) : (nodeIds p).Nodup := by
  induction depth generalizing owner self name p with
  | zero => exact absurd lowered lowerWithin_zero
  | succ depth ih =>
    obtain ⟨g, held, nodes, connections, each, -, rfl⟩ := lowerWithin_ok_iff.mp lowered
    have distinct := runtime_ids_distinct identified held List.filter_sublist each
    have origin {s : RuntimeNode Prototype} (listed : s ∈ nodes) : ∃ m ∈ g.nodes, Lowers e depth m s := by
      obtain ⟨m, emitted, lowers⟩ := origin_of_mem each listed
      exact ⟨m, (List.mem_filter.mp emitted).1, lowers⟩
    rw [nodeIds_eq, List.nodup_flatMap]
    refine ⟨fun s listed => ?_, ?_⟩
    · obtain ⟨m, member, lowers⟩ := origin listed
      rw [branch]
      cases body : s.subroutine with
      | none => exact List.nodup_singleton s.id
      | some r =>
        obtain ⟨owns, inner⟩ := inner_of_lowers lowers body
        have beside := lowers.id ▸ holds_of_member held member
        exact List.nodup_cons.mpr ⟨fun inside =>
          inside_not_beside identified acyclic (nests_of_member held member owns) inner inside beside, ih inner⟩
    · refine (List.pairwise_map.mp distinct).imp_of_mem fun {s t} inS inT differ => ?_
      obtain ⟨m, inM, first⟩ := origin inS
      obtain ⟨n, inN, second⟩ := origin inT
      exact branches_apart identified acyclic held inM inN first second differ

end Distinct

/-- Every graph from which a prototype is made is the top one or lies below it. -/
theorem below_of_emits (ran : (e.compile session).2.1 = .ok p) (emits : Emits p owner q) :
    Below e.sort.asset .root owner := by
  induction emits with
  | top => exact .refl
  | @nested owner q r n outer listed body ih =>
    obtain ⟨g, compiled⟩ := compiled_of_emits ran outer
    obtain ⟨depth, each⟩ := compiled.nodes
    obtain ⟨m, emitted, lowers⟩ := origin_of_mem each listed
    have owns := (inner_of_lowers lowers body).1
    exact ih.tail (lowers.id ▸ nests_of_member compiled.held (List.mem_filter.mp emitted).1 owns)

/-- The runtime node that a node has become. If it holds a prototype, this is known by
the node, is compiled from the graph that the node owns and has no inputs. -/
structure Stands (e : Editor) (outer : Prototype) (m : Node) (n : RuntimeNode Prototype) : Prop where
  id : n.id = m.id
  holds : n.subroutine.isSome = true ↔ m.type = .subroutine
  body : ∀ r, n.subroutine = some r → r.id = m.id ∧
    (∃ depth, (e.lowerWithin depth m.id m.id m.description).result = .ok r) ∧
    r.skeleton = outer.skeleton ∧ r.inputs = []

theorem skeleton_of_lowered (lowered : (e.lowerWithin depth owner self name).result = .ok q) :
    q.skeleton = e.asset.skeleton := by
  cases depth with
  | zero => exact absurd lowered lowerWithin_zero
  | succ depth =>
    obtain ⟨g, -, nodes, connections, -, -, rfl⟩ := lowerWithin_ok_iff.mp lowered
    rfl

/-- Only the graph of the root has the inputs of the asset. -/
theorem nested_lowered (lowered : (e.lowerWithin depth owner self name).result = .ok q) (nested : owner ≠ .root) :
    q.id = self ∧ q.inputs = [] := by
  cases depth with
  | zero => exact absurd lowered lowerWithin_zero
  | succ depth =>
    obtain ⟨g, -, nodes, connections, -, -, rfl⟩ := lowerWithin_ok_iff.mp lowered
    have inner : owner.isRoot = false := by simpa [NodeId.isRoot] using nested
    rw [assembled, inner]
    exact ⟨rfl, rfl⟩

theorem stands_of_lowers {n : RuntimeNode Prototype} (lowers : Lowers e depth m n)
    (nested : m.type = .subroutine → m.id ≠ .root) (skeleton : q.skeleton = e.asset.skeleton) : Stands e q m n := by
  refine ⟨lowers.id, ?_, fun r body => ?_⟩
  · rw [subroutine_isSome lowers, Node.isSubroutine, beq_iff_eq]
  · obtain ⟨owns, lowered⟩ := inner_of_lowers lowers body
    obtain ⟨known, inputs⟩ := nested_lowered lowered (nested (beq_iff_eq.mp owns))
    exact ⟨known, ⟨depth, lowered⟩, (skeleton_of_lowered lowered).trans skeleton.symm, inputs⟩

/-- A prototype shows the graph of an owner: it has, in order, one node for each node of
the graph that runs. -/
structure Mirrors (e : Editor) (owner : NodeId) (g : SubGraph) (q : Prototype) : Prop where
  held : e.asset.graph? owner = some g
  ids : q.nodes.map RuntimeNode.id = (g.nodes.filter fun n => Runnable e.asset owner n).map Node.id
  once : (q.nodes.map RuntimeNode.id).Nodup
  each : List.Forall₂ (Stands e q) (g.nodes.filter fun n => Runnable e.asset owner n) q.nodes

/-- Where nodes and pins are told apart and graphs do not lie inside themselves, the
prototype shows the sorted asset at every level, and no node turns up twice in the whole
tree. -/
theorem prototype_mirrors_asset (identified : Identified e.asset) (acyclic : Acyclic e.asset)
    (ran : (e.compile session).2.1 = .ok p) :
    (nodeIds p).Nodup ∧ ∀ owner q, Emits p owner q → ∃ g, Mirrors e.sort owner g q := by
  have related := rearranged_sorted e.asset
  have firm : Identified e.sort.asset := rearranged_identified related identified
  have well : Acyclic e.sort.asset :=
    acyclic_of_nests acyclic fun outer inner => ((sameShape_rearranged related).nests outer inner).mp
  obtain ⟨-, lowered⟩ := compile_ok_iff.mp ran
  refine ⟨nodeIds_distinct firm well lowered, fun owner q emits => ?_⟩
  obtain ⟨g, compiled⟩ := compiled_of_emits ran emits
  obtain ⟨depth, each⟩ := compiled.nodes
  have held := compiled.held
  have skeleton : q.skeleton = e.sort.asset.skeleton := by
    obtain ⟨_, _, _, lowered⟩ := emits_lowered lowered emits
    exact skeleton_of_lowered lowered
  refine ⟨g, held, by rw [lowered_ids each, emitted_eq], runtime_ids_distinct firm held List.filter_sublist each, ?_⟩
  rw [← emitted_eq]
  refine List.forall₂_iff_get.mpr ⟨each.length_eq, fun i left right => ?_⟩
  have member := (List.mem_filter.mp (List.get_mem _ ⟨i, left⟩)).1
  refine stands_of_lowers (each.get left right) (fun owns root => ?_) skeleton
  -- A node of the root's identity would put the top graph inside of itself.
  exact not_below_outer well (x := .root) ⟨g, held, _, member, root, owns⟩ (below_of_emits ran emits)

/-- A clip is played in a state of a state machine. -/
def clipPlaying : List Edit :=
  [.createNode "Animation" "Output", .createNode "Animation" "State Machine", .createLink ⟨6⟩ ⟨3⟩, .enterNode ⟨5⟩,
    .createNode "StateMachine" "State", .enterNode ⟨8⟩, .createNode "Animation" "Animation Player",
    .setPinValue ⟨20⟩ (.ofHandle .animation 7), .createLink ⟨24⟩ ⟨11⟩]

/-- The editor after these edits. -/
def playing : Editor := clipPlaying.foldl Edit.apply (.ofAsset (.ofName "Wave" ⟨1⟩) oneClip .default 1)

/-- The machine, its state and the player in it, one below the other. -/
theorem playing_mirrored : Identified playing.asset ∧ Acyclic playing.asset ∧
    ∃ p, (playing.compile .empty).2.1 = .ok p ∧ nodeIds p = [⟨5⟩, ⟨8⟩, ⟨19⟩] ∧ (nodeIds p).Nodup ∧
      ∀ owner q, Emits p owner q → ∃ g, Mirrors playing.sort owner g q := by
  have identified : Identified playing.asset := ⟨by decide +kernel, by decide +kernel⟩
  have acyclic : Acyclic playing.asset := acyclic_of_ascending (by decide +kernel)
  have checked : (playing.sort.validate.errors.isEmpty &&
      playing.sort.lower.result.toOption.any fun p => nodeIds p == [⟨5⟩, ⟨8⟩, ⟨19⟩]) = true := by
    rw [sortByInsertion.2]
    decide +kernel
  obtain ⟨p, ran, shown⟩ := compile_of_check .empty checked
  exact ⟨identified, acyclic, p, ran, beq_iff_eq.mp shown, prototype_mirrors_asset identified acyclic ran⟩

end PoseGraph.PrototypeTree
