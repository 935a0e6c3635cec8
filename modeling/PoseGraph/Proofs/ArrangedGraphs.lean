import Mathlib.Data.Prod.Lex
import PoseGraph.Proofs.Insertions
import PoseGraph.Proofs.Rearrangement
import PoseGraph.Proofs.WalkInvariants

/-! What a graph in evaluation order looks like. The walk gives every unit an index of
its own, except that variables without a setter share index 0. Ranks keep that apart
and leave no gaps, and the links follow the nodes. -/
namespace PoseGraph.ArrangedGraphs
open Walk WalkRuns WalkInvariants GraphDependencies IndexRanks LinkOrder Insertions Rearrangement SubGraph

variable {g : SubGraph} {nodes : List Node} {m n a b : Node} {x y id : NodeId} {pin : PinId} {k l : Link}
variable {w : Walk} {d : Dependencies} {stack known : List NodeId} {i j : Nat}

/-- A node of a local variable that no node of the graph sets. -/
def Unset (g : SubGraph) (n : Node) : Prop :=
  ∃ name, n.variableName? = some name ∧ ∀ s ∈ g.nodes, s.isSetter = true → s.variableName? ≠ some name

/-- The position of the node that has a pin, which is past the end if there is none. -/
def position (nodes : List Node) (pin : PinId) : Nat := nodes.findIdx fun n => n.hasPin pin

/-- Where links belong: by the node at their start, and then by the node at their end. -/
def linkPlace (nodes : List Node) (l : Link) : Nat ×ₗ Nat := toLex (position nodes l.source, position nodes l.target)

/-- The second graph is the first one in evaluation order. -/
structure Arranged (g h : SubGraph) : Prop where
  /-- Nodes and links are permuted, and nothing about a node changes but its place. -/
  reshuffled : Reshuffled g h
  /-- Nodes with a place come first, in order. -/
  placesFirst : ∃ front back, h.nodes = front ++ back ∧ (∀ n ∈ front, n.isSorted = true) ∧
    front.Pairwise (fun a b => a.sortIndex ≤ b.sortIndex) ∧ ∀ n ∈ back, n.sortIndex = undefinedSortIndex
  /-- Places are numbered from 0 without gaps. -/
  gapless : ∃ count : Nat, ∀ place : Int,
    (∃ n ∈ h.nodes, n.isSorted = true ∧ n.sortIndex = place) ↔ 0 ≤ place ∧ place < count
  /-- The nodes of one variable have one place, or none of them has any. -/
  together : ∀ a ∈ h.nodes, ∀ b ∈ h.nodes, a.sameVariable b = true → a.sortIndex = b.sortIndex
  /-- Only nodes of one variable, or of variables without a setter, share a place. -/
  apart : ∀ a ∈ h.nodes, ∀ b ∈ h.nodes, a.isSorted = true → a.sortIndex = b.sortIndex →
    a = b ∨ a.sameVariable b = true ∨ Unset g a ∧ Unset g b
  /-- Variables without a setter have the first place. -/
  unsetFirst : ∀ a ∈ h.nodes, a.isSorted = true → Unset g a → a.sortIndex = 0
  /-- Links follow the nodes that they join, those with missing pins last. -/
  links : h.links.Pairwise fun k l => linkPlace h.nodes k ≤ linkPlace h.nodes l
  /-- Links between the same nodes stay in the order that they had. -/
  ties : ∀ place, (h.links.filter fun l => linkPlace h.nodes l = place) =
    g.links.filter fun l => linkPlace h.nodes l = place

/-! ## Indices of units -/

/-- Index 0 is kept for variables without a setter, and any other index for the nodes of one unit. -/
structure Separate (d : Dependencies) (w : Walk) : Prop where
  zero : ∀ {x i}, w.index? x = some i → (i = 0 ↔ d.isSetterless x = true)
  units : ∀ {x y i}, w.index? x = some i → w.index? y = some i → i ≠ 0 → y ∈ d.unit x

theorem unitIndex_eq_zero_iff (positive : 0 < w.next) : unitIndex d w id = 0 ↔ d.isSetterless id = true := by
  unfold unitIndex
  split
  · simp_all
  · simp_all [Nat.ne_of_gt positive]

/-- An index that was given before is below the counter, from which a unit draws its own. -/
theorem unitIndex_fresh (coherent : Coherent d stack w) (indexed : w.index? x = some (unitIndex d w id)) :
    unitIndex d w id = 0 := by
  have below := coherent.below indexed
  unfold unitIndex at below ⊢
  split
  · rfl
  · simp_all

theorem separate_placeUnit (lawful : Lawful d known)
    (setterless : ∀ {id m}, m ∈ d.unit id → d.isSetterless m = d.isSetterless id)
    (coherent : Coherent d (d.unit id ++ stack) w) (separate : Separate d w) : Separate d (w.placeUnit d id) := by
  refine ⟨?_, ?_⟩
  · intro x i indexed
    rw [index_placeUnit] at indexed
    by_cases inUnit : x ∈ d.unit id
    · rw [if_pos inUnit] at indexed
      cases indexed
      rw [setterless inUnit]
      exact unitIndex_eq_zero_iff coherent.positive
    · rw [if_neg inUnit] at indexed
      exact separate.zero indexed
  · intro x y i first second nonzero
    rw [index_placeUnit] at first second
    by_cases left : x ∈ d.unit id <;> by_cases right : y ∈ d.unit id
    · rwa [lawful.shared left]
    · rw [if_pos left] at first
      rw [if_neg right] at second
      cases first
      exact absurd (unitIndex_fresh coherent second) nonzero
    · rw [if_neg left] at first
      rw [if_pos right] at second
      cases second
      exact absurd (unitIndex_fresh coherent first) nonzero
    · rw [if_neg left] at first
      rw [if_neg right] at second
      exact separate.units first second nonzero

theorem setterless_shared (unique : UniqueIds g) (inUnit : x ∈ g.dependencies.unit id) :
    g.dependencies.isSetterless x = g.dependencies.isSetterless id := by
  simp only [dependencies, (unit_variable unique.nodes inUnit).1]

theorem walk_separate (unique : UniqueIds g) : Separate g.dependencies g.walk := by
  have invariant : Invariant g.dependencies (fun _ => True) (Separate g.dependencies) := {
    feeders := fun _ _ => trivial
    consumers := fun _ _ _ => trivial
    place := fun _ => separate_placeUnit (lawful_dependencies unique) (setterless_shared unique)
    queue := fun _ separate => ⟨separate.zero, separate.units⟩ }
  have start : Separate g.dependencies .start := ⟨(nomatch ·), (nomatch ·)⟩
  exact walk_keeps unique invariant (fun _ _ => trivial) start

theorem leastSetter_eq_none_iff {name : String} :
    g.leastSetter? name = none ↔ ∀ s ∈ g.nodes, s.isSetter = true → s.variableName? ≠ some name := by
  constructor
  · intro missing s inside setter sets
    obtain ⟨least, found⟩ := leastSetter_exists inside setter sets
    rw [missing] at found
    cases found
  · intro unset
    cases found : g.leastSetter? name with
    | none => rfl
    | some least =>
      obtain ⟨s, inside, -, setter, sets⟩ := leastSetter_spec found
      exact absurd sets (unset s inside setter)

theorem isSetterless_iff (unique : UniqueIds g) (member : n ∈ g.nodes) :
    g.dependencies.isSetterless n.id = true ↔ Unset g n := by
  have named (name : String) : g.variableOf? n.id = some name ↔ n.variableName? = some name := by
    rw [variableOf_eq_some_iff unique.nodes]
    constructor
    · rintro ⟨k, inside, same, named⟩
      rwa [node_eq_of_id unique inside member same] at named
    · exact fun named => ⟨n, member, rfl, named⟩
  simp only [Unset, ← named, ← leastSetter_eq_none_iff, dependencies]
  cases g.variableOf? n.id with
  | none => simp
  | some name => simp

/-! ## The counter -/

/-- The counter can be raised once for every node that has no index yet. -/
def Counted (ids : List NodeId) (w : Walk) : Prop := w.next + (unindexed ids w).length ≤ ids.length + 1

theorem counted_start (ids : List NodeId) : Counted ids .start :=
  (Nat.add_comm 1 _).le.trans (Nat.succ_le_succ (List.length_filter_le _ _))

/-- Every unit that draws from the counter takes a node that had no index. -/
theorem counted_placeUnit (self : id ∈ d.unit id) (inside : id ∈ known) (coherent : Coherent d (d.unit id ++ stack) w)
    (counted : Counted known w) : Counted known (w.placeUnit d id) := by
  have before : w.index? id = none := coherent.clear (List.mem_append_left _ self)
  have after : (w.placeUnit d id).index? id ≠ none := by simp [index_placeUnit, self]
  have fewer := unindexed_shrinks inside before after (extends_placeUnit coherent)
  rw [Counted] at counted ⊢
  rw [next_placeUnit]
  split <;> omega

theorem counter_bounded (unique : UniqueIds g) : g.walk.next ≤ g.nodes.length + 1 := by
  have lawful := lawful_dependencies unique
  have invariant : Invariant g.dependencies (fun id => id ∈ g.nodes.map Node.id) (Counted (g.nodes.map Node.id)) := {
    feeders := fun _ feeder => lawful.feeders_inside _ _ feeder
    consumers := fun _ _ consumer => lawful.consumers_inside _ _ consumer
    place := fun inside => counted_placeUnit (lawful.self _) inside
    queue := fun _ counted => counted }
  have counted := walk_keeps unique invariant (sinks_known g) (counted_start _)
  rw [Counted, List.length_map] at counted
  omega

/-! ## Places -/

theorem placed_index (member : n ∈ g.nodes) (sorted : (placed g n).isSorted = true) :
    ∃ i, g.walk.index? n.id = some i := Option.ne_none_iff_exists'.mp ((placed_isSorted member).mp sorted)

/-- Nodes with one place have one index. -/
theorem placed_index_eq (left : m ∈ g.nodes) (right : n ∈ g.nodes) (first : g.walk.index? m.id = some i)
    (second : g.walk.index? n.id = some j) (same : (placed g m).sortIndex = (placed g n).sortIndex) : i = j := by
  have less := placed_lt_iff left right first second
  have greater := placed_lt_iff right left second first
  omega

/-- The place of a node is the position of its index among those in use. -/
theorem placed_rank (member : n ∈ g.nodes) (indexed : g.walk.index? n.id = some i) :
    ∃ r, ∃ bound : r < (ranksOf g.walk.index? g.nodes).length,
      (ranksOf g.walk.index? g.nodes)[r] = i ∧ (placed g n).sortIndex = r := by
  obtain ⟨r, bound, rank⟩ := List.getElem_of_mem (mem_ranksOf.mpr ⟨n, member, indexed⟩)
  refine ⟨r, bound, rank, ?_⟩
  rw [placed, ranked, indexed, ← rank]
  exact rankOf_eq (ranksOf_increasing g.walk.index? g.nodes) bound

theorem places_gapless (g : SubGraph) (place : Int) :
    (∃ n ∈ g.inEvaluationOrder.nodes, n.isSorted = true ∧ n.sortIndex = place) ↔
      0 ≤ place ∧ place < (ranksOf g.walk.index? g.nodes).length := by
  constructor
  · rintro ⟨a, inside, sorted, rfl⟩
    obtain ⟨n, member, rfl⟩ := mem_ordered_nodes.mp inside
    obtain ⟨i, indexed⟩ := placed_index member sorted
    obtain ⟨r, bound, -, value⟩ := placed_rank member indexed
    omega
  · rintro ⟨positive, bound⟩
    obtain ⟨r, rfl⟩ := Int.eq_ofNat_of_zero_le positive
    have inside : r < (ranksOf g.walk.index? g.nodes).length := by omega
    obtain ⟨n, member, indexed⟩ := mem_ranksOf.mp (List.getElem_mem inside)
    refine ⟨_, mem_ordered_nodes.mpr ⟨n, member, rfl⟩, (placed_isSorted member).mpr (by simp [indexed]), ?_⟩
    rw [placed, ranked, indexed]
    exact rankOf_eq (ranksOf_increasing g.walk.index? g.nodes) inside

theorem unset_first (unique : UniqueIds g) (member : n ∈ g.nodes) (sorted : (placed g n).isSorted = true)
    (unset : Unset g n) : (placed g n).sortIndex = 0 := by
  obtain ⟨i, indexed⟩ := placed_index member sorted
  obtain rfl := ((walk_separate unique).zero indexed).mpr ((isSetterless_iff unique member).mpr unset)
  obtain ⟨r, bound, rank, value⟩ := placed_rank member indexed
  -- Nothing ranks below index 0.
  have least : r = 0 := by
    by_contra later
    have := List.pairwise_iff_getElem.mp (ranksOf_increasing g.walk.index? g.nodes) 0 r (by omega) bound (by omega)
    omega
  rw [value, least]
  rfl

theorem shared_place (unique : UniqueIds g) (left : m ∈ g.nodes) (right : n ∈ g.nodes)
    (sorted : (placed g m).isSorted = true) (same : (placed g m).sortIndex = (placed g n).sortIndex) :
    m = n ∨ m.sameVariable n = true ∨ Unset g m ∧ Unset g n := by
  have also : (placed g n).isSorted = true := by rwa [Node.isSorted, ← same]
  obtain ⟨i, first⟩ := placed_index left sorted
  obtain ⟨j, second⟩ := placed_index right also
  obtain rfl := placed_index_eq left right first second same
  have separate := walk_separate unique
  by_cases zero : i = 0
  · exact .inr (.inr ⟨(isSetterless_iff unique left).mp ((separate.zero first).mp zero),
      (isSetterless_iff unique right).mp ((separate.zero second).mp zero)⟩)
  · rcases (mem_unit_iff unique.nodes).mp (separate.units first second zero) with same | twins
    · exact .inl (node_eq_of_id unique left right same.symm)
    · obtain ⟨p, inP, q, inQ, twins, first, second⟩ := twins
      rw [node_eq_of_id unique inP left first, node_eq_of_id unique inQ right second] at twins
      exact .inr (.inl twins)

/-- A node before one with a place has a place too, which is not the greater one. -/
theorem ordered_places (g : SubGraph) : g.inEvaluationOrder.nodes.Pairwise fun a b =>
    b.isSorted = true → a.isSorted = true ∧ a.sortIndex ≤ b.sortIndex := by
  refine (applyIndices_ordered g.walk.index? g.nodes).imp_of_mem fun {a b} left right before sorted => ?_
  obtain ⟨m, inM, rfl⟩ := mem_ordered_nodes.mp left
  obtain ⟨n, inN, rfl⟩ := mem_ordered_nodes.mp right
  obtain ⟨j, second⟩ := placed_index inN sorted
  have known : indexLe (g.walk.index? m.id) (some j) = true := by rw [← second]; exact before
  cases first : g.walk.index? m.id with
  | none => simp [first, indexLe] at known
  | some i =>
    have later := placed_lt_iff inN inM second first
    have order : i ≤ j := by simpa [first, indexLe] using known
    exact ⟨(placed_isSorted inM).mpr (by simp [first]), by omega⟩

/-- Where nothing that passes stands behind what fails, all that is left behind the first failure fails. -/
theorem dropWhile_fails {p : Node → Bool} (ordered : nodes.Pairwise fun a b => p b = true → p a = true) :
    ∀ n ∈ nodes.dropWhile p, p n = false := by
  induction nodes with
  | nil => simp
  | cons m nodes ih =>
    obtain ⟨first, ordered⟩ := List.pairwise_cons.mp ordered
    by_cases passes : p m = true
    · rw [List.dropWhile_cons_of_pos passes]
      exact ih ordered
    · rw [List.dropWhile_cons_of_neg passes]
      refine List.forall_mem_cons.mpr ⟨Bool.eq_false_iff.mpr passes, fun n later => ?_⟩
      exact Bool.eq_false_iff.mpr fun also => passes (first n later also)

theorem places_first (g : SubGraph) : ∃ front back, g.inEvaluationOrder.nodes = front ++ back ∧
    (∀ n ∈ front, n.isSorted = true) ∧ front.Pairwise (fun a b => a.sortIndex ≤ b.sortIndex) ∧
    ∀ n ∈ back, n.sortIndex = undefinedSortIndex := by
  have ordered := ordered_places g
  have front : ∀ n ∈ g.inEvaluationOrder.nodes.takeWhile Node.isSorted, n.isSorted = true :=
    fun n inside => List.all_eq_true.mp List.all_takeWhile n inside
  refine ⟨_, _, List.takeWhile_append_dropWhile.symm, front, ?_, fun n inside => ?_⟩
  · have first := ordered.sublist (List.takeWhile_sublist Node.isSorted)
    exact first.imp_of_mem fun _ right before => (before (front _ right)).2
  · have unsorted := dropWhile_fails (ordered.imp fun before sorted => (before sorted).1) n inside
    simpa [Node.isSorted] using unsorted

/-! ## Links -/

theorem lastPosition_eq (only : nodes.Pairwise fun m n => m.hasPin pin = true → n.hasPin pin = false) :
    lastPosition? nodes pin = nodes.findIdx? fun n => n.hasPin pin := by
  induction nodes with
  | nil => rfl
  | cons m nodes ih =>
    obtain ⟨first, only⟩ := List.pairwise_cons.mp only
    rw [lastPosition_cons, ih only, List.findIdx?_cons]
    by_cases has : m.hasPin pin = true
    · have missing : (nodes.findIdx? fun n => n.hasPin pin) = none :=
        List.findIdx?_eq_none_iff.mpr fun n inside => first n inside has
      simp [has, missing]
    · cases nodes.findIdx? fun n => n.hasPin pin <;> simp [has]

theorem lastPosition_unique (unique : UniqueIds g) (pin : PinId) :
    lastPosition? g.nodes pin = g.nodes.findIdx? fun n => n.hasPin pin := by
  apply lastPosition_eq
  refine (List.Nodup.of_map _ unique.nodes).imp_of_mem fun {m n} left right differ has => ?_
  by_contra also
  exact differ (node_eq_of_pin unique left right has (by simpa using also))

/-- Missing positions compare as ones past the end. -/
theorem indexLe_findIdx (p q : Node → Bool) :
    indexLe (nodes.findIdx? p) (nodes.findIdx? q) = decide (nodes.findIdx p ≤ nodes.findIdx q) := by
  have bound {p : Node → Bool} {i : Nat} (found : nodes.findIdx? p = some i) : i < nodes.length :=
    (List.findIdx?_eq_some_iff_findIdx_eq.mp found).1
  rw [List.findIdx_eq_getD_findIdx?, List.findIdx_eq_getD_findIdx?]
  cases first : nodes.findIdx? p <;> cases second : nodes.findIdx? q
  · simp [indexLe]
  · simpa [indexLe] using bound second
  · simpa [indexLe] using Nat.le_of_lt (bound first)
  · rfl

theorem findIdx_eq_iff (p q : Node → Bool) :
    nodes.findIdx? p = nodes.findIdx? q ↔ nodes.findIdx p = nodes.findIdx q := by
  constructor
  · intro same
    rw [List.findIdx_eq_getD_findIdx?, List.findIdx_eq_getD_findIdx?, same]
  · intro same
    exact indexLe_antisymm (by simp [indexLe_findIdx, same]) (by simp [indexLe_findIdx, same])

/-- The order in which links are put is that of their places. -/
theorem byEnds_eq (unique : UniqueIds g) :
    byEnds g.nodes k l = decide (linkPlace g.nodes k ≤ linkPlace g.nodes l) := by
  simp only [byEnds, lastPosition_unique unique, findIdx_eq_iff, indexLe_findIdx, linkPlace, position,
    Prod.Lex.toLex_le_toLex]
  split
  · rename_i same
    simp [same]
  · rename_i differ
    simp [differ, Nat.lt_iff_le_and_ne]

theorem links_by_place (unique : UniqueIds g) :
    g.inEvaluationOrder.links.Pairwise fun k l =>
      linkPlace g.inEvaluationOrder.nodes k ≤ linkPlace g.inEvaluationOrder.nodes l := by
  have ordered := alike_unique (alike_inEvaluationOrder g) unique
  have sorted : g.inEvaluationOrder.links.Pairwise fun k l => byEnds g.inEvaluationOrder.nodes k l = true := by
    rw [inEvaluationOrder, sortLinks_eq]
    exact List.pairwise_mergeSort byEnds_trans byEnds_total g.links
  exact sorted.imp fun before => by simpa [byEnds_eq ordered] using before

/-- Sorting links is stable. -/
theorem ties_kept (unique : UniqueIds g) (place : Nat ×ₗ Nat) :
    (g.inEvaluationOrder.links.filter fun l => linkPlace g.inEvaluationOrder.nodes l = place) =
      g.links.filter fun l => linkPlace g.inEvaluationOrder.nodes l = place := by
  have ordered := alike_unique (alike_inEvaluationOrder g) unique
  have sorted : g.inEvaluationOrder.links = g.links.mergeSort (byEnds g.inEvaluationOrder.nodes) := sortLinks_eq _ _
  rw [sorted, mergeSort_filter byEnds_trans byEnds_total]
  apply List.mergeSort_of_pairwise
  refine List.pairwise_of_forall_mem_list fun k left l right => ?_
  simp only [List.mem_filter, decide_eq_true_eq] at left right
  simp [byEnds_eq ordered, left.2, right.2]

/-! ## The arranged graph -/

/-- Putting a graph into evaluation order arranges it. The counter from which indices are drawn exceeds the
number of nodes by one at most. -/
theorem evaluation_order_arranged (unique : UniqueIds g) :
    Arranged g g.inEvaluationOrder ∧ g.walk.next ≤ g.nodes.length + 1 := by
  refine ⟨?_, counter_bounded unique⟩
  exact {
    reshuffled := reshuffled_inEvaluationOrder g
    placesFirst := places_first g
    gapless := ⟨_, places_gapless g⟩
    together := fun a left b right same => ordered_twins unique left right same
    apart := by
      intro a left b right sorted same
      obtain ⟨m, inM, rfl⟩ := mem_ordered_nodes.mp left
      obtain ⟨n, inN, rfl⟩ := mem_ordered_nodes.mp right
      rcases shared_place unique inM inN sorted same with rfl | twins | unset
      · exact .inl rfl
      · exact .inr (.inl twins)
      · exact .inr (.inr unset)
    unsetFirst := by
      intro a member sorted unset
      obtain ⟨n, inside, rfl⟩ := mem_ordered_nodes.mp member
      exact unset_first unique inside sorted unset
    links := links_by_place unique
    ties := ties_kept unique }

/-- A blend of two clips, weighted by a variable that is set. Two other variables, which are not, time the clips.
The first clip is linked to the blend twice, and once to a pin that is missing. -/
def timed : SubGraph where
  nodes := [
    ({ Node.ofName "Note" ⟨0, 0, 0⟩ with type := .comment }.withFreshIds 10).1,
    ({ Node.ofName "Output" ⟨0, 0, 0⟩ with inputs := [.input "Pose" .pose] }.withFreshIds 20).1,
    ({ Node.ofName "Blend" ⟨0, 0, 0⟩ with
      inputs := [.input "From" .pose, .input "To" .pose, .input "Weight" .float]
      outputs := [.output "Pose" .pose] }.withFreshIds 30).1,
    ({ Node.ofName "Weight" ⟨0, 0, 0⟩ with
      category := localVariableCategory, outputs := [.output "Weight" .float] }.withFreshIds 40).1,
    ({ Node.ofName "Walk" ⟨0, 0, 0⟩ with
      inputs := [.input "Time" .float], outputs := [.output "Pose" .pose] }.withFreshIds 50).1,
    ({ Node.ofName "Run" ⟨0, 0, 0⟩ with
      inputs := [.input "Time" .float], outputs := [.output "Pose" .pose] }.withFreshIds 60).1,
    ({ Node.ofName "Slow" ⟨0, 0, 0⟩ with
      category := localVariableCategory, outputs := [.output "Slow" .float] }.withFreshIds 70).1,
    ({ Node.ofName "Fast" ⟨0, 0, 0⟩ with
      category := localVariableCategory, outputs := [.output "Fast" .float] }.withFreshIds 80).1,
    ({ Node.ofName "Weight" ⟨0, 0, 0⟩ with
      category := localVariableCategory, inputs := [.input "Weight" .float] }.withFreshIds 90).1]
  links := [⟨⟨101⟩, ⟨34⟩, ⟨21⟩, ⟨0, 0, 0⟩⟩, ⟨⟨103⟩, ⟨52⟩, ⟨31⟩, ⟨0, 0, 0⟩⟩, ⟨⟨104⟩, ⟨52⟩, ⟨100⟩, ⟨0, 0, 0⟩⟩,
    ⟨⟨102⟩, ⟨52⟩, ⟨31⟩, ⟨0, 0, 0⟩⟩, ⟨⟨105⟩, ⟨62⟩, ⟨32⟩, ⟨0, 0, 0⟩⟩, ⟨⟨106⟩, ⟨41⟩, ⟨33⟩, ⟨0, 0, 0⟩⟩,
    ⟨⟨107⟩, ⟨71⟩, ⟨51⟩, ⟨0, 0, 0⟩⟩, ⟨⟨108⟩, ⟨81⟩, ⟨61⟩, ⟨0, 0, 0⟩⟩]

/-- Both variables that are not set come first and the note last. The link to the missing pin comes after those
between which it was. -/
theorem timed_arranged : Arranged timed timed.inEvaluationOrder ∧
    timed.inEvaluationOrder.nodes.map (fun n => (n.id.value, n.sortIndex)) =
      [(70, 0), (80, 0), (50, 1), (60, 2), (40, 3), (90, 3), (30, 4), (20, 5), (10, -1)] ∧
    timed.inEvaluationOrder.links.map (fun l => l.id.value) = [107, 108, 103, 102, 104, 105, 106, 101] := by
  refine ⟨(evaluation_order_arranged (by decide)).1, ?_, ?_⟩ <;>
  · rw [orderByInsertion.2]
    decide +kernel

end PoseGraph.ArrangedGraphs
