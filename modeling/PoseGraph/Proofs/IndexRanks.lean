import Mathlib.Data.List.Sort
import PoseGraph.EvaluationOrder

/-! From indices to places. Ranks number the indices in use without gaps, so
that comparing ranks is comparing indices, and a node with a lesser index stands
before one with a greater index. The sorts are stable, which is why they are
insertion sorts even where different nodes have the same index. -/
namespace PoseGraph.IndexRanks
open SubGraph

variable {index? : NodeId → Option Nat} {nodes : List Node} {m n : Node}
variable {ranks indices : List Nat} {i j : Nat}

/-! ## Stable sorts -/

private theorem orderedInsert_between {α : Type} {le : α → α → Bool} {x : α} {front back : List α}
    (less : ∀ y ∈ front, le x y = false) (rest : ∀ y ∈ back, le x y = true) :
    (front ++ back).orderedInsert (fun a b => le a b = true) x = front ++ x :: back := by
  induction front with
  | nil =>
    cases back with
    | nil => rfl
    | cons y back => simp [rest y]
  | cons y front ih =>
    have after := less y List.mem_cons_self
    simp [after, ih fun z member => less z (List.mem_cons_of_mem _ member)]

/-- A stable sort inserts each element before those that it equals. -/
theorem mergeSort_eq_insertionSort {α : Type} {le : α → α → Bool}
    (trans : ∀ a b c, le a b = true → le b c = true → le a c = true)
    (total : ∀ a b, (le a b || le b a) = true) (xs : List α) :
    xs.mergeSort le = xs.insertionSort fun a b => le a b = true := by
  induction xs with
  | nil => simp
  | cons x xs ih =>
    obtain ⟨front, back, whole, rest, less⟩ := List.mergeSort_cons trans total x xs
    have sorted := List.pairwise_mergeSort trans total (x :: xs)
    rw [whole, List.pairwise_append] at sorted
    rw [List.insertionSort_cons, ← ih, whole, rest, orderedInsert_between]
    · exact fun y member => by simpa using less y member
    · exact fun y member => List.rel_of_pairwise_cons sorted.2.1 member

/-- What belongs before all others is moved to the front. -/
theorem mergeSort_forward {α : Type} {le : α → α → Bool}
    (trans : ∀ a b c, le a b = true → le b c = true → le a c = true)
    (total : ∀ a b, (le a b || le b a) = true) {x : α} {front back : List α}
    (ahead : ∀ y ∈ front, le y x = false)
    (ordered : (x :: (front ++ back)).Pairwise fun a b => le a b = true) :
    (front ++ x :: back).mergeSort le = x :: (front ++ back) := by
  rw [mergeSort_eq_insertionSort trans total]
  induction front with
  | nil => exact ordered.insertionSort_eq
  | cons y front ih =>
    obtain ⟨first, rest⟩ := List.pairwise_cons.mp ordered
    obtain ⟨second, rest⟩ := List.pairwise_cons.mp rest
    have inner := ih (fun z inside => ahead z (List.mem_cons_of_mem _ inside))
      (List.pairwise_cons.mpr ⟨fun z inside => first z (List.mem_cons_of_mem _ inside), rest⟩)
    rw [List.cons_append, List.insertionSort_cons, inner]
    have passes : ∀ z ∈ [x], le y z = false := by
      intro z inside
      rw [List.mem_singleton.mp inside]
      exact ahead y List.mem_cons_self
    exact orderedInsert_between passes second

theorem sortIds_eq (ids : List NodeId) :
    sortIds ids = ids.insertionSort fun a b => decide (a.value ≤ b.value) = true := by
  refine mergeSort_eq_insertionSort ?_ ?_ ids
  · simp only [decide_eq_true_eq]
    exact fun _ _ _ first second => Nat.le_trans first second
  · simp only [Bool.or_eq_true, decide_eq_true_eq]
    exact fun a b => Nat.le_total a.value b.value

/-! ## The sorts of a graph -/

/-- The order in which nodes are put. -/
def byIndex (index? : NodeId → Option Nat) (m n : Node) : Bool := indexLe (index? m.id) (index? n.id)

/-- The indices in use, in order. -/
def ranksOf (index? : NodeId → Option Nat) (nodes : List Node) : List Nat :=
  dropRepeats ((nodes.mergeSort (byIndex index?)).filterMap fun n => index? n.id)

/-- The sort index of a node with an index. -/
def rankOf (ranks : List Nat) (index : Option Nat) : Int :=
  match index.bind fun i => ranks.findIdx? (· == i) with
  | some rank => rank
  | none => undefinedSortIndex

/-- A node with the sort index of its index. -/
def ranked (index? : NodeId → Option Nat) (ranks : List Nat) (n : Node) : Node :=
  { n with sortIndex := rankOf ranks (index? n.id) }

theorem indexLe_trans (a b c : Option Nat) (first : indexLe a b = true) (second : indexLe b c = true) :
    indexLe a c = true := by
  cases a <;> cases b <;> cases c <;> simp_all [indexLe]
  omega

theorem indexLe_total (a b : Option Nat) : (indexLe a b || indexLe b a) = true := by
  cases a <;> cases b <;> simp [indexLe]
  omega

theorem indexLe_antisymm {a b : Option Nat} (left : indexLe a b = true) (right : indexLe b a = true) :
    a = b := by
  cases a <;> cases b <;> simp_all [indexLe]
  omega

theorem byIndex_trans (a b c : Node) (first : byIndex index? a b = true)
    (second : byIndex index? b c = true) : byIndex index? a c = true :=
  indexLe_trans _ _ _ first second

theorem byIndex_total (a b : Node) : (byIndex index? a b || byIndex index? b a) = true :=
  indexLe_total _ _

/-- Ordering nodes is one stable sort, followed by writing the ranks. -/
theorem applyIndices_eq (index? : NodeId → Option Nat) (nodes : List Node) :
    applyIndices index? nodes =
      (nodes.mergeSort (byIndex index?)).map (ranked index? (ranksOf index? nodes)) := by
  have sorted : (nodes.map fun n => (index? n.id, n)).mergeSort (fun a b => indexLe a.1 b.1) =
      (nodes.mergeSort (byIndex index?)).map fun n => (index? n.id, n) :=
    (List.map_mergeSort (f := fun n : Node => (index? n.id, n)) (r := byIndex index?)
      (s := fun a b => indexLe a.1 b.1) fun _ _ _ _ => rfl).symm
  rw [applyIndices, sorted, List.filterMap_map, List.map_map]
  rfl

/-- Nodes can be changed before they are ordered or afterwards if they keep their identities. -/
theorem applyIndices_map {t : Node → Node} (ids : ∀ n, (t n).id = n.id)
    (places : ∀ n place, t { n with sortIndex := place } = { t n with sortIndex := place })
    (index? : NodeId → Option Nat) (nodes : List Node) :
    applyIndices index? (nodes.map t) = (applyIndices index? nodes).map t := by
  have sorted : (nodes.map t).mergeSort (byIndex index?) = (nodes.mergeSort (byIndex index?)).map t :=
    (List.map_mergeSort (f := t) (r := byIndex index?) (s := byIndex index?) fun a _ b _ => by
      rw [byIndex, byIndex, ids, ids]).symm
  have ranks : ranksOf index? (nodes.map t) = ranksOf index? nodes := by
    rw [ranksOf, sorted, List.filterMap_map]
    simp only [Function.comp_def, ids]
    rfl
  rw [applyIndices_eq, applyIndices_eq, ranks, sorted, List.map_map, List.map_map]
  refine List.map_congr_left fun n _ => ?_
  change { t n with sortIndex := rankOf (ranksOf index? nodes) (index? (t n).id) } = t (ranked index? _ n)
  rw [ids, ← places, ranked]

theorem mem_applyIndices : m ∈ applyIndices index? nodes ↔
    ∃ n ∈ nodes, ranked index? (ranksOf index? nodes) n = m := by
  simp [applyIndices_eq]

/-- The order in which links are put, by the places of the nodes at both ends. -/
def byEnds (nodes : List Node) (k l : Link) : Bool :=
  if lastPosition? nodes k.source = lastPosition? nodes l.source then
    indexLe (lastPosition? nodes k.target) (lastPosition? nodes l.target)
  else indexLe (lastPosition? nodes k.source) (lastPosition? nodes l.source)

theorem byEnds_trans (a b c : Link) (first : byEnds nodes a b = true)
    (second : byEnds nodes b c = true) : byEnds nodes a c = true := by
  unfold byEnds at *
  by_cases left : lastPosition? nodes a.source = lastPosition? nodes b.source
  · by_cases right : lastPosition? nodes b.source = lastPosition? nodes c.source
    · simp only [left, right, ↓reduceIte] at first second ⊢
      exact indexLe_trans _ _ _ first second
    · simpa only [left, right, ↓reduceIte] using second
  · by_cases right : lastPosition? nodes b.source = lastPosition? nodes c.source
    · rw [if_neg left] at first
      rwa [← right, if_neg left]
    · rw [if_neg left] at first
      rw [if_neg right] at second
      have apart : lastPosition? nodes a.source ≠ lastPosition? nodes c.source := fun same =>
        left (indexLe_antisymm first (same ▸ second))
      rw [if_neg apart]
      exact indexLe_trans _ _ _ first second

theorem byEnds_total (a b : Link) : (byEnds nodes a b || byEnds nodes b a) = true := by
  unfold byEnds
  by_cases same : lastPosition? nodes a.source = lastPosition? nodes b.source
  · rw [if_pos same, if_pos same.symm]
    exact indexLe_total _ _
  · rw [if_neg same, if_neg (Ne.symm same)]
    exact indexLe_total _ _

theorem lastPosition_map {t : Node → Node} (pins : ∀ n pin, (t n).hasPin pin = n.hasPin pin) (nodes : List Node)
    (pin : PinId) : lastPosition? (nodes.map t) pin = lastPosition? nodes pin := by
  rw [lastPosition?, lastPosition?, ← List.map_reverse, List.findIdx?_map, List.length_map]
  simp only [Function.comp_def, pins]

/-- Ordering links is one stable sort. -/
theorem sortLinks_eq (nodes : List Node) (links : List Link) :
    sortLinks nodes links = links.mergeSort (byEnds nodes) := by
  have keyed := List.map_mergeSort (r := byEnds nodes) (l := links)
    (f := fun l => ((lastPosition? nodes l.source, lastPosition? nodes l.target), l))
    (s := fun a b => if a.1.1 = b.1.1 then indexLe a.1.2 b.1.2 else indexLe a.1.1 b.1.1)
    fun _ _ _ _ => rfl
  simp only [sortLinks, ← keyed, List.map_map]
  exact List.map_id _

/-! ## Ranks -/

theorem mem_dropRepeats : i ∈ dropRepeats indices ↔ i ∈ indices := by
  fun_induction dropRepeats indices with
  | case1 => rfl
  | case2 => rfl
  | case3 i rest ih => simp [ih]
  | case4 i j rest differ ih => simp [ih]

/-- Without its repetitions, a list in order is strictly increasing. -/
theorem dropRepeats_increasing (ordered : indices.Pairwise (· ≤ ·)) :
    (dropRepeats indices).Pairwise (· < ·) := by
  fun_induction dropRepeats indices with
  | case1 => exact .nil
  | case2 => exact List.pairwise_singleton _ _
  | case3 i rest ih => exact ih ordered.of_cons
  | case4 i j rest differ ih =>
    refine List.pairwise_cons.mpr ⟨fun k member => ?_, ih ordered.of_cons⟩
    have first := List.rel_of_pairwise_cons ordered (List.mem_cons_self (a := j) (l := rest))
    rcases List.mem_cons.mp (mem_dropRepeats.mp member) with rfl | later
    · omega
    · have := List.rel_of_pairwise_cons ordered.of_cons later
      omega

theorem mem_ranksOf : i ∈ ranksOf index? nodes ↔ ∃ n ∈ nodes, index? n.id = some i := by
  simp [ranksOf, mem_dropRepeats]

theorem ranksOf_increasing (index? : NodeId → Option Nat) (nodes : List Node) :
    (ranksOf index? nodes).Pairwise (· < ·) := by
  apply dropRepeats_increasing
  have sorted : (nodes.mergeSort (byIndex index?)).Pairwise fun m n => byIndex index? m n = true :=
    List.pairwise_mergeSort byIndex_trans byIndex_total nodes
  refine List.pairwise_filterMap.mpr (sorted.imp fun {m n} before i first j second => ?_)
  simpa [byIndex, indexLe, first, second] using before

/-- The rank of an index is its place among the indices in use. -/
theorem rankOf_eq (increasing : ranks.Pairwise (· < ·)) {r : Nat} (bound : r < ranks.length) :
    rankOf ranks (some ranks[r]) = r := by
  have place : ranks.findIdx? (· == ranks[r]) = some r := by
    refine List.findIdx?_eq_some_iff_getElem.mpr ⟨bound, by simp, fun k before => ?_⟩
    have := List.pairwise_iff_getElem.mp increasing k r (by omega) bound before
    simp only [Bool.not_eq_true, beq_eq_false_iff_ne]
    omega
  simp [rankOf, place]

theorem rankOf_none (ranks : List Nat) : rankOf ranks none = undefinedSortIndex := rfl

/-- Comparing ranks is comparing indices. -/
theorem rankOf_lt_iff (increasing : ranks.Pairwise (· < ·)) (left : i ∈ ranks) (right : j ∈ ranks) :
    rankOf ranks (some i) < rankOf ranks (some j) ↔ i < j := by
  obtain ⟨r, rBound, rfl⟩ := List.getElem_of_mem left
  obtain ⟨s, sBound, rfl⟩ := List.getElem_of_mem right
  rw [rankOf_eq increasing rBound, rankOf_eq increasing sBound, Int.ofNat_lt]
  constructor
  · exact List.pairwise_iff_getElem.mp increasing r s rBound sBound
  · intro before
    by_contra after
    rcases Nat.lt_or_eq_of_le (Nat.le_of_not_lt after) with less | same
    · have := List.pairwise_iff_getElem.mp increasing s r sBound rBound less
      omega
    · simp [same] at before

/-! ## Ranked nodes -/

/-- A node is sorted if it has an index. -/
theorem ranked_isSorted (member : n ∈ nodes) :
    (ranked index? (ranksOf index? nodes) n).isSorted = true ↔ index? n.id ≠ none := by
  cases known : index? n.id with
  | none => simp [ranked, Node.isSorted, known, rankOf_none]
  | some i =>
    obtain ⟨r, bound, same⟩ := List.getElem_of_mem (mem_ranksOf.mpr ⟨n, member, known⟩)
    have value := rankOf_eq (ranksOf_increasing index? nodes) bound
    rw [same] at value
    simp [Node.isSorted, ranked, known, value, undefinedSortIndex]

/-- The order of sort indices is that of indices. -/
theorem ranked_lt_iff (left : m ∈ nodes) (right : n ∈ nodes) (first : index? m.id = some i)
    (second : index? n.id = some j) :
    (ranked index? (ranksOf index? nodes) m).sortIndex <
      (ranked index? (ranksOf index? nodes) n).sortIndex ↔ i < j := by
  simp only [ranked, first, second]
  exact rankOf_lt_iff (ranksOf_increasing index? nodes) (mem_ranksOf.mpr ⟨m, left, first⟩)
    (mem_ranksOf.mpr ⟨n, right, second⟩)

/-- Nodes stand in the order of their indices. -/
theorem applyIndices_ordered (index? : NodeId → Option Nat) (nodes : List Node) :
    (applyIndices index? nodes).Pairwise fun m n => byIndex index? m n = true := by
  rw [applyIndices_eq]
  exact (List.pairwise_mergeSort byIndex_trans byIndex_total nodes).map _ fun _ _ before => before

/-- Of two nodes, the one with the lesser index stands first. -/
theorem before_of_lt (left : m ∈ applyIndices index? nodes) (right : n ∈ applyIndices index? nodes)
    (first : index? m.id = some i) (second : index? n.id = some j) (less : i < j) :
    [m, n].Sublist (applyIndices index? nodes) := by
  obtain ⟨front, back, shape⟩ := List.append_of_mem left
  have ordered := applyIndices_ordered index? nodes
  rw [shape] at right ordered ⊢
  have apart : ∀ k ∈ front, k ≠ n := by
    rintro k inside rfl
    have before := (List.pairwise_append.mp ordered).2.2 k inside m List.mem_cons_self
    simp only [byIndex, first, second, indexLe, decide_eq_true_eq] at before
    omega
  have inBack : n ∈ back := by
    rcases List.mem_append.mp right with inFront | rest
    · exact absurd rfl (apart n inFront)
    · rcases List.mem_cons.mp rest with rfl | later
      · rw [first] at second
        cases second
        omega
      · exact later
  exact List.sublist_append_of_sublist_right
    (List.cons_sublist_cons.mpr (List.singleton_sublist.mpr inBack))

/-! ## Evaluation -/

private theorem entryFirst_eq (g : SubGraph) : g.entryFirst =
    { g with
      nodes := (g.nodes.map fun n => { n with sortIndex := if n.isEntry then 0 else 1 }).insertionSort
        fun m n => decide (m.sortIndex ≤ n.sortIndex) = true } := by
  rw [entryFirst, mergeSort_eq_insertionSort]
  · simp only [decide_eq_true_eq]
    exact fun _ _ _ first second => Int.le_trans first second
  · simp only [Bool.or_eq_true, decide_eq_true_eq]
    exact fun m n => Int.le_total m.sortIndex n.sortIndex

/-- Putting an asset into order in a form that evaluates, as merge sorts do not: each
has become the insertion sort that it equals. The form is what the rewriting below
arrives at, so that it changes with the definition. -/
def sortByInsertion : { sort : Editor → Editor // ∀ e : Editor, e.sort = sort e } :=
  ⟨_, fun e => by
    unfold Editor.sort Asset.sorted Asset.sortGraph inEvaluationOrder walk sinks dependencies feedersOf
      consumersOf variableNodes leastSetter?
    simp only [entryFirst_eq, applyIndices_eq, ranksOf, sortLinks_eq, sortIds_eq,
      mergeSort_eq_insertionSort byIndex_trans byIndex_total,
      mergeSort_eq_insertionSort byEnds_trans byEnds_total]
    rfl⟩

/-- Putting a graph into evaluation order, in the same form. -/
def orderByInsertion : { order : SubGraph → SubGraph // ∀ g : SubGraph, g.inEvaluationOrder = order g } :=
  ⟨_, fun g => by
    unfold inEvaluationOrder walk sinks dependencies feedersOf consumersOf variableNodes leastSetter?
    simp only [applyIndices_eq, ranksOf, sortLinks_eq, sortIds_eq,
      mergeSort_eq_insertionSort byIndex_trans byIndex_total,
      mergeSort_eq_insertionSort byEnds_trans byEnds_total]
    rfl⟩

end PoseGraph.IndexRanks
