import PoseGraph.Proofs.EditorCoherence
import PoseGraph.Proofs.LoweringOutline

/-! Marking an entry state does not show in what lowering sees of a sorted graph.
Outside of state machines the mark counts for nothing; in a state machine it
moves the first state to the front, which it was already, apart from annotations,
as long as there is no transition before it. -/
namespace PoseGraph.EntryMarks
open EditorCoherence GraphDependencies IndexRanks LoweringOutline NodeCraft Rearrangement SubGraph

variable {g h : SubGraph} {n x : Node} {pin : PinId} {index? : NodeId → Option Nat}
variable {nodes others before after : List Node}

/-- A node without its entry mark. -/
def unmarked (n : Node) : Node := { n with isEntry := false }

/-- Graphs that differ in entry marks only. -/
structure SameButMarks (g h : SubGraph) : Prop where
  nodes : g.nodes.map unmarked = h.nodes.map unmarked
  links : g.links = h.links

theorem sameButMarks_ensureEntry (g : SubGraph) : SameButMarks g g.ensureEntry := by
  rw [SubGraph.ensureEntry]
  split
  · exact ⟨rfl, rfl⟩
  · have nodes := map_modifyFirst (t := Node.isState) (f := fun n => { n with isEntry := true })
      (k := unmarked) (fun _ => rfl) g.nodes
    exact ⟨nodes.symm, rfl⟩

theorem alike_sameButMarks (same : SameButMarks g h) : Alike g h := by
  refine ⟨?_, same.links ▸ .refl _⟩
  have bares := congrArg (List.map bare) same.nodes
  rw [List.map_map, List.map_map] at bares
  exact .of_eq bares

/-! ## Outside of state machines -/

theorem applyIndices_unmarked (index? : NodeId → Option Nat) (nodes : List Node) :
    (applyIndices index? nodes).map unmarked = applyIndices index? (nodes.map unmarked) :=
  (applyIndices_map (t := unmarked) (fun _ => rfl) (fun _ _ => rfl) index? nodes).symm

theorem sortLinks_unmarked (same : nodes.map unmarked = others.map unmarked) (links : List Link) :
    sortLinks nodes links = sortLinks others links := by
  have positions : lastPosition? nodes = lastPosition? others := by
    funext pin
    rw [← lastPosition_map (t := unmarked) fun _ _ => rfl, same, lastPosition_map (t := unmarked) fun _ _ => rfl]
  rw [sortLinks, sortLinks, positions]

theorem sameButMarks_inEvaluationOrder (same : SameButMarks g h) (unique : UniqueIds g) :
    SameButMarks g.inEvaluationOrder h.inEvaluationOrder := by
  have walks : g.walk = h.walk := alike_walk (alike_sameButMarks same) unique
  have nodes : (applyIndices g.walk.index? g.nodes).map unmarked =
      (applyIndices h.walk.index? h.nodes).map unmarked := by
    rw [applyIndices_unmarked, applyIndices_unmarked, walks, same.nodes]
  refine ⟨nodes, ?_⟩
  rw [inEvaluationOrder, inEvaluationOrder, same.links]
  exact sortLinks_unmarked nodes _

theorem outline_sameButMarks (same : SameButMarks g h) : outline g = outline h := by
  have whole (k : SubGraph) : outline k = ⟨((k.nodes.map unmarked).filter (!·.isComment) ++
      (k.nodes.map unmarked).filter Node.isComment).map gist, k.links⟩ := by
    rw [outline, List.filter_map, List.filter_map, ← List.map_append, List.map_map]
    rfl
  rw [whole g, whole h, same.nodes, same.links]

/-! ## In state machines -/

/-- The place that a node has in a state machine. -/
def staged (n : Node) : Node := { n with sortIndex := if n.isEntry then 0 else 1 }

theorem entryFirst_nodes (g : SubGraph) :
    g.entryFirst.nodes = (g.nodes.map staged).mergeSort fun a b => a.sortIndex ≤ b.sortIndex := rfl

theorem staged_unmarked (plain : ∀ n ∈ nodes, n.isEntry = false) :
    ∀ n ∈ nodes.map staged, n.sortIndex = 1 := by
  intro n member
  obtain ⟨m, inside, rfl⟩ := List.mem_map.mp member
  simp [staged, plain m inside]

/-- Without an entry, a state machine keeps its order. -/
theorem entryFirst_unmarked (plain : ∀ n ∈ g.nodes, n.isEntry = false) :
    g.entryFirst.nodes = g.nodes.map staged := by
  rw [entryFirst_nodes]
  refine List.mergeSort_of_pairwise (List.pairwise_iff_forall_sublist.mpr fun {a b} sublist => ?_)
  have left := staged_unmarked plain a (sublist.subset List.mem_cons_self)
  have right := staged_unmarked plain b (sublist.subset (by simp))
  simp [left, right]

/-- A single entry is moved to the front. -/
theorem entryFirst_marked (split : g.nodes = before ++ x :: after) (entry : x.isEntry = true)
    (front : ∀ n ∈ before, n.isEntry = false) (back : ∀ n ∈ after, n.isEntry = false) :
    g.entryFirst.nodes = staged x :: (before.map staged ++ after.map staged) := by
  have first : (staged x).sortIndex = 0 := by simp [staged, entry]
  have rest : ∀ n ∈ before.map staged ++ after.map staged, n.sortIndex = 1 := by
    intro n member
    rcases List.mem_append.mp member with left | right
    · exact staged_unmarked front n left
    · exact staged_unmarked back n right
  rw [entryFirst_nodes, split, List.map_append, List.map_cons]
  refine mergeSort_forward ?_ ?_ (fun n member => ?_) (List.pairwise_cons.mpr ⟨fun n member => ?_, ?_⟩)
  · simp only [decide_eq_true_eq]
    exact fun _ _ _ first second => Int.le_trans first second
  · simp only [Bool.or_eq_true, decide_eq_true_eq]
    exact fun a b => Int.le_total _ _
  · simp [first, staged_unmarked front n member]
  · simp [first, rest n member]
  · refine List.pairwise_iff_forall_sublist.mpr fun {a b} sublist => ?_
    have left := rest a (sublist.subset List.mem_cons_self)
    have right := rest b (sublist.subset (by simp))
    simp [left, right]

/-- Before the first state of a machine without an entry there are annotations
only: a transition would be joined to nothing. -/
theorem comments_before (entered : Entered g) (plain : ∀ n ∈ g.nodes, n.isEntry = false)
    (split : g.nodes = before ++ x :: after) (state : x.isState = true)
    (others : ∀ n ∈ before, n.isState = false) : ∀ n ∈ before, n.isComment = true := by
  have unjoined : Unjoined g := by
    rcases entered with marked | unjoined | stateless
    · obtain ⟨n, member, entry⟩ := List.any_eq_true.mp marked
      rw [plain n member] at entry
      cases entry
    · exact unjoined
    · exact absurd state (List.any_eq_false.mp stateless x (by simp [split]))
  intro n member
  have free := unjoined n (by simp [split, member])
  simpa [Node.isState, free] using others n member

/-- Annotations do not show, wherever they are. -/
theorem outline_forward {y : Node} {links : List Link} (comments : ∀ n ∈ before, n.isComment = true)
    (text : x.isComment = false) (alsoText : y.isComment = false) (same : gist y = gist x) :
    outline ⟨y :: (before ++ after), links⟩ = outline ⟨before ++ x :: after, links⟩ := by
  have silent : before.filter (!·.isComment) = [] := by
    apply List.filter_eq_nil_iff.mpr
    intro n member
    simp [comments n member]
  rw [outline, outline]
  simp [List.filter_append, silent, text, alsoText, same]

/-- Marking the first state of a machine that is entered. -/
theorem outline_entryFirst (entered : Entered g) : outline g.ensureEntry.entryFirst = outline g.entryFirst := by
  cases marked : g.nodes.any Node.isEntry with
  | true => rw [SubGraph.ensureEntry, if_pos marked]
  | false =>
    have plain : ∀ n ∈ g.nodes, n.isEntry = false := by simpa using marked
    have same : g.ensureEntry =
        { g with nodes := Node.modifyFirst Node.isState (fun n => { n with isEntry := true }) g.nodes } := by
      rw [SubGraph.ensureEntry, marked]
      rfl
    cases found : g.nodes.find? Node.isState with
    | none =>
      rw [same, modifyFirst_none (by simpa using List.find?_eq_none.mp found)]
    | some x =>
      obtain ⟨before, after, split, modified, others⟩ :=
        modifyFirst_eq (f := fun n => { n with isEntry := true }) found
      have state : x.isState = true := List.find?_some found
      have front : ∀ n ∈ before, n.isEntry = false := fun n member => plain n (by simp [split, member])
      have back : ∀ n ∈ after, n.isEntry = false := fun n member => plain n (by simp [split, member])
      have left : g.ensureEntry.entryFirst.nodes =
          staged { x with isEntry := true } :: (before.map staged ++ after.map staged) :=
        entryFirst_marked (g := g.ensureEntry) (by rw [same]; exact modified) rfl front back
      have right : g.entryFirst.nodes = before.map staged ++ staged x :: after.map staged := by
        rw [entryFirst_unmarked plain, split, List.map_append, List.map_cons]
      have links : g.ensureEntry.entryFirst.links = g.entryFirst.links := by
        rw [same]
        rfl
      have comments : ∀ n ∈ before.map staged, n.isComment = true := by
        intro n member
        obtain ⟨m, inside, rfl⟩ := List.mem_map.mp member
        exact comments_before entered plain split state others m inside
      have text : (staged x).isComment = false := by
        rw [Node.isState, Bool.and_eq_true, Bool.not_eq_true'] at state
        exact state.1
      have gists : gist (staged { x with isEntry := true }) = gist (staged x) := by
        simp [staged, plain x (by simp [split]), gist, Node.isSorted, undefinedSortIndex]
      calc outline g.ensureEntry.entryFirst
          = outline ⟨staged { x with isEntry := true } :: (before.map staged ++ after.map staged),
              g.entryFirst.links⟩ := by rw [outline, left, links]; rfl
        _ = outline ⟨before.map staged ++ staged x :: after.map staged, g.entryFirst.links⟩ :=
            outline_forward comments text text gists
        _ = outline g.entryFirst := by rw [← right]

end PoseGraph.EntryMarks
