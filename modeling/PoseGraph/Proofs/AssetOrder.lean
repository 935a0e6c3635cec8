import PoseGraph.Proofs.Rearrangement

/-! Assets whose graphs are put into order. Ordering changes neither which node
owns a graph nor of what kind it is, so every graph is ordered once, in the way
that its owner asks for. -/
namespace PoseGraph.AssetOrder
open GraphDependencies IndexRanks LinkOrder Rearrangement

variable {a b c : Asset} {g h : SubGraph} {m n : Node} {owner id : NodeId} {owners : List NodeId}

/-! ## Tables -/

section Tables
variable {κ α : Type} [DecidableEq κ] {t : Table κ α} {k x : κ} {v : α}

theorem get_eq_some_iff : t.get? k = some v ↔ (k, v) ∈ t.entries := by
  rw [Table.get?, Entries.get?, Option.map_eq_some_iff]
  constructor
  · rintro ⟨e, found, rfl⟩
    have same : e.1 = k := by simpa using List.find?_some found
    exact same ▸ List.mem_of_find?_eq_some found
  · intro member
    refine ⟨(k, v), find_unique member (by simp) fun e inside passes => ?_, rfl⟩
    exact List.inj_on_of_nodup_map t.nodup inside member (by simpa using passes)

theorem get_eq_none_iff : t.get? k = none ↔ k ∉ t.keys := by
  constructor
  · intro missing member
    obtain ⟨e, inside, rfl⟩ := List.mem_map.mp member
    rw [get_eq_some_iff.mpr inside] at missing
    cases missing
  · intro missing
    cases found : t.get? k with
    | none => rfl
    | some v => exact absurd (List.mem_map_of_mem (get_eq_some_iff.mp found)) missing

theorem get_mapValues {β : Type} (f : κ → α → β) : (t.mapValues f).get? k = (t.get? k).map (f k) := by
  refine Option.ext fun u => ?_
  simp only [get_eq_some_iff, Table.mapValues, List.mem_map, Prod.mk.injEq, Option.map_eq_some_iff]
  constructor
  · rintro ⟨e, inside, rfl, rfl⟩
    exact ⟨e.2, inside, rfl⟩
  · rintro ⟨v, inside, rfl⟩
    exact ⟨(k, v), inside, rfl, rfl⟩

theorem get_modify (f : α → α) : (t.modify k f).get? x = if x = k then (t.get? x).map f else t.get? x := by
  refine (get_mapValues _).trans ?_
  split <;> simp

/-- Tables with the same keys in the same order and the same values are equal. -/
theorem table_ext {t u : Table κ α} (keys : t.keys = u.keys) (values : ∀ k, t.get? k = u.get? k) :
    t = u := by
  have entries : t.entries = u.entries := by
    have lengths := congrArg List.length keys
    simp only [Table.keys, List.length_map] at lengths
    apply List.ext_getElem lengths
    intro i left right
    have key : t.entries[i].1 = u.entries[i].1 := by
      have place := congrArg (·[i]?) keys
      simpa [Table.keys, left, right] using place
    have first : t.get? t.entries[i].1 = some t.entries[i].2 :=
      get_eq_some_iff.mpr (List.getElem_mem left)
    have second : u.get? u.entries[i].1 = some u.entries[i].2 :=
      get_eq_some_iff.mpr (List.getElem_mem right)
    rw [values, key, second] at first
    exact Prod.ext key (Option.some.inj first).symm
  cases t
  cases u
  cases entries
  rfl

end Tables

/-! ## Graphs and nodes of an asset -/

/-- The nodes of all graphs. -/
def allNodes (a : Asset) : List Node := a.graphs.values.flatMap SubGraph.nodes

/-- Nodes are told apart in the whole asset, pins in each graph. -/
structure Identified (a : Asset) : Prop where
  nodes : ((allNodes a).map Node.id).Nodup
  pins : ∀ g ∈ a.graphs.values, ((g.nodes.flatMap Node.pins).map Pin.id).Nodup

theorem mem_values : g ∈ a.graphs.values ↔ ∃ owner, a.graph? owner = some g := by
  simp [Table.values, Asset.graph?, get_eq_some_iff]

theorem mem_allNodes : n ∈ allNodes a ↔ ∃ owner g, a.graph? owner = some g ∧ n ∈ g.nodes := by
  simp only [allNodes, List.mem_flatMap, mem_values]
  constructor
  · rintro ⟨g, ⟨owner, held⟩, member⟩
    exact ⟨owner, g, held, member⟩
  · rintro ⟨owner, g, held, member⟩
    exact ⟨g, ⟨owner, held⟩, member⟩

theorem identified_unique (identified : Identified a) (held : a.graph? owner = some g) : UniqueIds g := by
  have inside : g ∈ a.graphs.values := mem_values.mpr ⟨owner, held⟩
  refine ⟨?_, identified.pins g inside⟩
  have nodes := identified.nodes
  rw [allNodes, List.map_flatMap, List.nodup_flatMap] at nodes
  exact nodes.1 g inside

/-- A search that finds a node finds one of the asset. -/
theorem findNode_spec (found : a.findNode? id = some n) : n ∈ allNodes a ∧ n.id = id := by
  obtain ⟨g, inside, value⟩ := List.exists_of_findSome?_eq_some found
  exact ⟨List.mem_flatMap.mpr ⟨g, inside, List.mem_of_find?_eq_some value⟩,
    by simpa using List.find?_some value⟩

theorem findNode_isSome (member : n ∈ allNodes a) : ∃ m, a.findNode? n.id = some m := by
  obtain ⟨g, inside, member⟩ := List.mem_flatMap.mp member
  cases found : a.findNode? n.id with
  | some m => exact ⟨m, rfl⟩
  | none =>
    have missing := List.findSome?_eq_none_iff.mp found g inside
    simpa using List.find?_eq_none.mp missing n member

theorem findNode_eq_some_iff (identified : Identified a) :
    a.findNode? id = some n ↔ n ∈ allNodes a ∧ n.id = id := by
  constructor
  · exact findNode_spec
  · rintro ⟨member, rfl⟩
    obtain ⟨m, found⟩ := findNode_isSome member
    obtain ⟨inside, same⟩ := findNode_spec found
    rw [found, List.inj_on_of_nodup_map identified.nodes inside member same]

/-! ## Rearranged assets -/

/-- The same asset with its graphs rearranged; what was compiled does not count. -/
structure Rearranged (a b : Asset) : Prop where
  graphs : List.Forall₂ (fun e f => e.1 = f.1 ∧ Alike e.2 f.2) a.graphs.entries b.graphs.entries
  rest : b = { a with graphs := b.graphs, prototype := b.prototype }

theorem rearranged_refl (a : Asset) : Rearranged a a :=
  ⟨List.forall₂_same.mpr fun e _ => ⟨rfl, alike_refl e.2⟩, rfl⟩

theorem rearranged_symm (first : Rearranged a b) : Rearranged b a := by
  refine ⟨first.graphs.flip.imp fun _ _ related => ⟨related.1.symm, alike_symm related.2⟩, ?_⟩
  rw [first.rest]

theorem rearranged_trans (first : Rearranged a b) (second : Rearranged b c) : Rearranged a c := by
  constructor
  · have joined {xs ys zs : List (NodeId × SubGraph)}
        (left : List.Forall₂ (fun e f => e.1 = f.1 ∧ Alike e.2 f.2) xs ys)
        (right : List.Forall₂ (fun e f => e.1 = f.1 ∧ Alike e.2 f.2) ys zs) :
        List.Forall₂ (fun e f => e.1 = f.1 ∧ Alike e.2 f.2) xs zs := by
      induction left generalizing zs with
      | nil => cases right; exact .nil
      | cons head tail ih =>
        cases right with
        | cons head' tail' =>
          exact .cons ⟨head.1.trans head'.1, alike_trans head.2 head'.2⟩ (ih tail')
    exact joined first.graphs second.graphs
  · rw [second.rest, first.rest]

theorem rearranged_owners (related : Rearranged a b) : a.owners = b.owners := by
  have keys {xs ys : List (NodeId × SubGraph)}
      (related : List.Forall₂ (fun e f => e.1 = f.1 ∧ Alike e.2 f.2) xs ys) :
      xs.map Prod.fst = ys.map Prod.fst := by
    induction related with
    | nil => rfl
    | cons head tail ih => rw [List.map_cons, List.map_cons, head.1, ih]
  exact keys related.graphs

theorem rearranged_graph (related : Rearranged a b) (held : a.graph? owner = some g) :
    ∃ h, b.graph? owner = some h ∧ Alike g h := by
  have entry {xs ys : List (NodeId × SubGraph)}
      (related : List.Forall₂ (fun e f => e.1 = f.1 ∧ Alike e.2 f.2) xs ys)
      (member : (owner, g) ∈ xs) : ∃ h, (owner, h) ∈ ys ∧ Alike g h := by
    induction related with
    | nil => cases member
    | @cons e f _ _ head tail ih =>
      rcases List.mem_cons.mp member with rfl | later
      · exact ⟨f.2, List.mem_cons.mpr (.inl (Prod.ext head.1 rfl)), head.2⟩
      · obtain ⟨h, inside, alike⟩ := ih later
        exact ⟨h, List.mem_cons_of_mem _ inside, alike⟩
  obtain ⟨h, inside, alike⟩ := entry related.graphs (get_eq_some_iff.mp held)
  exact ⟨h, get_eq_some_iff.mpr inside, alike⟩

theorem rearranged_node (related : Rearranged a b) (member : n ∈ allNodes a) :
    ∃ m ∈ allNodes b, bare m = bare n := by
  obtain ⟨owner, g, held, inside⟩ := mem_allNodes.mp member
  obtain ⟨h, also, alike⟩ := rearranged_graph related held
  obtain ⟨m, inH, same⟩ := counterpart alike inside
  exact ⟨m, mem_allNodes.mpr ⟨owner, h, also, inH⟩, same⟩

theorem rearranged_identified (related : Rearranged a b) (identified : Identified a) : Identified b := by
  constructor
  · have perm {xs ys : List (NodeId × SubGraph)}
        (related : List.Forall₂ (fun e f => e.1 = f.1 ∧ Alike e.2 f.2) xs ys) :
        ((xs.map Prod.snd).flatMap fun g => g.nodes.map Node.id).Perm
          ((ys.map Prod.snd).flatMap fun g => g.nodes.map Node.id) := by
      induction related with
      | nil => exact .refl _
      | cons head tail ih => exact (map_perm (f := Node.id) (fun _ => rfl) head.2).append ih
    have before := identified.nodes
    rw [allNodes, List.map_flatMap] at before ⊢
    exact (perm related.graphs).nodup_iff.mp before
  · intro h inside
    obtain ⟨owner, held⟩ := mem_values.mp inside
    obtain ⟨g, before, alike⟩ := rearranged_graph (rearranged_symm related) held
    exact (alike_unique (alike_symm alike) (identified_unique identified before)).pins

/-- Where nodes are told apart, look-ups find the same node in both. -/
theorem rearranged_findNode (related : Rearranged a b) (identified : Identified a) (id : NodeId) :
    (a.findNode? id).map bare = (b.findNode? id).map bare := by
  have forward {a b : Asset} {n : Node} (related : Rearranged a b) (identified : Identified b)
      (found : a.findNode? id = some n) : ∃ m, b.findNode? id = some m ∧ bare m = bare n := by
    obtain ⟨member, same⟩ := findNode_spec found
    obtain ⟨m, inside, bareSame⟩ := rearranged_node related member
    exact ⟨m, (findNode_eq_some_iff identified).mpr ⟨inside, (same_id bareSame).trans same⟩, bareSame⟩
  cases left : a.findNode? id with
  | some n =>
    obtain ⟨m, found, same⟩ := forward related (rearranged_identified related identified) left
    rw [found, Option.map_some, Option.map_some, same]
  | none =>
    cases right : b.findNode? id with
    | none => rfl
    | some m =>
      obtain ⟨n, found, -⟩ := forward (rearranged_symm related) identified right
      rw [left] at found
      cases found

theorem rearranged_ownerKind (related : Rearranged a b) (identified : Identified a) (owner : NodeId) :
    a.ownerKind? owner = b.ownerKind? owner := by
  have kinds := congrArg (Option.map Node.kind) (rearranged_findNode related identified owner)
  rw [Option.map_map, Option.map_map] at kinds
  have blind : Node.kind ∘ bare = Node.kind := rfl
  rw [blind] at kinds
  rw [Asset.ownerKind?, Asset.ownerKind?, kinds]

/-! ## Ordering all graphs -/

theorem graph_modifyGraph (f : SubGraph → SubGraph) : (a.modifyGraph owner f).graph? id =
    if id = owner then (a.graph? id).map f else a.graph? id := get_modify f

theorem rearranged_modifyGraph {f : SubGraph → SubGraph} (alike : ∀ g, Alike g (f g)) :
    Rearranged a (a.modifyGraph owner f) := by
  refine ⟨?_, rfl⟩
  simp only [Asset.modifyGraph, Table.modify, Table.mapValues]
  refine List.forall₂_map_right_iff.mpr (List.forall₂_same.mpr fun e _ => ⟨rfl, ?_⟩)
  by_cases same : e.1 = owner
  · rw [if_pos same]
    exact alike e.2
  · rw [if_neg same]
    exact alike_refl e.2

theorem rearranged_sortGraph (a : Asset) (owner : NodeId) : Rearranged a (a.sortGraph owner) := by
  rw [Asset.sortGraph]
  split
  · exact rearranged_modifyGraph alike_entryFirst
  · exact rearranged_modifyGraph alike_inEvaluationOrder

theorem rearranged_sorted (a : Asset) : Rearranged a a.sorted := by
  have fold (owners : List NodeId) (b : Asset) (related : Rearranged a b) :
      Rearranged a (owners.foldl Asset.sortGraph b) := by
    induction owners generalizing b with
    | nil => exact related
    | cons owner owners ih => exact ih _ (rearranged_trans related (rearranged_sortGraph b owner))
  exact fold a.owners a (rearranged_refl a)

/-- Whether an owner is a state machine does not depend on the order of nodes. -/
def Settled (a : Asset) (owner : NodeId) (machine : Prop) : Prop :=
  ∀ b, Rearranged a b → (b.ownerKind? owner = some .stateMachine ↔ machine)

theorem settled_of_identified (identified : Identified a) (owner : NodeId) :
    Settled a owner (a.ownerKind? owner = some .stateMachine) :=
  fun b related => by rw [rearranged_ownerKind related identified]

/-- The owner of a graph keeps its kind: it is a node of the asset before. -/
theorem ownerKind_origin {kind : NodeKind} (related : Rearranged a b)
    (owned : b.ownerKind? owner = some kind) :
    owner ≠ .root ∧ ∃ n ∈ allNodes a, n.id = owner ∧ n.kind = kind := by
  rw [Asset.ownerKind?] at owned
  split at owned
  · cases owned
  · rename_i nested
    obtain ⟨m, found, same⟩ := Option.map_eq_some_iff.mp owned
    obtain ⟨member, sameId⟩ := findNode_spec found
    obtain ⟨n, inside, bareSame⟩ := rearranged_node (rearranged_symm related) member
    refine ⟨by simpa [NodeId.isRoot] using nested, n, inside, (same_id bareSame).trans sameId, ?_⟩
    exact (same_kind bareSame).trans same

/-- A graph of a sorted asset is the asset's graph, put into order once. -/
theorem sorted_graph {machine : Prop} [Decidable machine] (settled : Settled a owner machine) :
    a.sorted.graph? owner = (a.graph? owner).map fun g =>
      if machine then g.entryFirst else g.inEvaluationOrder := by
  have step (b : Asset) (id : NodeId) (related : Rearranged a b) : (b.sortGraph id).graph? owner =
      if id = owner then (b.graph? owner).map fun g =>
        if machine then g.entryFirst else g.inEvaluationOrder
      else b.graph? owner := by
    by_cases same : id = owner
    · subst same
      have kind := settled b related
      by_cases isMachine : machine
      · simp [Asset.sortGraph, graph_modifyGraph, kind.mpr isMachine, isMachine]
      · simp [Asset.sortGraph, graph_modifyGraph, mt kind.mp isMachine, isMachine]
    · rw [if_neg same, Asset.sortGraph]
      split <;> rw [graph_modifyGraph, if_neg (Ne.symm same)]
  -- Each owner is met once, so that its graph is ordered at most once.
  have fold (owners : List NodeId) (distinct : owners.Nodup) (b : Asset) (related : Rearranged a b) :
      (owners.foldl Asset.sortGraph b).graph? owner =
        if owner ∈ owners then (b.graph? owner).map fun g =>
          if machine then g.entryFirst else g.inEvaluationOrder
        else b.graph? owner := by
    induction owners generalizing b with
    | nil => rfl
    | cons id owners ih =>
      obtain ⟨fresh, others⟩ := List.nodup_cons.mp distinct
      rw [List.foldl_cons, ih others _ (rearranged_trans related (rearranged_sortGraph b id)),
        step b id related]
      by_cases same : id = owner
      · subst same
        simp [fresh]
      · simp [same, Ne.symm same]
  rw [Asset.sorted, fold a.owners a.graphs.nodup a (rearranged_refl a)]
  split
  · rfl
  · rename_i missing
    rw [show a.graph? owner = none from get_eq_none_iff.mpr missing]
    rfl

theorem sorted_rest (a : Asset) : a.sorted = { a with graphs := a.sorted.graphs } := by
  have step (b : Asset) (owner : NodeId) : b.sortGraph owner = { b with graphs := (b.sortGraph owner).graphs } := by
    rw [Asset.sortGraph]
    split <;> rfl
  have fold (owners : List NodeId) (b : Asset) :
      owners.foldl Asset.sortGraph b = { b with graphs := (owners.foldl Asset.sortGraph b).graphs } := by
    induction owners generalizing b with
    | nil => rfl
    | cons owner owners ih =>
      rw [List.foldl_cons, ih, step b owner]
  exact fold a.owners a

/-- Ordering an asset again changes nothing. -/
theorem sorted_idem (identified : Identified a) : a.sorted.sorted = a.sorted := by
  have kinds := rearranged_ownerKind (rearranged_sorted a) identified
  have graph (owner : NodeId) : a.sorted.sorted.graph? owner = a.sorted.graph? owner := by
    have again := sorted_graph
      (settled_of_identified (rearranged_identified (rearranged_sorted a) identified) owner)
    have once := sorted_graph (settled_of_identified identified owner)
    rw [again, once, Option.map_map]
    cases held : a.graph? owner with
    | none => rw [Option.map_none, Option.map_none]
    | some g =>
      have flow := inEvaluationOrder_idem (identified_unique identified held)
      simp only [Option.map_some, Function.comp_apply, ← kinds owner]
      split
      · exact congrArg some (entryFirst_idem g)
      · exact congrArg some flow
  have whole (b c : Asset) (rest : c = { b with graphs := c.graphs }) (graphs : c.graphs = b.graphs) :
      c = b := by
    rw [rest, graphs]
  refine whole _ _ (sorted_rest a.sorted) (table_ext ?_ graph)
  exact (rearranged_owners (rearranged_sorted a.sorted)).symm

/-- Putting an editor's graphs into order once settles them, and a second time changes nothing. Each graph is
what ordering it on its own gives: state machines start with their entry, all others are walked. -/
theorem sorting_settles {e : Editor} (identified : Identified e.asset) :
    e.sort.sort = e.sort ∧ e.sort.asset.owners = e.asset.owners ∧
      ∀ owner g, e.asset.graph? owner = some g → e.sort.asset.graph? owner =
        some (if e.asset.ownerKind? owner = some .stateMachine then g.entryFirst else g.inEvaluationOrder) := by
  refine ⟨congrArg (fun a => { e with asset := a }) (sorted_idem identified),
    (rearranged_owners (rearranged_sorted e.asset)).symm, fun owner g held => ?_⟩
  have once := sorted_graph (settled_of_identified identified owner)
  rwa [held] at once

/-- A state machine that is fed by two variables without setters and by a circle, and feeds the output twice.
One link begins nowhere, one node has no links at all, and the machine's entry is not its first state. -/
def tangled : Editor := .ofAsset
  { Asset.ofName "Tangle" ⟨1⟩ with
    graphs := (Table.empty.insert .root
      { nodes := [
          ({ Node.ofName "Idle" ⟨0, 0, 0⟩ with outputs := [.output "Out" .float] }.withFreshIds 10).1,
          ({ Node.ofName "Output" ⟨0, 0, 0⟩ with inputs := [.input "Pose" .pose] }.withFreshIds 20).1,
          ({ Node.ofName "State Machine" ⟨0, 0, 0⟩ with
            inputs := [.input "Speed" .float, .input "Angle" .float, .input "Phase" .float]
            outputs := [.output "Pose" .pose] }.withFreshIds 30).1,
          ({ Node.ofName "Speed" ⟨0, 0, 0⟩ with
            category := localVariableCategory, outputs := [.output "Speed" .float] }.withFreshIds 40).1,
          ({ Node.ofName "Angle" ⟨0, 0, 0⟩ with
            category := localVariableCategory, outputs := [.output "Angle" .float] }.withFreshIds 50).1,
          ({ Node.ofName "Forth" ⟨0, 0, 0⟩ with
            inputs := [.input "In" .float], outputs := [.output "Out" .float] }.withFreshIds 60).1,
          ({ Node.ofName "Back" ⟨0, 0, 0⟩ with
            inputs := [.input "In" .float], outputs := [.output "Out" .float] }.withFreshIds 70).1]
        links := [⟨⟨91⟩, ⟨34⟩, ⟨21⟩, ⟨0, 0, 0⟩⟩, ⟨⟨92⟩, ⟨34⟩, ⟨21⟩, ⟨0, 0, 0⟩⟩, ⟨⟨93⟩, ⟨41⟩, ⟨31⟩, ⟨0, 0, 0⟩⟩,
          ⟨⟨94⟩, ⟨99⟩, ⟨32⟩, ⟨0, 0, 0⟩⟩, ⟨⟨95⟩, ⟨51⟩, ⟨32⟩, ⟨0, 0, 0⟩⟩, ⟨⟨96⟩, ⟨62⟩, ⟨33⟩, ⟨0, 0, 0⟩⟩,
          ⟨⟨97⟩, ⟨62⟩, ⟨71⟩, ⟨0, 0, 0⟩⟩, ⟨⟨98⟩, ⟨72⟩, ⟨61⟩, ⟨0, 0, 0⟩⟩] }).insert ⟨30⟩
      { nodes := [
          { Node.ofName "State" ⟨0, 0, 0⟩ with id := ⟨101⟩, category := stateMachineCategory },
          { Node.ofName "State" ⟨0, 0, 0⟩ with id := ⟨102⟩, category := stateMachineCategory, isEntry := true }]
        links := [] } }

/-- The places of nodes in a graph and the order of its links. -/
def listing (e : Editor) (owner : NodeId) : Option (List (Nat × Int) × List Nat) :=
  (e.asset.graph? owner).map fun g => (g.nodes.map fun n => (n.id.value, n.sortIndex), g.links.map fun l => l.id.value)

/-- Both variables come first and the idle node last, and none of that changes again. -/
theorem tangled_settles : tangled.sort.sort = tangled.sort ∧
    listing tangled .root ≠ listing tangled.sort .root ∧
    listing tangled.sort .root = some ([(40, 0), (50, 0), (70, 1), (60, 2), (30, 3), (20, 4), (10, -1)],
      [93, 95, 98, 97, 96, 91, 92, 94]) ∧
    listing tangled.sort ⟨30⟩ = some ([(102, 0), (101, 1)], []) := by
  have identified : Identified tangled.asset := ⟨by decide +kernel, by decide +kernel⟩
  refine ⟨(sorting_settles identified).1, ?_, ?_, ?_⟩ <;>
  · rw [sortByInsertion.2]
    decide +kernel

end PoseGraph.AssetOrder
