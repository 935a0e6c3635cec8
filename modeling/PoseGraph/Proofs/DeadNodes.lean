import PoseGraph.Proofs.CompiledGraphs
import PoseGraph.Proofs.IdleNodes
import PoseGraph.Proofs.LinkDelivery
import PoseGraph.Proofs.LoweringFailures
import PoseGraph.Proofs.LoweringOutline
import PoseGraph.Proofs.VariableChains

/-! Dead nodes leave no trace. Where nodes that end no graph and stand for no
local variable are put anywhere into a dataflow graph, with links among them, an
asset that compiles before and after has the same prototype. -/
namespace PoseGraph.DeadNodes
open AssetOrder CompiledGraphs Editor GraphDependencies IdleNodes Insertions LinkDelivery LinkOrder LoweringFailures
open LoweringOutline LoweringSemantics Rearrangement SubGraph Validity VariableChains

variable {a : Asset} {e : Editor} {g h : SubGraph} {m n : Node} {p s : Pin} {l : Link} {pin : PinId}
variable {owner place self : NodeId} {name : String} {container : Bool} {depth : Nat} {q : Prototype}
variable {connections : List Connection} {graphs : Table NodeId SubGraph}

/-- A link between two nodes that the first graph does not have. -/
def Aside (g h : SubGraph) (l : Link) : Prop :=
  ∃ m ∈ h.nodes, ∃ n ∈ h.nodes, m.hasPin l.source = true ∧ n.hasPin l.target = true ∧
    g.hasNode m.id = false ∧ g.hasNode n.id = false

/-- The second graph is the first one with idle nodes inserted among the nodes, and links between inserted nodes
among the links. -/
structure Padded (g h : SubGraph) : Prop where
  nodes : Inserted (fun n => g.hasNode n.id = false ∧ Idle n) g.nodes h.nodes
  links : Inserted (Aside g h) g.links h.links

/-- Links end at pins of the graph. -/
def Closed (g : SubGraph) : Prop :=
  ∀ l ∈ g.links, (g.pin? l.source).isSome = true ∧ (g.pin? l.target).isSome = true

theorem closed_of_valid (whole : linkErrors g = []) : Closed g := by
  intro l link
  obtain ⟨p, q, starts, ends⟩ := ends_of_valid whole link
  rw [starts, ends]
  exact ⟨rfl, rfl⟩

theorem closed_of_ordered (closed : Closed g.inEvaluationOrder) : Closed g := by
  intro l link
  rw [← ordered_pin g l.source, ← ordered_pin g l.target]
  exact closed l (mem_ordered_links.mpr link)

theorem foreign_pin (unique : UniqueIds h) (part : g.nodes ⊆ h.nodes) (member : n ∈ h.nodes)
    (added : g.hasNode n.id = false) (has : n.hasPin pin = true) : (g.pin? pin).isSome = false := by
  by_contra held
  obtain ⟨m, inside, also⟩ := pin_isSome_iff.mp (Bool.eq_true_of_not_eq_false held)
  rw [node_eq_of_pin unique member (part inside) has also, hasNode_iff.mpr ⟨m, inside, rfl⟩] at added
  cases added

theorem beside_of_padded (padded : Padded g h) (unique : UniqueIds h) (closed : Closed g) : Beside g h := by
  have part : g.nodes ⊆ h.nodes := (inserted_sublist padded.nodes).subset
  have outside : ∀ l, Aside g h l → (g.pin? l.source).isSome = false ∧ (g.pin? l.target).isSome = false := by
    rintro l ⟨m, inM, n, inN, starts, ends, left, right⟩
    exact ⟨foreign_pin unique part inM left starts, foreign_pin unique part inN right ends⟩
  refine ⟨unique, ?_, ?_, ?_, ?_⟩
  · exact inserted_filter padded.nodes (fun n member => hasNode_iff.mpr ⟨n, member, rfl⟩) fun _ _ new => new.1
  · exact inserted_filter padded.links (fun l link => (closed l link).1) fun l _ new => (outside l new).1
  · intro n member added
    rcases inserted_origin padded.nodes member with old | ⟨-, idle⟩
    · rw [hasNode_iff.mpr ⟨n, old, rfl⟩] at added
      cases added
    · exact idle
  · intro l link
    rcases inserted_origin padded.links link with old | new
    · exact (closed l old).1.trans (closed l old).2.symm
    · exact (outside l new).1.trans (outside l new).2.symm

theorem beside_refl (unique : UniqueIds g) (closed : Closed g) : Beside g g := by
  have known : ∀ n ∈ g.nodes, g.hasNode n.id = true := fun n member => hasNode_iff.mpr ⟨n, member, rfl⟩
  refine ⟨unique, List.filter_eq_self.mpr known, List.filter_eq_self.mpr fun l link => (closed l link).1, ?_, ?_⟩
  · intro n member added
    rw [known n member] at added
    cases added
  · exact fun l link => (closed l link).1.trans (closed l link).2.symm

/-! ## Lowering beside idle nodes -/

section Beside

variable (beside : Beside g h)
include beside

theorem producer_beside (held : (g.pin? pin).isSome = true) : h.producer? pin = g.producer? pin := by
  have found : g.links.find? (·.target == pin) = h.links.find? (·.target == pin) := by
    rw [← beside.links]
    refine find_kept fun l link outside => beq_eq_false_iff_ne.mpr ?_
    rintro rfl
    rw [beside.level l link, held] at outside
    cases outside
  rw [producer?, producer?, ← found]
  cases first : g.links.find? (·.target == pin) with
  | none => rfl
  | some l =>
    have link := List.mem_of_find?_eq_some first
    rw [← beside.links] at link
    exact pin_beside beside (List.mem_filter.mp link).2

theorem source_beside : h.source? = g.source? := by
  funext name
  rw [source?, source?, setter_beside beside]
  cases setter : g.setter? name with
  | none => rfl
  | some n =>
    have member : n ∈ g.nodes := List.mem_of_find?_eq_some setter
    cases input : n.inputs.head? with
    | none => simp [input]
    | some p =>
      have inside : p ∈ n.pins := List.mem_append_left _ (List.mem_of_mem_head? input)
      simp [input, producer_beside beside (pin_isSome member inside)]

theorem holder_of_source {fed : Pin} (source : g.source? name = some fed) :
    h.nodeOfPin? fed.id = g.nodeOfPin? fed.id := by
  obtain ⟨n, -, rest⟩ := Option.bind_eq_some_iff.mp source
  obtain ⟨input, -, produced⟩ := Option.bind_eq_some_iff.mp rest
  obtain ⟨l, -, starts⟩ := Option.bind_eq_some_iff.mp produced
  obtain ⟨k, member, inside, -⟩ := pin_spec starts
  exact nodeOfPin_beside beside (pin_isSome member inside)

theorem leads_beside : LeadsBack h n p m s ↔ LeadsBack g n p m s := by
  constructor
  · intro leads
    induction leads with
    | here plain => exact .here plain
    | back named source holder _ ih =>
      rw [source_beside beside] at source
      exact .back named source (holder_of_source beside source ▸ holder) ih
  · intro leads
    induction leads with
    | here plain => exact .here plain
    | back named source holder _ ih =>
      exact .back named (source_beside beside ▸ source) ((holder_of_source beside source).trans holder) ih

theorem resolve_beside (member : n ∈ g.nodes) : h.resolve n p = g.resolve n p := by
  apply Option.ext
  rintro ⟨m, s⟩
  rw [resolve_eq_some_iff member, resolve_eq_some_iff (member_beside beside member), leads_beside beside]

theorem lowerLink_beside (starts : (g.pin? l.source).isSome = true) (ends : (g.pin? l.target).isSome = true) :
    (e.lowerLink h container self l).result = (e.lowerLink g container self l).result := by
  have unfed (producer destination : Node) (start finish : Pin) :
      (e.connectVariable h self producer start destination finish).result =
        (e.connectVariable g self producer start destination finish).result := by
    unfold connectVariable
    split <;> rfl
  rw [lowerLink, lowerLink, pin_beside beside starts, nodeOfPin_beside beside starts, pin_beside beside ends,
    nodeOfPin_beside beside ends]
  split
  · rename_i start producer finish destination _ produces _ _
    rw [resolve_beside beside (nodeOfPin_spec produces).1]
    cases g.resolve producer start with
    | some origin => rfl
    | none =>
      split
      · rfl
      · split
        · rfl
        · split
          · rfl
          · exact unfed producer destination start finish
  · rfl
  · rfl

variable (placeless : ∀ n ∈ h.nodes, g.hasNode n.id = false → n.isSorted = false ∧ container = false)
include placeless

/-- A link beside the graph gets no connection. -/
theorem aside_unconnected {c : Option Connection} (outside : (g.pin? l.source).isSome = false)
    (lowered : (e.lowerLink h container self l).result = .ok c) : c = none := by
  cases c with
  | none => rfl
  | some c =>
    obtain ⟨start, producer, finish, d, joined, -⟩ := lowerLink_ok_some_iff.mp lowered
    obtain ⟨member, has⟩ := nodeOfPin_spec joined.produces
    have added : g.hasNode producer.id = false := by
      by_contra known
      obtain ⟨m, inside, same⟩ := hasNode_iff.mp (Bool.eq_true_of_not_eq_false known)
      rw [← node_eq_of_id beside.unique (member_beside beside inside) member same] at has
      rw [pin_isSome_iff.mpr ⟨m, inside, has⟩] at outside
      cases outside
    obtain ⟨unsorted, flow⟩ := placeless producer member added
    rcases joined.placed with all | ⟨sorted, -⟩
    · rw [flow] at all
      cases all
    · rw [unsorted] at sorted
      cases sorted

theorem lowerLinks_beside {f : Editor} (lowered : (f.lowerLinks h container self).result = .ok connections) :
    (e.lowerLinks g container self).result = .ok connections := by
  obtain ⟨made, each, rfl⟩ := outcomes_of_links lowered
  refine lowerLinks_ok_iff.mpr ⟨g.links.map made, ?_, ?_⟩
  · refine each_mapped fun l link => ?_
    rw [← beside.links] at link
    obtain ⟨link, starts⟩ := List.mem_filter.mp link
    rw [← lowerLink_beside beside starts (beside.level l link ▸ starts), reordered_lowerLink (f := f)]
    exact each l link
  · rw [List.filterMap_map, ← beside.links]
    exact filterMap_kept fun l link outside => aside_unconnected beside placeless outside (each l link)

theorem emitted_beside :
    h.nodes.filter (Node.isEmitted · container) = g.nodes.filter (Node.isEmitted · container) := by
  refine filter_beside beside fun n member added => ?_
  obtain ⟨unsorted, flow⟩ := placeless n member added
  simp [Node.isEmitted, unsorted, flow]

omit placeless

theorem assembled_beside (e : Editor) (owner self : NodeId) (name : String) (nodes : List (RuntimeNode Prototype))
    (connections : List Connection) :
    assembled e h owner self name nodes connections = assembled e g owner self name nodes connections := by
  have outputs : e.lowerOutputs h = e.lowerOutputs g := by
    rw [lowerOutputs, lowerOutputs, find_beside beside]
    intro n member added
    simp [(beside.idle n member added).output]
  have literals : namedLiteral? e h = namedLiteral? e g := by
    funext n
    unfold namedLiteral? variableLiteral?
    rw [setter_beside beside]
  have plugs : e.lowerVariables h = e.lowerVariables g := by
    rw [lowerVariables_eq, lowerVariables_eq, literals, filterMap_beside beside]
    intro n member added
    rw [namedLiteral?, variable_beside beside member added]
    rfl
  rw [assembled, assembled, outputs, plugs]

end Beside

/-! ## The two assets -/

/-- The same editor with other graphs. -/
def withGraphs (e : Editor) (graphs : Table NodeId SubGraph) : Editor :=
  { e with asset := { e.asset with graphs } }

/-- Each graph that lowering can come to stands beside the one that it comes from. Nodes are only added to dataflow
graphs, and without a place. -/
structure Spread (e : Editor) (graphs : Table NodeId SubGraph) : Prop where
  origin : ∀ owner h, Nested e.asset owner → (withGraphs e graphs).asset.graph? owner = some h →
    ∃ g, e.asset.graph? owner = some g ∧ Beside g h ∧
      ∀ n ∈ h.nodes, g.hasNode n.id = false → n.isSorted = false ∧ e.isContainer owner = false
  containers : ∀ owner, Nested e.asset owner → (withGraphs e graphs).isContainer owner = e.isContainer owner

/-- What the graphs with the additions are lowered to, those without are lowered to. -/
theorem lowered_beside (spread : Spread e graphs) (nested : Nested e.asset owner)
    (lowered : ((withGraphs e graphs).lowerWithin depth owner self name).result = .ok q) :
    (e.lowerWithin depth owner self name).result = .ok q := by
  induction depth generalizing owner self name q with
  | zero => exact absurd lowered lowerWithin_zero
  | succ depth ih =>
    obtain ⟨h, padded, nodes, connections, each, links, rfl⟩ := lowerWithin_ok_iff.mp lowered
    obtain ⟨g, held, beside, placeless⟩ := spread.origin owner h nested padded
    rw [spread.containers owner nested] at each links
    rw [emitted_beside beside placeless] at each
    refine lowerWithin_ok_iff.mpr ⟨g, held, nodes, connections, ?_, lowerLinks_beside beside placeless links, ?_⟩
    · refine ((List.forall₂_and_left _ _).mpr ⟨fun n member => member, each⟩).imp ?_
      rintro n r ⟨member, lowers⟩
      refine ⟨lowers.type, lowers.id, lowers.plugs, ?_⟩
      have body := lowers.body
      by_cases owns : n.isSubroutine = true
      · rw [if_pos owns] at body ⊢
        obtain ⟨q, inner, placed⟩ := body
        have inside : n ∈ allNodes e.asset := mem_allNodes.mpr ⟨owner, g, held, (List.mem_filter.mp member).1⟩
        exact ⟨q, ih (.inr ⟨n, inside, owns, rfl⟩) inner, placed⟩
      · rw [if_neg owns] at body ⊢
        exact body
    · exact (assembled_beside beside _ _ _ _ _ _).symm

section Assets

variable (held : a.graph? place = some g) (part : g.nodes.Sublist h.nodes)
include held part

theorem allNodes_padded : (allNodes a).Sublist (allNodes (a.modifyGraph place fun _ => h)) := by
  have values : ∀ b : Asset, allNodes b = b.graphs.entries.flatMap fun entry => entry.2.nodes := fun b => by
    rw [allNodes, Table.values, List.flatMap_map]
  rw [values, values, Asset.modifyGraph, Table.modify, Table.mapValues, List.flatMap_map]
  refine List.Sublist.flatMap_right _ ?_
  rintro ⟨owner, k⟩ entry
  by_cases here : owner = place
  · have same := get_eq_some_iff.mpr entry
    rw [here, show a.graphs.get? place = some g from held] at same
    cases same
    rw [if_pos here]
    exact part
  · rw [if_neg here]

theorem identified_padded (identified : Identified (a.modifyGraph place fun _ => h)) : Identified a := by
  refine ⟨identified.nodes.sublist ((allNodes_padded held part).map _), fun k member => ?_⟩
  obtain ⟨owner, found⟩ := mem_values.mp member
  have after : ((a.modifyGraph place fun _ => h).graph? owner) = some (if owner = place then h else k) := by
    rw [graph_modifyGraph, found]
    split <;> rfl
  have pins := (identified_unique identified after).pins
  by_cases here : owner = place
  · rw [here, held] at found
    cases found
    rw [if_pos here] at pins
    exact pins.sublist ((part.flatMap Node.pins).map _)
  · rwa [if_neg here] at pins

/-- Nodes that were there keep their kinds. -/
theorem ownerKind_padded (identified : Identified (a.modifyGraph place fun _ => h)) (nested : Nested a owner) :
    (a.modifyGraph place fun _ => h).ownerKind? owner = a.ownerKind? owner := by
  rcases nested with rfl | ⟨n, member, -, rfl⟩
  · rfl
  · have before := (findNode_eq_some_iff (identified_padded held part identified)).mpr ⟨member, rfl⟩
    have after := (findNode_eq_some_iff identified).mpr ⟨(allNodes_padded held part).subset member, rfl⟩
    rw [Asset.ownerKind?, Asset.ownerKind?, before, after]

end Assets

theorem nested_sorted (nested : Nested a.sorted owner) : Nested a owner := by
  refine nested.imp_right ?_
  rintro ⟨m, member, owns, rfl⟩
  obtain ⟨n, inside, same⟩ := rearranged_node (rearranged_symm (rearranged_sorted a)) member
  exact ⟨n, inside, (same_blind (f := Node.isSubroutine) (fun _ => rfl) same).trans owns, same_id same⟩

/-- An editor whose asset has another graph in the place of one. -/
def padding (e : Editor) (place : NodeId) (h : SubGraph) : Editor :=
  { e with asset := e.asset.modifyGraph place fun _ => h }

theorem padding_sort (e : Editor) (place : NodeId) (h : SubGraph) :
    (padding e place h).sort = withGraphs e.sort (padding e place h).sort.asset.graphs := by
  have before : e.sort.asset = { e.asset with graphs := e.sort.asset.graphs } := sorted_rest e.asset
  have after : (padding e place h).sort.asset =
      { (padding e place h).asset with graphs := (padding e place h).sort.asset.graphs } := sorted_rest _
  have whole : (padding e place h).sort = { e with asset := (padding e place h).sort.asset } := rfl
  rw [whole, after, withGraphs, before]
  rfl

theorem spread_sorted (identified : Identified (padding e place h).asset) (held : e.asset.graph? place = some g)
    (padded : Padded g h) (flow : e.isContainer place = false)
    (closed : ∀ owner k, e.sort.asset.graph? owner = some k → Closed k) :
    Spread e.sort (padding e place h).sort.asset.graphs := by
  have part := inserted_sublist padded.nodes
  have before : Identified e.asset := identified_padded held part identified
  have kinds (owner : NodeId) (nested : Nested e.sort.asset owner) :
      (padding e place h).asset.ownerKind? owner = e.asset.ownerKind? owner :=
    ownerKind_padded held part identified (nested_sorted nested)
  have sortedKinds (e : Editor) (identified : Identified e.asset) (owner : NodeId) :
      e.sort.isContainer owner = e.isContainer owner := by
    rw [isContainer, isContainer, ← show e.asset.ownerKind? owner = e.sort.asset.ownerKind? owner from
      rearranged_ownerKind (rearranged_sorted e.asset) identified owner]
  refine ⟨fun owner k nested found => ?_, fun owner nested => ?_⟩
  · have order : e.sort.asset.graph? owner = _ := sorted_graph (settled_of_identified before owner)
    have padOrder : (padding e place h).sort.asset.graph? owner = _ :=
      sorted_graph (settled_of_identified identified owner)
    have after : (padding e place h).sort.asset.graph? owner = some k := found
    rw [padOrder, kinds owner nested] at after
    rw [padding, graph_modifyGraph] at after
    by_cases here : owner = place
    · subst here
      have plain : e.asset.ownerKind? owner ≠ some .stateMachine := by
        intro machine
        rw [isContainer, machine] at flow
        cases flow
      rw [held, Option.map_some, if_neg plain] at order
      rw [if_pos rfl, held, Option.map_some, Option.map_some, if_neg plain] at after
      cases after
      have whole : UniqueIds h := by
        have found : (padding e owner h).asset.graph? owner = some h := by
          rw [padding, graph_modifyGraph, if_pos rfl, held, Option.map_some]
        exact identified_unique identified found
      have beside := beside_of_padded padded whole (closed_of_ordered (closed owner _ order))
      obtain ⟨ordered, unsorted⟩ := ordered_beside beside
      refine ⟨_, order, ordered, fun n member added => ⟨unsorted n member added, ?_⟩⟩
      rw [sortedKinds e before]
      exact flow
    · rw [if_neg here, ← order] at after
      have unique := identified_unique (rearranged_identified (rearranged_sorted e.asset) before) after
      refine ⟨k, after, beside_refl unique (closed owner k after), fun n member added => ?_⟩
      rw [hasNode_iff.mpr ⟨n, member, rfl⟩] at added
      cases added
  · rw [← padding_sort, sortedKinds _ identified, sortedKinds _ before, isContainer, isContainer, kinds owner nested]

/-- If an asset compiles, and compiles again with further nodes and links in one of its dataflow graphs, the
prototypes are the same. The nodes and links can be anywhere in the lists, and the nodes of any type and owners of
graphs; they end no graph, stand for no local variable and are linked among themselves only. -/
theorem dead_nodes_leave_no_trace (identified : Identified (padding e place h).asset)
    (held : e.asset.graph? place = some g) (padded : Padded g h)
    (noMachine : e.asset.ownerKind? place ≠ some .stateMachine)
    (noBlend : e.asset.ownerKind? place ≠ some .blendSpace) {first second : CompileSession} {p q : Prototype}
    (ran : (e.compile first).2.1 = .ok p) (rerun : ((padding e place h).compile second).2.1 = .ok q) : p = q := by
  obtain ⟨valid, lowered⟩ := compile_ok_iff.mp ran
  obtain ⟨-, relowered⟩ := compile_ok_iff.mp rerun
  have flow : e.isContainer place = false := by
    rw [isContainer]
    split
    · contradiction
    · contradiction
    · rfl
  have closed : ∀ owner k, e.sort.asset.graph? owner = some k → Closed k := fun owner k found =>
    closed_of_valid (graphReport_errors_eq_nil_iff.mp (validate_errors_eq_nil_iff.mp valid owner k found)).2.2.2
  have spread := spread_sorted identified held padded flow closed
  have size : (padding e place h).sort.asset.graphs.size = e.sort.asset.graphs.size := by
    have sorted (a : Asset) : a.sorted.graphs.size = a.graphs.size := by
      have owners := congrArg List.length (rearranged_owners (rearranged_sorted a))
      simpa [Asset.owners, Table.keys, Table.size] using owners.symm
    calc (padding e place h).sort.asset.graphs.size = (padding e place h).asset.graphs.size := sorted _
      _ = e.asset.graphs.size := List.length_map _
      _ = e.sort.asset.graphs.size := (sorted _).symm
  have without : e.sort.lower.result = .ok q := by
    rw [padding_sort] at relowered
    refine lowered_beside spread (.inl rfl) ?_
    rw [← size]
    exact relowered
  exact Except.ok.inj (lowered.symm.trans without)

private def adder (id : Nat) : Node :=
  ((Template.binary "Add (Float)" Template.mathColor .float .float).withFreshIds id).1

private def ending (id : Nat) : Node :=
  (({ Node.ofName "Output" Template.outputColor with inputs := [.input "Height" .float] }).withFreshIds id).1

private def wire (id source target : Nat) : Link := ⟨⟨id⟩, ⟨source⟩, ⟨target⟩, PinType.float.color⟩

/-- A sum goes to the output. -/
def sum : SubGraph := ⟨[adder 10, ending 20], [wire 2 13 21]⟩

/-- Before, between and after the nodes there are a comment and two more sums, one of which feeds the other. -/
def cluttered : SubGraph :=
  ⟨[adder 5, adder 10, { Template.comment with id := ⟨30⟩ }, ending 20, adder 40], [wire 1 43 6, wire 2 13 21]⟩

/-- The asset with the sum at its top level. -/
def summing : Editor := .ofAsset { Asset.ofName "Wave" ⟨1⟩ with graphs := Table.empty.insert .root sum }

/-- The comment and the sums that nothing uses are not in the prototype, and the other sum is. -/
theorem clutter_leaves_no_trace : Padded sum cluttered ∧ Identified (padding summing .root cluttered).asset ∧
    ∃ p, (summing.compile .empty).2.1 = .ok p ∧ ((padding summing .root cluttered).compile .empty).2.1 = .ok p ∧
      p.nodes.map RuntimeNode.id = [⟨10⟩] := by
  have identified : Identified (padding summing .root cluttered).asset := ⟨by decide +kernel, by decide +kernel⟩
  have nodes : Inserted (fun n => sum.hasNode n.id = false ∧ Idle n) sum.nodes cluttered.nodes :=
    .insert ⟨rfl, by decide, by decide, rfl⟩ <| .keep _ <| .insert ⟨rfl, by decide, by decide, rfl⟩ <| .keep _ <|
      .insert ⟨rfl, by decide, by decide, rfl⟩ .nil
  have links : Inserted (Aside sum cluttered) sum.links cluttered.links := by
    have apart : Aside sum cluttered (wire 1 43 6) := by
      unfold Aside
      decide
    exact .insert apart (.keep _ .nil)
  have sound : (summing.sort.validate.errors.isEmpty &&
      summing.sort.lower.result.toOption.any fun p => p.nodes.map RuntimeNode.id == [⟨10⟩]) = true := by
    rw [IndexRanks.sortByInsertion.2]
    decide +kernel
  have alsoSound : ((padding summing .root cluttered).sort.validate.errors.isEmpty &&
      (padding summing .root cluttered).sort.lower.result.toOption.any fun _ => true) = true := by
    rw [IndexRanks.sortByInsertion.2]
    decide +kernel
  obtain ⟨p, ran, emitted⟩ := compile_of_check .empty sound
  obtain ⟨q, rerun, -⟩ := compile_of_check .empty alsoSound
  have same : p = q := dead_nodes_leave_no_trace identified rfl ⟨nodes, links⟩ (by decide) (by decide) ran rerun
  exact ⟨⟨nodes, links⟩, identified, p, ran, same ▸ rerun, beq_iff_eq.mp emitted⟩

end PoseGraph.DeadNodes
