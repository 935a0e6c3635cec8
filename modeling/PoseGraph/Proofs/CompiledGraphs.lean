import PoseGraph.Proofs.ConnectionOrder
import PoseGraph.Proofs.LinkInvariant
import PoseGraph.Proofs.VariableChains

/-! The graphs from which prototypes are made. Each is a graph of the asset, put into
order; where the owner is no container, both ends of a link have a place or neither
has. In an editor that careful callers reach, the exemptions of what is sound do not
touch these graphs: their owners are the root and nodes that own a graph, and
validation admits neither an input that is fed nor a second output. -/
namespace PoseGraph.CompiledGraphs
open AssetOrder Editor EditorCoherence EditorSoundness EditRuns GraphDependencies GraphWiring LinkInvariant LinkOrder
  LoweringSemantics NodeCraft NodeFrames ReachableEditors Rearrangement SheddingEdits Validity VariableChains

variable {a b : Asset} {e : Editor} {g h : SubGraph} {m n producer d : Node} {start finish s : Pin} {l : Link}
variable {owner id : NodeId} {p q : Prototype} {c : Connection} {session : CompileSession} {container : Bool}

/-! ## Prototypes of graphs -/

/-- A prototype is what the graph of an owner is lowered to. -/
structure Compiled (e : Editor) (owner : NodeId) (g : SubGraph) (q : Prototype) : Prop where
  held : e.asset.graph? owner = some g
  nodes : ∃ depth, List.Forall₂ (Lowers e depth) (g.nodes.filter (Node.isEmitted · (e.isContainer owner))) q.nodes
  links : (e.lowerLinks g (e.isContainer owner) q.id).result = .ok q.connections
  outputs : q.outputs = e.lowerOutputs g

/-- Every prototype in the tree is made from a graph of the sorted asset. -/
theorem compiled_of_emits (ran : (e.compile session).2.1 = .ok p) (emits : Emits p owner q) :
    ∃ g, Compiled e.sort owner g q := by
  obtain ⟨-, lowered⟩ := compile_ok_iff.mp ran
  obtain ⟨depth, self, name, lowered⟩ := emits_lowered lowered emits
  cases depth with
  | zero => exact absurd lowered lowerWithin_zero
  | succ depth =>
    obtain ⟨g, held, nodes, connections, each, links, rfl⟩ := lowerWithin_ok_iff.mp lowered
    exact ⟨g, held, ⟨depth, each⟩, links, rfl⟩

theorem runtime_id_iff (compiled : Compiled e owner g q) : id ∈ q.nodes.map RuntimeNode.id ↔
    ∃ n ∈ g.nodes, n.isEmitted (e.isContainer owner) = true ∧ n.id = id := by
  obtain ⟨depth, each⟩ := compiled.nodes
  simp only [lowered_ids each, List.mem_map, List.mem_filter, and_assoc]

/-- What makes a node a runtime node. -/
theorem emitted_iff : n.isEmitted container = true ↔ n.isLocalVariable = false ∧ n.isComment = false ∧
    n.name ≠ "Input Action" ∧ n.name ≠ "Input" ∧ ¬Ends n ∧ (container = true ∨ n.isSorted = true) := by
  simp [Node.isEmitted, boundaryNames, Ends, and_assoc]

/-- A compilation that succeeds as far as it is computed without its session. -/
theorem compile_of_check (session : CompileSession) {test : Prototype → Bool}
    (sound : (e.sort.validate.errors.isEmpty && e.sort.lower.result.toOption.any test) = true) :
    ∃ p, (e.compile session).2.1 = .ok p ∧ test p = true := by
  obtain ⟨valid, checked⟩ := Bool.and_eq_true_iff.mp sound
  obtain ⟨p, lowered, passes⟩ := (Option.any_eq_true _ _).mp checked
  have made : e.sort.lower.result = .ok p := by
    cases made : e.sort.lower.result with
    | error error => simp [made, Except.toOption] at lowered
    | ok r => simpa [made, Except.toOption] using lowered
  exact ⟨p, compile_ok_iff.mpr ⟨by simpa using valid, made⟩, passes⟩

/-- The graphs that are compiled belong to the root and to nodes that own a graph. -/
theorem emits_owner (ran : (e.compile session).2.1 = .ok p) (emits : Emits p owner q) :
    owner = .root ∨ ∃ n ∈ allNodes e.sort.asset, n.id = owner ∧ n.isSubroutine = true := by
  cases emits with
  | top => exact .inl rfl
  | @nested owner q r n outer member body =>
    obtain ⟨g, compiled⟩ := compiled_of_emits ran outer
    obtain ⟨depth, each⟩ := compiled.nodes
    obtain ⟨m, inside, lowers⟩ := origin_of_mem each member
    refine .inr ⟨m, mem_allNodes.mpr ⟨owner, g, compiled.held, (List.mem_filter.mp inside).1⟩, lowers.id.symm, ?_⟩
    by_contra simple
    have none := lowers.body
    rw [if_neg simple, body] at none
    cases none

/-! ## Graphs in order -/

theorem alike_node (alike : Alike g h) (unique : UniqueIds g) (id : NodeId) :
    (g.node? id).map bare = (h.node? id).map bare := by
  have forward {g h : SubGraph} {n : Node} (alike : Alike g h) (unique : UniqueIds h) (found : g.node? id = some n) :
      ∃ m, h.node? id = some m ∧ bare m = bare n := by
    have named : n.id = id := by simpa using List.find?_some found
    obtain ⟨m, inside, same⟩ := counterpart alike (List.mem_of_find?_eq_some found)
    have also : m.id = id := (same_id same).trans named
    refine ⟨m, find_unique inside (by simpa using also) fun k inK passes => ?_, same⟩
    exact node_eq_of_id unique inK inside ((by simpa using passes : k.id = id).trans also.symm)
  cases left : g.node? id with
  | some n =>
    obtain ⟨m, found, same⟩ := forward alike (alike_unique alike unique) left
    rw [found, Option.map_some, Option.map_some, same]
  | none =>
    cases right : h.node? id with
    | none => rfl
    | some m =>
      obtain ⟨n, found, -⟩ := forward (alike_symm alike) unique right
      rw [left] at found
      cases found

section Ordered
variable (unique : ∀ owner g, a.graph? owner = some g → UniqueIds g)
include unique

/-- It is enough that the nodes of each graph are told apart: a search takes the
graphs in one order, whatever the order of their nodes. -/
theorem findNode_rearranged (related : Rearranged a b) (id : NodeId) :
    (a.findNode? id).map bare = (b.findNode? id).map bare := by
  have search {xs ys : List (NodeId × SubGraph)}
      (graphs : List.Forall₂ (fun e f => e.1 = f.1 ∧ Alike e.2 f.2) xs ys) (apart : ∀ e ∈ xs, UniqueIds e.2) :
      ((xs.map Prod.snd).findSome? (·.node? id)).map bare = ((ys.map Prod.snd).findSome? (·.node? id)).map bare := by
    induction graphs with
    | nil => rfl
    | @cons e f xs ys head tail ih =>
      obtain ⟨first, rest⟩ := List.forall_mem_cons.mp apart
      have here := alike_node head.2 first id
      rw [List.map_cons, List.map_cons, List.findSome?_cons, List.findSome?_cons]
      cases left : e.2.node? id <;> cases right : f.2.node? id <;> simp only [left, right] at here
      · exact ih rest
      · cases here
      · cases here
      · exact here
  exact search related.graphs fun entry inside => unique entry.1 entry.2 (get_eq_some_iff.mpr inside)

theorem ownerKind_rearranged (related : Rearranged a b) (owner : NodeId) : a.ownerKind? owner = b.ownerKind? owner := by
  have kinds := congrArg (Option.map Node.kind) (findNode_rearranged unique related owner)
  have blind : Node.kind ∘ bare = Node.kind := rfl
  rw [Option.map_map, Option.map_map, blind] at kinds
  rw [Asset.ownerKind?, Asset.ownerKind?, kinds]

/-- Every graph of a sorted asset is one of the asset, in another order. It is in
evaluation order unless its owner is a state machine. -/
theorem graph_of_sorted (held : a.sorted.graph? owner = some h) : ∃ g, a.graph? owner = some g ∧ Alike g h ∧
    (a.sorted.ownerKind? owner = some .stateMachine ∨ h = g.inEvaluationOrder) := by
  have settled : Settled a owner (a.ownerKind? owner = some .stateMachine) := fun b related => by
    rw [ownerKind_rearranged unique related]
  rw [sorted_graph settled] at held
  obtain ⟨g, found, same⟩ := Option.map_eq_some_iff.mp held
  refine ⟨g, found, ?_⟩
  rw [← ownerKind_rearranged unique (rearranged_sorted a)]
  split at same
  · rename_i machine
    exact ⟨same ▸ alike_entryFirst g, .inl machine⟩
  · exact ⟨same ▸ alike_inEvaluationOrder g, .inr same.symm⟩

end Ordered

/-- A graph in which places go along links: either all nodes count, or the graph is
in evaluation order. -/
structure Staged (container : Bool) (h : SubGraph) : Prop where
  unique : UniqueIds h
  directed : Directed h
  setters : OneSetter h
  ordered : container = true ∨ ∃ g, UniqueIds g ∧ Directed g ∧ OneSetter g ∧ h = g.inEvaluationOrder

section Staged
variable (staged : Staged container g)
include staged

/-- The link of a connection starts at an output. -/
theorem joined_start (link : l ∈ g.links) (joined : Joined g container l start producer finish d) :
    producer ∈ g.nodes ∧ start ∈ producer.outputs :=
  start_output staged.unique staged.directed link joined.starts joined.produces

/-- The link of a connection ends at an input. -/
theorem joined_finish (link : l ∈ g.links) (joined : Joined g container l start producer finish d) :
    d ∈ g.nodes ∧ finish ∈ d.inputs :=
  finish_input staged.unique staged.directed link joined.ends joined.consumes

/-- A link into a node that counts comes from a node that counts. -/
theorem link_counted (link : l ∈ g.links) (left : producer ∈ g.nodes) (right : d ∈ g.nodes)
    (starts : producer.hasPin l.source = true) (ends : d.hasPin l.target = true)
    (counts : container = true ∨ d.isSorted = true) : container = true ∨ producer.isSorted = true := by
  rcases staged.ordered with whole | ⟨h, unique, directed, setters, rfl⟩
  · exact .inl whole
  · exact counts.imp_right (ordered_link unique directed setters link left right starts ends).2.1.mpr

/-- The way back from a node that counts ends at a node that counts. -/
theorem leads_counted (leads : LeadsBack g n start m s) (member : n ∈ g.nodes)
    (counts : container = true ∨ n.isSorted = true) : container = true ∨ m.isSorted = true := by
  rcases staged.ordered with whole | ⟨h, unique, directed, setters, rfl⟩
  · exact .inl whole
  · exact counts.imp_right (leads_sorted unique directed setters leads member)

/-- Where a link is led back to, there is an output of a node that counts. -/
theorem joined_origin (link : l ∈ g.links) (joined : Joined g container l start producer finish d)
    (leads : LeadsBack g producer start m s) :
    m ∈ g.nodes ∧ s ∈ m.outputs ∧ m.isLocalVariable = false ∧ (container = true ∨ m.isSorted = true) := by
  obtain ⟨member, output⟩ := joined_start staged link joined
  obtain ⟨inside, fed, plain⟩ := leads_output staged.unique staged.directed leads member output
  exact ⟨inside, fed, plain, leads_counted staged leads member (joined.placed.imp_right And.left)⟩

end Staged

/-! ## Graphs that careful callers reach -/

theorem directed_of_wired (wired : Wired g) : Directed g := by
  intro l link
  obtain ⟨m, inM, p, output, n, inN, q, input, source, target, -⟩ := wired.joins l link
  exact ⟨⟨m, inM, p, output, source⟩, n, inN, q, input, target⟩

/-- A graph as it is lowered in the editor of a careful caller. -/
structure Vetted (e : Editor) (owner : NodeId) (g : SubGraph) : Prop where
  staged : Staged (e.isContainer owner) g
  wired : Wired g
  crafted : ∀ n ∈ g.nodes, Crafted n
  closed : ∀ n ∈ g.nodes, Sealed n
  entries : ∀ n ∈ g.nodes, n.name = "Input" → n.inputs = []
  drawn : ∀ n ∈ g.nodes, n.id ≠ .root
  single : ∀ m ∈ g.nodes, ∀ n ∈ g.nodes, m.name = "Output" → n.name = "Output" → m = n

/-- Validation knows the node of an input by its having no inputs. -/
theorem entry_inputs (titled : Titled n) (named : n.name = "Input") (known : e.isKnown n = true) : n.inputs = [] := by
  have category : n.category = "Input" := titled.entry named
  have foreign : Palette.isRuntimeType "Input" = false := by decide +kernel
  have property : e.asset.isPropertyNode n = true := by
    simpa [isKnown, named, foreign, structuralNames] using known
  obtain ⟨kind, -, stands⟩ := List.any_eq_true.mp property
  obtain ⟨p, -, stands⟩ := (Option.any_eq_true _ _).mp stands
  obtain ⟨-, stands⟩ := Bool.and_eq_true_iff.mp stands
  rw [Asset.standsFor, category] at stands
  cases kind with
  | input =>
    by_contra fed
    simp [Asset.propertyPin?, fed] at stands
  | output => simp [PropertyKind.token] at stands
  | localVariable => simp [PropertyKind.token] at stands

theorem vetted_of_emits (reachable : Reachable Careful e) (ran : (e.compile session).2.1 = .ok p)
    (emits : Emits p owner q) (compiled : Compiled e.sort owner g q) : Vetted e.sort owner g := by
  have coherent := coherent_reachable reachable
  have sound := declared_reachable reachable
  have sorted := sound_sheds sound (sheds_sort e)
  have firm := coherent_sort coherent
  have identified := identified_of_coherent firm
  obtain ⟨valid, -⟩ := compile_ok_iff.mp ran
  have held := compiled.held
  have whole (n : Node) (member : n ∈ g.nodes) : n ∈ allNodes e.sort.asset := mem_allNodes.mpr ⟨owner, g, held, member⟩
  have crafted (n : Node) (member : n ∈ g.nodes) : Crafted n := firm.crafted n (whole n member)
  have wired : Wired g := graphOf_eq held ▸ sorted.wired owner
  refine ⟨⟨identified_unique identified held, directed_of_wired wired, graphOf_eq held ▸ sorted.setters owner, ?_⟩,
    wired, crafted, ?_, fun n member named => ?_, fun n member root => ?_, fun m inM n inN first second => ?_⟩
  · obtain ⟨h, before, -, order⟩ := graph_of_sorted
      (fun _ _ => identified_unique (identified_of_coherent coherent)) held
    rcases order with machine | ordered
    · exact .inl (by rw [isContainer, show e.sort.asset.ownerKind? owner = _ from machine])
    · exact .inr ⟨h, identified_unique (identified_of_coherent coherent) before,
        directed_of_wired (graphOf_eq before ▸ sound.wired owner), graphOf_eq before ▸ sound.setters owner, ordered⟩
  · rcases sorted.closed owner with closed | ⟨nested, -, exempt⟩
    · exact graphOf_eq held ▸ closed
    · obtain ⟨n, member, named, owns⟩ := (emits_owner ran emits).resolve_left nested
      exact absurd (exempt n member named) ((firm.crafted n member).ordinary (.inr owns))
  · have report := graphReport_errors_eq_nil_iff.mp (validate_errors_eq_nil_iff.mp valid owner g held)
    cases comment : n.isComment with
    | false =>
      have known := (nodeErrors_eq_nil_iff.mp (report.1 n member comment)).1
      exact entry_inputs (sorted.made n (whole n member)).titled named known
    | true => exact (List.append_eq_nil_iff.mp ((crafted n member).comment comment).1).1
  · have positive := (node_drawn firm (whole n member)).1
    rw [root] at positive
    exact absurd positive (by decide)
  · have plain : PlainComments e.sort.asset := fun k member comment named => by
      have title := ((firm.crafted k member).comment comment).2
      rw [named] at title
      exact absurd title (by decide)
    have few := (orderly_of_valid plain valid).single owner g held
    have left : m ∈ g.nodes.filter (·.name == "Output") := List.mem_filter.mpr ⟨inM, by simpa using first⟩
    have right : n ∈ g.nodes.filter (·.name == "Output") := List.mem_filter.mpr ⟨inN, by simpa using second⟩
    obtain ⟨i, boundI, rfl⟩ := List.mem_iff_getElem.mp left
    obtain ⟨j, boundJ, rfl⟩ := List.mem_iff_getElem.mp right
    congr
    omega

/-! ## Connections -/

/-- The end of a connection that reads a pin: inputs of the asset are known by the
prototype. -/
def origin (self : NodeId) (m : Node) (s : Pin) : ConnectionEnd :=
  if m.name = "Input" then ⟨self, .ofProperty s.name⟩ else ⟨m.id, .ofPin s.name⟩

/-- What a link is turned into if it is led back to a node. -/
structure Conveys (prototype : NodeId) (m : Node) (s : Pin) (d : Node) (finish : Pin) (c : Connection) : Prop where
  source : c.source = origin prototype m s
  output : d.name = "Output" → c.destination = ⟨.root, .ofProperty finish.name⟩
  event : d.name = "Event" → c.destination.node = prototype
  inside : ¬Ends d → c.destination = ⟨d.id, .ofPin finish.name⟩

theorem conveys_of_connect {self : NodeId} (made : connect self m s d finish = .ok c) : Conveys self m s d finish c := by
  rw [connect] at made
  have source : origin self m s =
      if (m.name == "Input") = true then ⟨self, .ofProperty s.name⟩ else ⟨m.id, .ofPin s.name⟩ := by
    simp [origin]
  split at made
  · rename_i output
    cases made
    exact ⟨source.symm, fun _ => rfl, fun event => absurd (output.symm.trans event) (by decide),
      fun inside => absurd (.inl output) inside⟩
  · rename_i notOutput
    split at made
    · rename_i event
      have ends (inside : ¬Ends d) : c.destination = ⟨d.id, .ofPin finish.name⟩ := absurd (.inr event) inside
      split at made
      · rename_i input
        cases made
        exact ⟨(source.trans (if_pos input)).symm, fun output => absurd output notOutput, fun _ => rfl, ends⟩
      · rename_i notInput
        split at made
        · cases made
        · cases made
          exact ⟨(source.trans (if_neg notInput)).symm, fun output => absurd output notOutput, fun _ => rfl, ends⟩
    · rename_i notEvent
      cases made
      exact ⟨source.symm, fun output => absurd output notOutput, fun event => absurd event notEvent, fun _ => rfl⟩

/-- What a link is turned into if it reads a variable that nothing feeds. -/
structure Reads (prototype : NodeId) (d : Node) (finish : Pin) (c : Connection) : Prop where
  source : c.source.node = prototype
  output : d.name = "Output" → c.destination = ⟨.root, .ofProperty finish.name⟩
  inside : d.name ≠ "Output" → c.destination = ⟨d.id, .ofPin finish.name⟩
  kind : c.kind = .localVariableToGraphValue ∨ c.kind = .localVariableToNodeValue

theorem reads_of_connectVariable {self : NodeId}
    (made : (e.connectVariable g self producer start d finish).result = .ok (some c)) :
    start.isFlow = false ∧ Reads self d finish c := by
  rw [connectVariable] at made
  split at made
  · cases made
  · rename_i plain
    refine ⟨by simpa using plain, ?_⟩
    have same := Option.some.inj (pure_ok.mp made)
    subst same
    split
    · rename_i output
      exact ⟨rfl, fun _ => rfl, fun other => absurd output other, .inl rfl⟩
    · rename_i other
      exact ⟨rfl, fun output => absurd output other, fun _ => rfl, .inr rfl⟩

/-- The link of a connection, and what became of it. -/
theorem link_of_compiled (compiled : Compiled e owner g q) (staged : Staged (e.isContainer owner) g)
    (member : c ∈ q.connections) : ∃ l ∈ g.links, ∃ start producer finish d,
      Joined g (e.isContainer owner) l start producer finish d ∧
        (e.lowerLink g (e.isContainer owner) q.id l).result = .ok (some c) ∧
        (((¬∃ m s, LeadsBack g producer start m s) ∧ start.isFlow = false ∧ Reads q.id d finish c) ∨
          ∃ m s, LeadsBack g producer start m s ∧ m.name ≠ "Input Action" ∧
            connect q.id m s d finish = .ok c) := by
  obtain ⟨l, link, lowered⟩ := link_of_connection compiled.links member
  obtain ⟨start, producer, finish, d, joined, outcome⟩ := lowerLink_ok_some_iff.mp lowered
  have inside := (joined_start staged link joined).1
  refine ⟨l, link, start, producer, finish, d, joined, lowered, ?_⟩
  rcases outcome with ⟨unfed, read⟩ | ⟨m, s, led, allowed, made⟩
  · exact .inl ⟨(resolve_eq_none_iff inside).mp unfed, reads_of_connectVariable read⟩
  · exact .inr ⟨m, s, (resolve_eq_some_iff inside).mp led, allowed, made⟩

end PoseGraph.CompiledGraphs
