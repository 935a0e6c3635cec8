import PoseGraph.Proofs.AssetOrder
import PoseGraph.Proofs.LoweringSemantics

/-! The order of a compiled graph. A connection between two nodes need not be a
link of the graph: it can pass through any number of variables. Each variable on
the way has one place, and every link on the way leads to a later one. -/
namespace PoseGraph.ConnectionOrder
open GraphDependencies IndexRanks LinkOrder Rearrangement AssetOrder LoweringSemantics SubGraph

variable {e : Editor} {a : Asset} {g : SubGraph} {m n d : Node} {start s finish : Pin} {hops : Nat}
variable {owner self : NodeId} {p q : Prototype} {session : CompileSession} {c : Connection} {l : Link}

/-- A dataflow graph without cycles, in which the nodes at its boundary have
links on their inner side only. -/
structure Pipeline (g : SubGraph) : Prop where
  unique : UniqueIds g
  directed : Directed g
  setters : OneSetter g
  comments : ∀ n ∈ g.nodes, n.isComment = true → n.pins = []
  entries : ∀ n ∈ g.nodes, n.name = "Input" ∨ n.name = "Input Action" → n.inputs = []
  exits : ∀ n ∈ g.nodes, n.name = "Output" ∨ n.name = "Event" → n.outputs = []
  acyclic : Acyclic g

/-- The graph of an owner is neither a state machine nor a blend space. -/
def Flows (a : Asset) (owner : NodeId) : Prop :=
  owner = .root ∨ ∀ n ∈ allNodes a, n.id = owner → n.kind ≠ .stateMachine ∧ n.kind ≠ .blendSpace

/-! ## The graph that is lowered -/

/-- What a dataflow graph becomes when its asset is put into order. -/
theorem flow_sorted (flows : Flows a owner) (held : a.graph? owner = some g) :
    a.sorted.graph? owner = some g.inEvaluationOrder := by
  have settled : Settled a owner False := by
    refine fun b related => iff_false_intro fun machine => ?_
    obtain ⟨nested, n, member, same, kind⟩ := ownerKind_origin related machine
    rcases flows with root | others
    · exact nested root
    · exact (others n member same).1 kind
  rw [sorted_graph settled, held]
  rfl

theorem flow_not_container (flows : Flows e.asset owner) : e.sort.isContainer owner = false := by
  have kinds (kind : NodeKind) (owned : e.sort.asset.ownerKind? owner = some kind) :
      kind ≠ .stateMachine ∧ kind ≠ .blendSpace := by
    obtain ⟨nested, n, member, same, rfl⟩ := ownerKind_origin (rearranged_sorted e.asset) owned
    rcases flows with root | others
    · exact absurd root nested
    · exact others n member same
  rw [Editor.isContainer]
  split
  · rename_i owned
    exact absurd rfl (kinds _ owned).1
  · rename_i owned
    exact absurd rfl (kinds _ owned).2
  · rfl

theorem ordered_directed (directed : Directed g) : Directed g.inEvaluationOrder := by
  have node {n : Node} (member : n ∈ g.nodes) : placed g n ∈ g.inEvaluationOrder.nodes :=
    mem_ordered_nodes.mpr ⟨n, member, rfl⟩
  intro l link
  obtain ⟨⟨m, inM, p, output, source⟩, n, inN, q, input, target⟩ := directed l (mem_ordered_links.mp link)
  exact ⟨⟨_, node inM, p, output, source⟩, _, node inN, q, input, target⟩

/-! ## Following variables back -/

/-- What feeds a sorted node that is led back through variables stands at or
before the node's place, and is the source of a link. -/
theorem resolved_before (pipeline : Pipeline g) (member : n ∈ g.inEvaluationOrder.nodes)
    (has : n.hasPin start.id = true) (sorted : n.isSorted = true)
    (feeds : ∃ l ∈ g.inEvaluationOrder.links, l.source = start.id)
    (led : g.inEvaluationOrder.resolveWithin hops n start = some (m, s)) :
    m ∈ g.inEvaluationOrder.nodes ∧ m.hasPin s.id = true ∧ m.isLocalVariable = false ∧
      m.isSorted = true ∧ m.sortIndex ≤ n.sortIndex ∧
      ∃ l ∈ g.inEvaluationOrder.links, l.source = s.id := by
  induction hops generalizing n start with
  | zero =>
    rw [resolveWithin] at led
    split at led
    · cases led
    · rename_i plain
      cases led
      exact ⟨member, has, by simpa using plain, sorted, Int.le_refl _, feeds⟩
  | succ hops ih =>
    rw [resolveWithin] at led
    split at led
    · obtain ⟨name, named, rest⟩ := Option.bind_eq_some_iff.mp led
      obtain ⟨producer, fed, rest⟩ := Option.bind_eq_some_iff.mp rest
      obtain ⟨k, holder, led⟩ := Option.bind_eq_some_iff.mp rest
      obtain ⟨setter, inSetter, -, setterNamed, l, link, ends, source⟩ := source_spec fed
      obtain ⟨inK, kHas⟩ := nodeOfPin_spec holder
      obtain ⟨feeder, both, order⟩ := ordered_link pipeline.unique pipeline.directed pipeline.setters link inK
        inSetter (source ▸ kHas) ends
      have place := ordered_twins pipeline.unique member inSetter
        (sameVariable_iff.mpr ⟨name, named, setterNamed⟩)
      have setterSorted : setter.isSorted = true := by rwa [Node.isSorted, ← place]
      have kSorted := both.mpr setterSorted
      obtain ⟨inM, mHas, plain, mSorted, before, link⟩ := ih inK kHas kSorted ⟨l, link, source⟩ led
      have later := (order kSorted).resolve_right (pipeline.acyclic _ _ feeder)
      refine ⟨inM, mHas, plain, mSorted, ?_, link⟩
      omega
    · rename_i plain
      cases led
      exact ⟨member, has, by simpa using plain, sorted, Int.le_refl _, feeds⟩

/-! ## Connections between nodes -/

/-- A connection between two runtime nodes joins two nodes of the graph, neither of
which is at its boundary in that direction. -/
theorem connect_between_nodes (made : Editor.connect self m s d finish = .ok c)
    (kind : c.kind = .nodeValueToNodeValue ∨ c.kind = .nodeEventToNodeEvent) :
    c.source.node = m.id ∧ c.destination.node = d.id ∧ m.name ≠ "Input" ∧ d.name ≠ "Output" ∧
      d.name ≠ "Event" := by
  rw [Editor.connect] at made
  by_cases input : m.name = "Input"
  · simp only [input, beq_self_eq_true, ↓reduceIte] at made
    split at made
    · cases made
      simp at kind
    · split at made
      · cases made
        simp at kind
      · cases made
        cases flow : s.isFlow <;> simp [flow] at kind
  · have notInput : (m.name == "Input") = false := by simpa using input
    simp only [notInput, Bool.false_eq_true, ↓reduceIte] at made
    split at made
    · cases made
      simp at kind
    · rename_i notOutput
      split at made
      · split at made
        · cases made
        · cases made
          simp at kind
      · rename_i notEvent
        cases made
        exact ⟨rfl, rfl, input, notOutput, notEvent⟩

/-- A node at which a link starts is not at the end of the graph. -/
theorem producer_inside (pipeline : Pipeline g) (member : n ∈ g.inEvaluationOrder.nodes)
    (link : l ∈ g.inEvaluationOrder.links) (has : n.hasPin l.source = true) :
    n.isComment = false ∧ n.name ≠ "Output" ∧ n.name ≠ "Event" := by
  obtain ⟨⟨m, inM, p, output, source⟩, -⟩ := ordered_directed pipeline.directed l link
  have mHas : m.hasPin l.source = true := hasPin_iff.mpr ⟨p, List.mem_append_right _ output, source⟩
  obtain rfl := node_eq_of_pin (alike_unique (alike_inEvaluationOrder g) pipeline.unique) inM member mHas has
  obtain ⟨k, inK, rfl⟩ := mem_ordered_nodes.mp inM
  have outputs : k.outputs ≠ [] := List.ne_nil_of_mem output
  refine ⟨?_, fun named => outputs (pipeline.exits k inK (.inl named)),
    fun named => outputs (pipeline.exits k inK (.inr named))⟩
  cases comment : (placed g k).isComment with
  | false => rfl
  | true => exact absurd (List.append_eq_nil_iff.mp (pipeline.comments k inK comment)).2 outputs

/-- A node at which a link ends is not at the beginning of the graph. -/
theorem consumer_inside (pipeline : Pipeline g) (member : n ∈ g.inEvaluationOrder.nodes)
    (link : l ∈ g.inEvaluationOrder.links) (has : n.hasPin l.target = true) :
    n.isComment = false ∧ n.name ≠ "Input" ∧ n.name ≠ "Input Action" := by
  obtain ⟨-, m, inM, p, input, target⟩ := ordered_directed pipeline.directed l link
  have mHas : m.hasPin l.target = true := hasPin_iff.mpr ⟨p, List.mem_append_left _ input, target⟩
  obtain rfl := node_eq_of_pin (alike_unique (alike_inEvaluationOrder g) pipeline.unique) inM member mHas has
  obtain ⟨k, inK, rfl⟩ := mem_ordered_nodes.mp inM
  have inputs : k.inputs ≠ [] := List.ne_nil_of_mem input
  refine ⟨?_, fun named => inputs (pipeline.entries k inK (.inl named)),
    fun named => inputs (pipeline.entries k inK (.inr named))⟩
  cases comment : (placed g k).isComment with
  | false => rfl
  | true => exact absurd (List.append_eq_nil_iff.mp (pipeline.comments k inK comment)).1 inputs

/-- The two nodes of a connection are emitted, the source before the destination. -/
theorem connection_before (pipeline : Pipeline g) (link : l ∈ g.inEvaluationOrder.links)
    (lowered : (e.lowerLink g.inEvaluationOrder false self l).result = .ok (some c))
    (kind : c.kind = .nodeValueToNodeValue ∨ c.kind = .nodeEventToNodeEvent) :
    [c.source.node, c.destination.node].Sublist
      ((g.inEvaluationOrder.nodes.filter (Node.isEmitted · false)).map Node.id) := by
  obtain ⟨start, producer, finish, d, joined, outcome⟩ := lowerLink_ok_some_iff.mp lowered
  obtain ⟨inProducer, producerHas⟩ := nodeOfPin_spec joined.produces
  obtain ⟨inD, dHas⟩ := nodeOfPin_spec joined.consumes
  obtain ⟨-, -, -, startId⟩ := pin_spec joined.starts
  obtain ⟨producerSorted, dSorted⟩ := joined.placed.resolve_left Bool.false_ne_true
  rcases outcome with ⟨-, read⟩ | ⟨m, s, led, notAction, made⟩
  · rw [Editor.connectVariable] at read
    split at read
    · cases read
    · have made := Option.some.inj (pure_ok.mp read)
      subst made
      split at kind <;> simp at kind
  · obtain ⟨sourceId, targetId, notInput, notOutput, notEvent⟩ := connect_between_nodes made kind
    obtain ⟨inM, mHas, plain, mSorted, before, k, inK, source⟩ := resolved_before pipeline inProducer
      (startId ▸ producerHas) producerSorted ⟨l, link, startId.symm⟩ led
    obtain ⟨mNoComment, mNotOutput, mNotEvent⟩ := producer_inside pipeline inM inK (source ▸ mHas)
    obtain ⟨dNoComment, dNotInput, dNotAction⟩ := consumer_inside pipeline inD link dHas
    obtain ⟨feeder, -, order⟩ := ordered_link pipeline.unique pipeline.directed pipeline.setters link
      inProducer inD producerHas dHas
    have later := (order producerSorted).resolve_right (pipeline.acyclic _ _ feeder)
    have mEmitted : m.isEmitted false = true := by
      simp [Node.isEmitted, boundaryNames, plain, mNoComment, notAction, notInput, mNotOutput, mNotEvent,
        mSorted]
    have dEmitted : d.isEmitted false = true := by
      simp [Node.isEmitted, boundaryNames, joined.unset, dNoComment, dNotAction, dNotInput, notOutput,
        notEvent, dSorted]
    have places := ordered_before inM inD mSorted dSorted (by omega)
    have kept := (places.filter (Node.isEmitted · false)).map Node.id
    rw [sourceId, targetId]
    simpa [mEmitted, dEmitted] using kept

/-- In the prototype of a dataflow graph without cycles, every connection between
two nodes leads from an earlier to a later one, also where the link that it stems
from reads a variable. -/
theorem connections_follow_nodes (ran : (e.compile session).2.1 = .ok p) (emits : Emits p owner q)
    (held : e.asset.graph? owner = some g) (flows : Flows e.asset owner) (pipeline : Pipeline g) :
    (q.nodes.map RuntimeNode.id).Nodup ∧ ∀ c ∈ q.connections,
      c.kind = .nodeValueToNodeValue ∨ c.kind = .nodeEventToNodeEvent →
        [c.source.node, c.destination.node].Sublist (q.nodes.map RuntimeNode.id) := by
  obtain ⟨-, lowered⟩ := compile_ok_iff.mp ran
  obtain ⟨depth, self, name, lowered⟩ := emits_lowered lowered emits
  cases depth with
  | zero => exact absurd lowered lowerWithin_zero
  | succ depth =>
    obtain ⟨h, at_h, nodes, connections, each, links, rfl⟩ := lowerWithin_ok_iff.mp lowered
    rw [show e.sort.asset.graph? owner = _ from flow_sorted flows held] at at_h
    cases at_h
    rw [flow_not_container flows] at each links
    have ids := lowered_ids each
    refine ⟨?_, fun c member kind => ?_⟩
    · have distinct := (alike_unique (alike_inEvaluationOrder g) pipeline.unique).nodes
      exact ids ▸ distinct.sublist (List.filter_sublist.map _)
    · obtain ⟨l, link, lowered⟩ := link_of_connection links member
      exact ids ▸ connection_before pipeline link lowered kind

/-- A sum that reaches a blend through two variables. -/
def relayed : SubGraph where
  nodes := [
    ((Template.binary "Add (Float)" Template.mathColor .float .float).withFreshIds 10).1,
    ({ Node.ofName "Sum" ⟨0, 0, 0⟩ with
      category := localVariableCategory, inputs := [.input "Sum" .float] }.withFreshIds 20).1,
    ({ Node.ofName "Sum" ⟨0, 0, 0⟩ with
      category := localVariableCategory, outputs := [.output "Sum" .float] }.withFreshIds 30).1,
    ({ Node.ofName "Copy" ⟨0, 0, 0⟩ with
      category := localVariableCategory, inputs := [.input "Copy" .float] }.withFreshIds 40).1,
    ({ Node.ofName "Copy" ⟨0, 0, 0⟩ with
      category := localVariableCategory, outputs := [.output "Copy" .float] }.withFreshIds 50).1,
    ((Template.blueprint "Pose Blend" [.input "Weight" .float] [.output "Pose" .pose]).withFreshIds 60).1,
    (Template.poseOutput.withFreshIds 70).1]
  links := [⟨⟨81⟩, ⟨13⟩, ⟨21⟩, ⟨0, 0, 0⟩⟩, ⟨⟨82⟩, ⟨31⟩, ⟨41⟩, ⟨0, 0, 0⟩⟩, ⟨⟨83⟩, ⟨51⟩, ⟨61⟩, ⟨0, 0, 0⟩⟩,
    ⟨⟨84⟩, ⟨62⟩, ⟨71⟩, ⟨0, 0, 0⟩⟩]

/-- An asset with that graph and its two variables. -/
def relayEditor : Editor :=
  .ofAsset { Asset.ofName "Relay" ⟨1⟩ with
    localVariables := (Table.empty.insert "Sum" (.float32 .zero)).insert "Copy" (.float32 .zero)
    graphs := Table.empty.insert .root relayed }

/-- The sum comes before the blend, although the link into the blend reads a variable. -/
theorem relayed_sum_before_blend : ∃ p, (relayEditor.compile .empty).2.1 = .ok p ∧
    [⟨10⟩, ⟨60⟩].Sublist (p.nodes.map RuntimeNode.id) := by
  have ranked : Acyclic relayed := acyclic_of_ranks
    (fun id => if id.value ≤ 10 then 0 else if id.value ≤ 30 then 1 else if id.value ≤ 50 then 2 else id.value)
    (by decide) (by decide)
  have pipeline : Pipeline relayed :=
    ⟨by decide, by decide, by decide, by decide, by decide, by decide, ranked⟩
  have sound : (relayEditor.sort.validate.errors.isEmpty && match relayEditor.sort.lower.result with
      | .ok p => p.connections.contains
          ⟨⟨⟨10⟩, .ofPin "Out"⟩, ⟨⟨60⟩, .ofPin "Weight"⟩, .nodeValueToNodeValue⟩
      | .error _ => false) = true := by
    unfold Editor.sort Asset.sorted Asset.sortGraph inEvaluationOrder walk sinks dependencies feedersOf
      consumersOf variableNodes leastSetter?
    simp only [applyIndices_eq, ranksOf, sortLinks_eq, sortIds_eq,
      mergeSort_eq_insertionSort byIndex_trans byIndex_total,
      mergeSort_eq_insertionSort byEnds_trans byEnds_total]
    decide +kernel
  obtain ⟨valid, connected⟩ := Bool.and_eq_true_iff.mp sound
  split at connected
  · rename_i p lowered
    have ran : (relayEditor.compile .empty).2.1 = .ok p := compile_ok_iff.mpr ⟨by simpa using valid, lowered⟩
    have order := (connections_follow_nodes ran .top (g := relayed) rfl (.inl rfl) pipeline).2
    exact ⟨p, ran, order _ (List.contains_iff_mem.mp connected) (.inl rfl)⟩
  · cases connected

end PoseGraph.ConnectionOrder
