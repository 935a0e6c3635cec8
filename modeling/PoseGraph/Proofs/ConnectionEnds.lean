import PoseGraph.Proofs.CompiledGraphs

/-! The two ends of a connection. A source is the prototype or one of its nodes:
nothing leaves the nodes at which a graph ends, and variables lead back to a node
that counts. A destination is an output of the prototype, the prototype or one of its
nodes, but for two kinds of nodes that are none at run time: an event that reads a
variable which nothing feeds, and a node of a variable called as input actions are. -/
namespace PoseGraph.ConnectionEnds
open CompiledGraphs EditRuns GraphDependencies IndexRanks LinkInvariant LoweringSemantics NodeCraft NodeFrames
  VariableChains

variable {e : Editor} {g : SubGraph} {m n d producer : Node} {s start finish : Pin} {l : Link} {c : Connection}
variable {owner : NodeId} {p q : Prototype} {session : CompileSession}

/-- Something is there at the end of a connection: an output of the prototype, the
prototype itself, or one of its nodes. -/
def Lands (q : Prototype) (finish : ConnectionEnd) : Prop :=
  finish.node = .root ∧ (∃ out ∈ q.outputs, out.id = finish.endpoint) ∨
    finish.node = q.id ∨ finish.node ∈ q.nodes.map RuntimeNode.id

/-- A node with pins is no annotation. -/
theorem pinned_no_comment (crafted : Crafted n) (held : s ∈ n.pins) : n.isComment = false := by
  by_contra comment
  exact List.ne_nil_of_mem held (crafted.comment (by simpa using comment)).1

section Ends
variable (compiled : Compiled e owner g q) (vetted : Vetted e owner g)
include compiled vetted

/-- A node from which a link is fed is a node of the prototype, unless its name is
that of inputs or of input actions. -/
theorem producer_emitted (inside : m ∈ g.nodes) (output : s ∈ m.outputs) (plain : m.isLocalVariable = false)
    (counts : e.isContainer owner = true ∨ m.isSorted = true) (notInput : m.name ≠ "Input")
    (notAction : m.name ≠ "Input Action") : m.id ∈ q.nodes.map RuntimeNode.id := by
  have noComment := pinned_no_comment (vetted.crafted m inside) (List.mem_append_right _ output)
  have within : ¬Ends m := fun ends => List.ne_nil_of_mem output ((vetted.closed m inside).outputs ends)
  exact (runtime_id_iff compiled).mpr
    ⟨m, inside, emitted_iff.mpr ⟨plain, noComment, notAction, notInput, within, counts⟩, rfl⟩

/-- A node at which a link ends is a node of the prototype, unless its name is that
of outputs, events or input actions. -/
theorem consumer_emitted_iff (inside : d ∈ g.nodes) (input : finish ∈ d.inputs) (unset : d.isLocalVariable = false)
    (counts : e.isContainer owner = true ∨ d.isSorted = true) :
    d.id ∈ q.nodes.map RuntimeNode.id ↔ ¬Ends d ∧ d.name ≠ "Input Action" := by
  rw [runtime_id_iff compiled]
  constructor
  · rintro ⟨n, inN, emitted, same⟩
    obtain rfl := node_eq_of_id vetted.staged.unique inN inside same
    obtain ⟨-, -, notAction, -, within, -⟩ := emitted_iff.mp emitted
    exact ⟨within, notAction⟩
  · rintro ⟨within, notAction⟩
    have noComment := pinned_no_comment (vetted.crafted d inside) (List.mem_append_left _ input)
    have notInput : d.name ≠ "Input" := fun named => List.ne_nil_of_mem input (vetted.entries d inside named)
    exact ⟨d, inside, emitted_iff.mpr ⟨unset, noComment, notAction, notInput, within, counts⟩, rfl⟩

/-- The inputs of the output node are the outputs of the prototype. -/
theorem output_listed (inside : d ∈ g.nodes) (input : finish ∈ d.inputs) (output : d.name = "Output") :
    ∃ out ∈ q.outputs, out.id = .ofProperty finish.name := by
  have noComment := pinned_no_comment (vetted.crafted d inside) (List.mem_append_left _ input)
  have found : (g.nodes.find? fun n => !n.isComment && n.name == "Output") = some d :=
    find_unique inside (by simp [noComment, output]) fun n inN passes => by
      have named : n.name = "Output" := by simpa using (Bool.and_eq_true_iff.mp passes).2
      exact vetted.single n inN d inside named output
  rw [compiled.outputs, Editor.lowerOutputs, found]
  exact ⟨_, List.mem_map_of_mem input, rfl⟩

end Ends

/-- A connection into a node arrives somewhere exactly if the node is one of the
prototype, or has the identity of the prototype itself. -/
theorem lands_inside_iff (vetted : Vetted e owner g) (inside : d ∈ g.nodes) (arrives : c.destination.node = d.id) :
    Lands q c.destination ↔ d.id = q.id ∨ d.id ∈ q.nodes.map RuntimeNode.id := by
  rw [Lands, arrives]
  exact or_iff_right fun root => vetted.drawn d inside root.1

/-- Every connection starts at its prototype or at one of the prototype's nodes. It
arrives somewhere as well, unless its link ends at an event and leads back to
nothing, or ends at a node that is called as input actions are. -/
theorem ends_exact (reachable : Reachable Careful e) (ran : (e.compile session).2.1 = .ok p)
    (emits : Emits p owner q) (member : c ∈ q.connections) :
    (c.source.node = q.id ∨ c.source.node ∈ q.nodes.map RuntimeNode.id) ∧
      ∃ g l start producer finish d, e.sort.asset.graph? owner = some g ∧ l ∈ g.links ∧
        Joined g (e.sort.isContainer owner) l start producer finish d ∧
        (e.sort.lowerLink g (e.sort.isContainer owner) q.id l).result = .ok (some c) ∧
        (Lands q c.destination ↔
          (d.name = "Event" ∧ (¬∃ m s, LeadsBack g producer start m s) ∨ d.name = "Input Action" →
            c.destination.node = q.id)) := by
  obtain ⟨g, compiled⟩ := compiled_of_emits ran emits
  have vetted := vetted_of_emits reachable ran emits compiled
  obtain ⟨l, link, start, producer, finish, d, joined, lowered, outcome⟩ := link_of_compiled compiled vetted.staged member
  obtain ⟨inside, input⟩ := joined_finish vetted.staged link joined
  have emitted := consumer_emitted_iff compiled vetted inside input joined.unset (joined.placed.imp_right And.right)
  -- Outside the two cases a connection into a node arrives; within them the node is none at run time.
  have lands (arrives : c.destination.node = d.id) (notOutput : d.name ≠ "Output") : Lands q c.destination ↔
      (d.name = "Event" ∨ d.name = "Input Action" → c.destination.node = q.id) := by
    rw [lands_inside_iff vetted inside arrives, emitted, arrives, Ends]
    by_cases same : d.id = q.id
    · simp [same]
    · simp [same, notOutput]
  have exits (output : d.name = "Output")
      (arrives : d.name = "Output" → c.destination = ⟨.root, .ofProperty finish.name⟩) : Lands q c.destination := by
    rw [arrives output]
    exact .inl ⟨rfl, output_listed compiled vetted inside input output⟩
  refine ⟨?_, g, l, start, producer, finish, d, compiled.held, link, joined, lowered, ?_⟩
  · rcases outcome with ⟨-, -, reads⟩ | ⟨m, s, leads, notAction, made⟩
    · exact .inl reads.source
    · rw [(conveys_of_connect made).source, origin]
      split
      · exact .inl rfl
      · rename_i notInput
        obtain ⟨inM, output, plain, counts⟩ := joined_origin vetted.staged link joined leads
        exact .inr (producer_emitted compiled vetted inM output plain counts notInput notAction)
  · by_cases output : d.name = "Output"
    · have arrives : Lands q c.destination := by
        rcases outcome with ⟨-, -, reads⟩ | ⟨m, s, -, -, made⟩
        · exact exits output reads.output
        · exact exits output (conveys_of_connect made).output
      simp [arrives, output]
    · rcases outcome with ⟨unfed, -, reads⟩ | ⟨m, s, leads, -, made⟩
      · rw [lands (congrArg ConnectionEnd.node (reads.inside output)) output]
        simp only [unfed, not_false_eq_true, and_true]
      · have fed : ∃ m s, LeadsBack g producer start m s := ⟨m, s, leads⟩
        have conveys := conveys_of_connect made
        by_cases event : d.name = "Event"
        · have arrives : Lands q c.destination := .inr (.inl (conveys.event event))
          simp [arrives, fed, event]
        · rw [lands (congrArg ConnectionEnd.node (conveys.inside (not_or.mpr ⟨output, event⟩))) output]
          simp [event]

/-- An event is named by a variable, and an input goes straight to the output. -/
def namedEvent : List Edit :=
  [.addProperty .localVariable (.string ""), .addProperty .input (.int64 0), .spawnLocalVariable "New Variable" true,
    .spawnInput "New Input", .createNode "Animation" "Event", .createNode "Animation" "Output", .createLink ⟨3⟩ ⟨11⟩,
    .createLink ⟨6⟩ ⟨14⟩]

/-- The editor after these edits. -/
def eventEditor : Editor := namedEvent.foldl Edit.apply (.ofAsset (.ofName "Wave" ⟨1⟩) .empty .default 1)

/-- The variable's connection names the event's node, and the prototype has no nodes. -/
theorem named_event_dangles : ∃ p, (eventEditor.compile .empty).2.1 = .ok p ∧ ∃ c ∈ p.connections,
    c.source.node = p.id ∧ ¬Lands p c.destination ∧ ∃ g producer start, ∃ d : Node, eventEditor.sort.asset.graph? .root = some g ∧
      (d.name = "Event" ∧ (¬∃ m s, LeadsBack g producer start m s) ∨ d.name = "Input Action") := by
  have careful : CarefulRun (.ofAsset (.ofName "Wave" ⟨1⟩) .empty .default 1) namedEvent := by decide +kernel
  have reachable : Reachable Careful eventEditor := reachable_run (.start "Wave" ⟨1⟩ .empty .default 0) careful
  have sound : (eventEditor.sort.validate.errors.isEmpty && eventEditor.sort.lower.result.toOption.any fun p =>
      p.connections.contains ⟨⟨⟨1⟩, .ofProperty "New Variable"⟩, ⟨⟨9⟩, .ofPin "Event ID"⟩, .localVariableToNodeValue⟩ &&
        (p.id == ⟨1⟩ && p.nodes.isEmpty)) = true := by
    rw [sortByInsertion.2]
    decide +kernel
  obtain ⟨p, ran, checked⟩ := compile_of_check .empty sound
  obtain ⟨connected, shape⟩ := Bool.and_eq_true_iff.mp checked
  obtain ⟨prototype, empty⟩ := Bool.and_eq_true_iff.mp shape
  have own : p.id = ⟨1⟩ := by simpa using prototype
  have none : p.nodes = [] := by simpa using empty
  have member := List.contains_iff_mem.mp connected
  have nowhere : ¬Lands p ⟨⟨9⟩, .ofPin "Event ID"⟩ := by
    simp [Lands, own, none, NodeId.root]
  obtain ⟨-, g, -, start, producer, -, d, held, -, -, -, exactly⟩ := ends_exact reachable ran .top member
  exact ⟨p, ran, _, member, own.symm, nowhere, g, producer, start, d, held,
    (Classical.not_imp.mp fun met => nowhere (exactly.mpr met)).1⟩

end PoseGraph.ConnectionEnds
