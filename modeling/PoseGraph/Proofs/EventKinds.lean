import PoseGraph.Proofs.CompiledGraphs

/-! Which connections are those of triggers. The kind of a connection follows from the
names of two nodes and from the type of the pin to which its link is led back. That is
the type of the pin at the link's end wherever variables carry one type; it is not
where an event takes a text, or where a variable has changed its type on the way. -/
namespace PoseGraph.EventKinds
open CompiledGraphs EditRuns IndexRanks LinkInvariant LoweringSemantics VariableChains

variable {e : Editor} {m d : Node} {s finish : Pin} {c : Connection} {owner self : NodeId} {p q : Prototype}
variable {session : CompileSession}

/-- The kinds of connections that carry triggers. All others carry values. -/
def isEvent : ConnectionKind → Bool
  | .nodeEventToNodeEvent | .graphEventToNodeEvent | .nodeEventToGraphEvent | .graphEventToGraphEvent => true
  | .nodeValueToNodeValue | .graphValueToNodeValue | .nodeValueToGraphValue | .graphValueToGraphValue
  | .localVariableToNodeValue | .localVariableToGraphValue => false

/-- Outputs take values, events take triggers, and all other nodes what the pin is
that feeds them. -/
theorem connect_isEvent (made : Editor.connect self m s d finish = .ok c) :
    isEvent c.kind = true ↔ d.name ≠ "Output" ∧ (d.name = "Event" ∨ s.isFlow = true) := by
  rw [Editor.connect] at made
  split at made
  · rename_i output
    cases made
    cases m.name == "Input" <;> simp [isEvent, output]
  · rename_i notOutput
    split at made
    · rename_i event
      split at made
      · cases made
        simp [isEvent, event]
      · split at made
        · cases made
        · cases made
          simp [isEvent, event]
    · rename_i notEvent
      cases made
      cases m.name == "Input" <;> cases flow : s.isFlow <;> simp [isEvent, notOutput, notEvent]

/-- A connection is one of triggers exactly where its link ends at a pin for triggers,
as long as the pin that feeds it says the same of itself and no event is involved. A
link that leads back to nothing, and one into an output, always carries a value. -/
theorem event_kind_exact (reachable : Reachable Careful e) (ran : (e.compile session).2.1 = .ok p)
    (emits : Emits p owner q) (member : c ∈ q.connections) :
    ∃ g l start producer finish d, e.sort.asset.graph? owner = some g ∧ l ∈ g.links ∧
      Joined g (e.sort.isContainer owner) l start producer finish d ∧
      (e.sort.lowerLink g (e.sort.isContainer owner) q.id l).result = .ok (some c) ∧
      ((isEvent c.kind = true ↔ finish.isFlow = true) ↔ ∀ m s, LeadsBack g producer start m s →
        d.name ≠ "Output" → (finish.isFlow = true ↔ d.name = "Event" ∨ s.isFlow = true)) := by
  obtain ⟨g, compiled⟩ := compiled_of_emits ran emits
  have vetted := vetted_of_emits reachable ran emits compiled
  obtain ⟨l, link, start, producer, finish, d, joined, lowered, outcome⟩ := link_of_compiled compiled vetted.staged member
  refine ⟨g, l, start, producer, finish, d, compiled.held, link, joined, lowered, ?_⟩
  rcases outcome with ⟨unfed, value, reads⟩ | ⟨m, s, leads, -, made⟩
  · have plain : isEvent c.kind = false := by
      rcases reads.kind with kind | kind <;> rw [kind] <;> rfl
    have types : finish.isFlow = false := by
      have same : start.type = finish.type := by simpa [Pin.sameType] using joined.typed
      rwa [Pin.isFlow, ← same, ← Pin.isFlow]
    rw [plain, types]
    exact iff_of_true Iff.rfl fun m s leads => absurd ⟨m, s, leads⟩ unfed
  · rw [connect_isEvent made]
    by_cases output : d.name = "Output"
    · obtain ⟨inside, input⟩ := joined_finish vetted.staged link joined
      have value := (vetted.closed d inside).inputs output finish input
      simp [output, value]
    · constructor
      · intro kinds j t also _
        obtain ⟨rfl, rfl⟩ := leads_unique leads also
        simpa [output] using kinds.symm
      · intro agrees
        simpa [output] using (agrees m s leads output).symm

/-- An input names an event. A variable feeds the output, which needs a pose. -/
def textEvent : List Edit :=
  [.addProperty .localVariable (.int64 0), .addProperty .input (.string ""), .spawnLocalVariable "New Variable" true,
    .spawnInput "New Input", .createNode "Animation" "Event", .createNode "Animation" "Output", .createLink ⟨6⟩ ⟨11⟩,
    .createLink ⟨3⟩ ⟨14⟩]

/-- The editor after these edits. -/
def textEditor : Editor := textEvent.foldl Edit.apply (.ofAsset (.ofName "Wave" ⟨1⟩) .empty .default 1)

/-- The text travels as a trigger, although its link ends at a pin for values. -/
theorem text_travels_as_event : ∃ p, (textEditor.compile .empty).2.1 = .ok p ∧ ∃ c ∈ p.connections,
    isEvent c.kind = true ∧ ∃ g l finish, textEditor.sort.asset.graph? .root = some g ∧ l ∈ g.links ∧
      (textEditor.sort.lowerLink g (textEditor.sort.isContainer .root) p.id l).result = .ok (some c) ∧
      g.pin? l.target = some finish ∧ finish.isFlow = false ∧ ∃ producer start m s, ∃ d : Node,
        LeadsBack g producer start m s ∧ d.name ≠ "Output" ∧ (d.name = "Event" ∨ s.isFlow = true) := by
  have careful : CarefulRun (.ofAsset (.ofName "Wave" ⟨1⟩) .empty .default 1) textEvent := by decide +kernel
  have reachable : Reachable Careful textEditor := reachable_run (.start "Wave" ⟨1⟩ .empty .default 0) careful
  have sound : (textEditor.sort.validate.errors.isEmpty && textEditor.sort.lower.result.toOption.any fun p =>
      p.connections.contains ⟨⟨⟨1⟩, .ofProperty "New Input"⟩, ⟨⟨1⟩, .ofProperty "Event ID"⟩, .graphEventToGraphEvent⟩ &&
        (textEditor.sort.asset.graph? .root).all fun g =>
          g.links.all fun l => (g.pin? l.target).all fun p => !p.isFlow) = true := by
    rw [sortByInsertion.2]
    decide +kernel
  obtain ⟨p, ran, checked⟩ := compile_of_check .empty sound
  obtain ⟨connected, values⟩ := Bool.and_eq_true_iff.mp checked
  have member := List.contains_iff_mem.mp connected
  obtain ⟨g, l, start, producer, finish, d, held, link, joined, made, exactly⟩ := event_kind_exact reachable ran .top member
  have value : finish.isFlow = false := by
    rw [held, Option.all_some, List.all_eq_true] at values
    have here := values l link
    rw [joined.ends] at here
    simpa using here
  have differ : ¬∀ m s, LeadsBack g producer start m s → d.name ≠ "Output" →
      (finish.isFlow = true ↔ d.name = "Event" ∨ s.isFlow = true) := fun agrees => by
    have kinds := exactly.mpr agrees
    rw [value] at kinds
    exact absurd (kinds.mp rfl) Bool.false_ne_true
  simp only [not_forall] at differ
  obtain ⟨m, s, leads, notOutput, differ⟩ := differ
  refine ⟨p, ran, _, member, rfl, g, l, finish, held, link, made, joined.ends, value, producer, start, m, s, d, leads,
    notOutput, ?_⟩
  by_contra agrees
  exact differ (iff_of_false (by simp [value]) agrees)

end PoseGraph.EventKinds
