import PoseGraph.Editor.Properties
import PoseGraph.Proofs.GraphDependencies
import PoseGraph.Proofs.IndexRanks
import PoseGraph.Proofs.LoweringSemantics

/-! Connections that read a variable. They name the variable that the link reads,
also where that variable is fed by another one, at which the way back ends. Only
the other one can have a literal then, and the connection has none. -/
namespace PoseGraph.VariablePlugs
open GraphDependencies IndexRanks LoweringSemantics SubGraph

variable {e : Editor} {g : SubGraph} {n getter destination : Node} {start finish : Pin} {id : Identifier}
variable {name last : String} {owner self : NodeId} {p q : Prototype} {c : Connection} {hops : Nat}
variable {session : CompileSession}

/-- Where the way back from a variable through what feeds it ends at a variable. -/
inductive StopsAt (g : SubGraph) : String → String → Prop where
  | here {name : String} (unfed : g.source? name = none) : StopsAt g name name
  | back {name before last : String} {fed : Pin} {n : Node} (source : g.source? name = some fed)
      (holder : g.nodeOfPin? fed.id = some n) (named : n.variableName? = some before)
      (rest : StopsAt g before last) : StopsAt g name last

theorem stops_unfed (stops : StopsAt g name last) : g.source? last = none := by
  induction stops with
  | here unfed => exact unfed
  | back source holder named rest ih => exact ih

/-- The way back ends where it begins if nothing feeds the variable. -/
theorem stops_here_iff : StopsAt g name name ↔ g.source? name = none :=
  ⟨stops_unfed, .here⟩

/-- A variable has a literal in a graph: the setter's input holds one, or nothing
sets the variable and the property holds one. -/
def Supplies (e : Editor) (g : SubGraph) (name : String) : Prop :=
  (∃ s ∈ g.nodes, s.isSetter = true ∧ s.variableName? = some name ∧
    ∃ p, s.inputs.head? = some p ∧ p.hasLiteral = true) ∨
  ((∃ n ∈ g.nodes, n.variableName? = some name) ∧
    (∀ s ∈ g.nodes, s.isSetter = true → s.variableName? ≠ some name) ∧
    ∃ v, e.asset.localVariables.get? name = some v ∧ v.isFlow = false)

private theorem literal_supplies : (∃ n ∈ g.nodes, n.variableName? = some name ∧
    (e.variableLiteral? g n name).isSome = true) ↔ Supplies e g name := by
  have setterless : g.setter? name = none ↔ ∀ s ∈ g.nodes, s.isSetter = true → s.variableName? ≠ some name := by
    simp [setter?, List.find?_eq_none]
  constructor
  · rintro ⟨n, member, named, literal⟩
    rw [Editor.variableLiteral?] at literal
    split at literal
    · rename_i setter
      obtain ⟨v, value⟩ := Option.isSome_iff_exists.mp literal
      obtain ⟨p, kept, rfl⟩ := Option.map_eq_some_iff.mp value
      obtain ⟨first, holds⟩ := Option.filter_eq_some_iff.mp kept
      exact .inl ⟨n, member, setter, named, p, first, holds⟩
    · split at literal
      · rename_i unset
        obtain ⟨v, kept⟩ := Option.isSome_iff_exists.mp literal
        obtain ⟨value, plain⟩ := Option.filter_eq_some_iff.mp kept
        exact .inr ⟨⟨n, member, named⟩, setterless.mp (by simpa using unset), v, value, by simpa using plain⟩
      · cases literal
  · rintro (⟨s, member, setter, named, p, first, holds⟩ | ⟨⟨n, member, named⟩, unset, v, value, plain⟩)
    · refine ⟨s, member, named, ?_⟩
      rw [Editor.variableLiteral?, if_pos setter, first]
      simp [holds]
    · refine ⟨n, member, named, ?_⟩
      have reads : n.isSetter ≠ true := fun setter => unset n member setter named
      rw [Editor.variableLiteral?, if_neg reads, setterless.mpr unset, value]
      simp [plain]

theorem addPlug_iff {plugs : List Endpoint} {named : String × Value} :
    (∃ plug ∈ addPlug e plugs named, plug.id = id) ↔
      (∃ plug ∈ plugs, plug.id = id) ∨ Identifier.ofProperty named.1 = id := by
  rw [addPlug]
  split
  · rename_i known
    obtain ⟨plug, member, same⟩ := List.any_eq_true.mp known
    refine (or_iff_left_of_imp ?_).symm
    rintro rfl
    exact ⟨plug, member, beq_iff_eq.mp same⟩
  · simp [or_and_right, exists_or]

/-- The literals of a prototype are those of the variables that supply one. -/
theorem plug_iff : (∃ plug ∈ e.lowerVariables g, plug.id = id) ↔
    ∃ name, Identifier.ofProperty name = id ∧ Supplies e g name := by
  have fold (literals : List (String × Value)) (plugs : List Endpoint) :
      (∃ plug ∈ literals.foldl (addPlug e) plugs, plug.id = id) ↔
        (∃ plug ∈ plugs, plug.id = id) ∨ ∃ named ∈ literals, Identifier.ofProperty named.1 = id := by
    induction literals generalizing plugs with
    | nil => simp
    | cons named literals ih => rw [List.foldl_cons, ih, addPlug_iff, List.exists_mem_cons_iff, or_assoc]
  rw [lowerVariables_eq, fold]
  simp only [List.not_mem_nil, false_and, exists_false, false_or, ← literal_supplies, List.mem_filterMap,
    namedLiteral?, Option.bind_eq_some_iff, Option.map_eq_some_iff, Option.isSome_iff_exists]
  constructor
  · rintro ⟨_, ⟨n, member, name, named, v, literal, rfl⟩, same⟩
    exact ⟨name, same, n, member, named, v, literal⟩
  · rintro ⟨name, same, n, member, named, v, literal⟩
    exact ⟨(name, v), ⟨n, member, name, named, v, literal, rfl⟩, same⟩

/-- A link that is led back to no node reads a variable. -/
theorem unresolved_reads (unfed : g.resolveWithin hops getter start = none) :
    ∃ name, getter.variableName? = some name := by
  cases reads : getter.isLocalVariable with
  | true =>
    obtain ⟨p, -, named⟩ := variable_shape reads
    exact ⟨p.name, named⟩
  | false => cases hops <;> simp [resolveWithin, reads] at unfed

/-- Where a link is led back to a node, its connection reads no variable. -/
theorem connect_reads_no_variable (made : Editor.connect self n start destination finish = .ok c) :
    c.kind ≠ .localVariableToNodeValue ∧ c.kind ≠ .localVariableToGraphValue := by
  rw [Editor.connect] at made
  split at made
  · cases made
    split <;> simp
  · split at made
    · split at made
      · cases made
        simp
      · split at made
        · cases made
        · cases made
          simp
    · cases made
      cases n.name == "Input" <;> cases start.isFlow <;> simp

theorem connectVariable_source (named : getter.variableName? = some name)
    (read : (e.connectVariable g self getter start destination finish).result = .ok (some c)) :
    c.source = ⟨self, .ofProperty name⟩ := by
  rw [Editor.connectVariable] at read
  split at read
  · cases read
  · have made := Option.some.inj (pure_ok.mp read)
    subst made
    rw [named, Option.getD_some]
    split <;> rfl

/-- A connection that reads a variable names the one that its link reads. That
variable has a literal in the prototype, and is the one at which the way back ends,
exactly where nothing feeds it and it supplies a literal, or another variable with
the same identifier does. -/
theorem variable_connection_exact (ran : (e.compile session).2.1 = .ok p) (emits : Emits p owner q)
    (member : c ∈ q.connections)
    (kind : c.kind = .localVariableToNodeValue ∨ c.kind = .localVariableToGraphValue) :
    ∃ g l getter name, e.sort.asset.graph? owner = some g ∧ l ∈ g.links ∧
      g.nodeOfPin? l.source = some getter ∧ getter.variableName? = some name ∧
      c.source = ⟨q.id, .ofProperty name⟩ ∧
      ((∃ plug ∈ q.variablePlugs, plug.id = c.source.endpoint) ∧ StopsAt g name name ↔
        g.source? name = none ∧
          ∃ other, Identifier.ofProperty other = .ofProperty name ∧ Supplies e.sort g other) := by
  obtain ⟨-, lowered⟩ := compile_ok_iff.mp ran
  obtain ⟨depth, self, label, lowered⟩ := emits_lowered lowered emits
  cases depth with
  | zero => exact absurd lowered lowerWithin_zero
  | succ depth =>
    obtain ⟨g, held, nodes, connections, -, links, rfl⟩ := lowerWithin_ok_iff.mp lowered
    obtain ⟨l, link, made⟩ := link_of_connection links member
    obtain ⟨start, getter, finish, destination, joined, outcome⟩ := lowerLink_ok_some_iff.mp made
    rcases outcome with ⟨unfed, read⟩ | ⟨m, s, -, -, made⟩
    · obtain ⟨name, named⟩ := unresolved_reads unfed
      have source := connectVariable_source named read
      refine ⟨g, l, getter, name, held, link, joined.produces, named, source, ?_⟩
      rw [source, stops_here_iff, and_comm]
      exact and_congr_right fun _ => plug_iff
    · rcases kind with kind | kind
      · exact absurd kind (connect_reads_no_variable made).1
      · exact absurd kind (connect_reads_no_variable made).2

/-- A variable is copied to another one, which feeds the output. -/
def copied : Editor :=
  let e := Editor.ofAsset { Asset.ofName "Copy" ⟨1⟩ with
    localVariables := (Table.empty.insert "Rest" (.int64 0)).insert "Copy" (.int64 0) }
  let e := (e.spawnLocalVariable "Rest" true).1
  let e := (e.spawnLocalVariable "Copy" false).1
  let e := (e.spawnLocalVariable "Copy" true).1
  let e := (e.createNode "Animation" "Output").1
  let e := (e.createLink ⟨firstFreshIdentity + 2⟩ ⟨firstFreshIdentity + 5⟩).1
  (e.createLink ⟨firstFreshIdentity + 8⟩ ⟨firstFreshIdentity + 11⟩).1

/-- The output reads the copy, which something feeds, so that it has no literal. -/
theorem copied_names_no_plug : ∃ p, (copied.compile .empty).2.1 = .ok p ∧ ∃ c ∈ p.connections,
    c.kind = .localVariableToGraphValue ∧ (¬∃ plug ∈ p.variablePlugs, plug.id = c.source.endpoint) ∧
      ∃ g name, copied.sort.asset.graph? .root = some g ∧ c.source = ⟨p.id, .ofProperty name⟩ ∧
        ¬(g.source? name = none ∧
          ∃ other, Identifier.ofProperty other = .ofProperty name ∧ Supplies copied.sort g other) := by
  have sound : (copied.sort.validate.errors.isEmpty && match copied.sort.lower.result with
      | .ok p => p.connections.contains
            ⟨⟨⟨1⟩, .ofProperty "Copy"⟩, ⟨.root, .ofProperty "Pose"⟩, .localVariableToGraphValue⟩ &&
          p.variablePlugs.all fun plug => plug.id != .ofProperty "Copy"
      | .error _ => false) = true := by
    unfold Editor.sort Asset.sorted Asset.sortGraph inEvaluationOrder walk sinks dependencies feedersOf
      consumersOf variableNodes leastSetter?
    simp only [applyIndices_eq, ranksOf, sortLinks_eq, sortIds_eq,
      mergeSort_eq_insertionSort byIndex_trans byIndex_total,
      mergeSort_eq_insertionSort byEnds_trans byEnds_total]
    decide +kernel
  obtain ⟨valid, compiled⟩ := Bool.and_eq_true_iff.mp sound
  split at compiled
  · rename_i p lowered
    obtain ⟨connected, plugs⟩ := Bool.and_eq_true_iff.mp compiled
    have ran : (copied.compile .empty).2.1 = .ok p := compile_ok_iff.mpr ⟨by simpa using valid, lowered⟩
    have member := List.contains_iff_mem.mp connected
    obtain ⟨g, -, -, name, held, -, -, -, source, exactly⟩ :=
      variable_connection_exact ran .top member (.inr rfl)
    have absent : ¬∃ plug ∈ p.variablePlugs, plug.id = .ofProperty "Copy" := by simpa using plugs
    exact ⟨p, ran, _, member, rfl, absent, g, name, held, source, fun met => absent (exactly.mpr met).1⟩
  · cases compiled

end PoseGraph.VariablePlugs
