import PoseGraph.Proofs.PrototypeFreshness

/-! Compiling an editor twice. What is compiled depends neither on the session nor on
the prototype that is held already, and an asset that is in order stays as it is. So
the second time says what the first one said and changes nothing. If it was an error,
the asset has been put into order and is the same otherwise. -/
namespace PoseGraph.RepeatedCompilation
open AssetOrder Editor GraphDependencies IndexRanks PrototypeFreshness Rearrangement

variable {e : Editor} {a : Asset} {g : SubGraph} {p : Option Prototype} {mark : Bool} {depth : Nat}
variable {owner id : NodeId} {name : String} {session : CompileSession}

/-! ## What is held already -/

/-- The editor with another prototype, marked as changed or not. -/
def holding (p : Option Prototype) (mark : Bool) (e : Editor) : Editor :=
  { e with asset := { e.asset with prototype := p }, isDirty := mark }

theorem holding_nodeErrorWithin (owner : NodeId) (n : Node) :
    (holding p mark e).nodeErrorWithin depth owner n = e.nodeErrorWithin depth owner n := by
  induction depth generalizing owner n with
  | zero => rfl
  | succ depth ih =>
    rw [nodeErrorWithin, nodeErrorWithin, funext (ih n.id)]
    rfl

/-- Checks do not look at what was compiled before. -/
theorem holding_validate : (holding p mark e).validate = e.validate := by
  have nodes (owner : NodeId) (g : SubGraph) : (holding p mark e).nodeErrors owner g = e.nodeErrors owner g := by
    funext n
    rw [nodeErrors, nodeErrors, nodeError?, nodeError?, holding_nodeErrorWithin]
    rfl
  have report (owner : NodeId) (g : SubGraph) : (holding p mark e).graphReport owner g = e.graphReport owner g := by
    rw [graphReport, graphReport, nodes]
    rfl
  rw [validate, validate, funext₂ report]
  rfl

/-- Neither does lowering. -/
theorem holding_lowerWithin (owner id : NodeId) (name : String) :
    (holding p mark e).lowerWithin depth owner id name = e.lowerWithin depth owner id name := by
  induction depth generalizing owner id name with
  | zero => rfl
  | succ depth ih =>
    rw [lowerWithin, lowerWithin]
    simp only [ih]
    rfl

theorem holding_lower : (holding p mark e).lower = e.lower := holding_lowerWithin _ _ _

/-- The outcome of building the prototype of an editor. -/
def outcome (e : Editor) : Except CompileError Prototype :=
  if e.validate.errors.isEmpty then e.lower.result.mapError .parse
  else .error (.invalidGraph (invalidHeadline :: e.validate.errors))

/-- The session has no part in the outcome. -/
theorem construct_outcome (e : Editor) (session : CompileSession) : (e.construct session).1 = outcome e := by
  rw [construct, outcome]
  split <;> rfl

theorem holding_outcome : outcome (holding p mark e) = outcome e := by
  rw [outcome, outcome, holding_validate, holding_lower]

/-! ## One compilation -/

/-- What a sorted editor becomes by the outcome of its compilation: it holds the new
prototype and is not marked, or is left alone. -/
def settle (e : Editor) : Except CompileError Prototype → Editor
  | .ok p => holding (some p) false e
  | .error _ => e

theorem compile_outcome (e : Editor) (session : CompileSession) : (e.compile session).2.1 = outcome e.sort := by
  rw [← construct_outcome e.sort session, compile]
  cases made : (e.sort.construct session).1 <;> simp only [made]

theorem compile_settles (e : Editor) (session : CompileSession) :
    (e.compile session).1 = settle e.sort (outcome e.sort) := by
  rw [← construct_outcome e.sort session, compile]
  cases made : (e.sort.construct session).1 <;> simp only [made] <;> rfl

theorem holding_sort : (holding p mark e).sort = holding p mark e.sort :=
  congrArg (fun a => { e with asset := a, isDirty := mark }) (sorted_withPrototype e.asset p)

theorem sort_idem (identified : Identified e.asset) : e.sort.sort = e.sort :=
  congrArg (fun a => { e with asset := a }) (sorted_idem identified)

/-- After a compilation the editor is in order. -/
theorem settle_sort (identified : Identified e.asset) (result : Except CompileError Prototype) :
    (settle e.sort result).sort = settle e.sort result := by
  cases result with
  | ok p => exact holding_sort.trans (congrArg (holding (some p) false) (sort_idem identified))
  | error cause => exact sort_idem identified

theorem settle_outcome (e : Editor) (result : Except CompileError Prototype) :
    outcome (settle e result) = outcome e := by
  cases result with
  | ok p => exact holding_outcome
  | error cause => rfl

/-- Holding a prototype that is held already changes nothing. -/
theorem settle_settle (e : Editor) (result : Except CompileError Prototype) :
    settle (settle e result) result = settle e result := by
  cases result <;> rfl

theorem reshuffled_sorted (identified : Identified a) (held : a.graph? owner = some g) :
    ∃ h, a.sorted.graph? owner = some h ∧ Reshuffled g h := by
  rw [sorted_graph (settled_of_identified identified owner), held, Option.map_some]
  split
  · exact ⟨_, rfl, reshuffled_entryFirst g⟩
  · exact ⟨_, rfl, reshuffled_inEvaluationOrder g⟩

/-! ## Two compilations -/

/-- Where nodes and pins are told apart, the second of two compilations says what the
first one said and leaves the editor as it finds it. A compilation that fails changes
nothing but the order in which graphs are stored and the places of their nodes. It does
not matter how the graphs are nested. -/
theorem compile_repeatable (identified : Identified e.asset) (first second : CompileSession) :
    ((e.compile first).1.compile second).2.1 = (e.compile first).2.1 ∧
    ((e.compile first).1.compile second).1 = (e.compile first).1 ∧
    ∀ cause, (e.compile first).2.1 = .error cause →
      (e.compile first).1 = { e with asset := { e.asset with graphs := (e.compile first).1.asset.graphs } } ∧
      (e.compile first).1.asset.owners = e.asset.owners ∧
      ∀ owner g, e.asset.graph? owner = some g →
        ∃ h, (e.compile first).1.asset.graph? owner = some h ∧ Reshuffled g h := by
  have again : outcome (settle e.sort (outcome e.sort)).sort = outcome e.sort := by
    rw [settle_sort identified, settle_outcome]
  refine ⟨?_, ?_, fun cause failed => ?_⟩
  · rw [compile_outcome, compile_outcome, compile_settles, again]
  · rw [compile_settles, compile_settles e, again, settle_sort identified, settle_settle]
  · have kept : (e.compile first).1 = e.sort := by
      rw [compile_settles, ← compile_outcome e first, failed]
      rfl
    rw [kept]
    exact ⟨congrArg (fun a => { e with asset := a }) (sorted_rest e.asset),
      (rearranged_owners (rearranged_sorted e.asset)).symm,
      fun owner g held => reshuffled_sorted identified held⟩

/-- An annotation before an output that nothing feeds, with the prototype of an empty graph. -/
def unfed : Editor := .ofAsset
  { Asset.ofName "Wave" ⟨1⟩ with
    graphs := Table.empty.insert .root ⟨[{ Template.comment with id := ⟨2⟩ }, { Template.poseOutput with id := ⟨3⟩ }], []⟩
    prototype := some
      { name := "Wave", id := ⟨1⟩, skeleton := 0, inputs := [], outputs := [], variablePlugs := [], nodes := []
        connections := [] } }

/-- It cannot be compiled, neither at once nor when the output has been moved to the front,
and keeps its prototype. -/
theorem unfed_fails_again : Identified unfed.asset ∧ ∃ cause, (unfed.compile .empty).2.1 = .error cause ∧
    ((unfed.compile .empty).1.compile .empty).2.1 = .error cause ∧
    (unfed.compile .empty).1.asset.prototype = unfed.asset.prototype ∧
    ((unfed.compile .empty).1.asset.graph? .root).map (fun g => g.nodes.map Node.id) = some [⟨3⟩, ⟨2⟩] := by
  have identified : Identified unfed.asset := ⟨by decide +kernel, by decide +kernel⟩
  have invalid : unfed.sort.validate.errors.isEmpty = false := by
    rw [sortByInsertion.2]
    decide +kernel
  have moved : (unfed.sort.asset.graph? .root).map (fun g => g.nodes.map Node.id) = some [⟨3⟩, ⟨2⟩] := by
    rw [sortByInsertion.2]
    decide +kernel
  have failed : (unfed.compile .empty).2.1 =
      .error (.invalidGraph (invalidHeadline :: unfed.sort.validate.errors)) := by
    rw [compile_outcome, outcome, invalid]
    rfl
  obtain ⟨same, -, rest⟩ := compile_repeatable identified .empty .empty
  obtain ⟨kept, -⟩ := rest _ failed
  refine ⟨identified, _, failed, same.trans failed, ?_, ?_⟩
  · rw [kept]
  · rw [compile_settles, ← compile_outcome unfed .empty, failed]
    exact moved

end PoseGraph.RepeatedCompilation
