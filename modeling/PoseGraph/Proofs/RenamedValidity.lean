import PoseGraph.Proofs.Validity
import PoseGraph.Proofs.RenamedVariables

/-! Another name for a local variable makes no asset invalid and none valid. The checks speak
of nodes by their names, so that the new name is in messages; but unless a name means
something by itself they find fault with the same nodes. -/
namespace PoseGraph.RenamedValidity
open AssetOrder Editor EditorSoundness PropertyNodes RenamedVariables Validity VariableSpelling

variable {e f : Editor} {g : SubGraph} {n : Node} {p : Pin} {owner : NodeId} {depth : Nat}
variable {old new word : String}

/-! ## Nodes -/

theorem respelled_isKnown (related : Respelled old new e f) (renamable : Renamable old new e)
    (member : n ∈ allNodes e.asset) : f.isKnown (respelled old new n) = e.isKnown n := by
  have others {kind : PropertyKind} (other : kind ≠ .localVariable) :
      f.asset.properties kind = e.asset.properties kind := by
    cases kind with
    | input => exact (congrArg Asset.inputs related.rest :)
    | output => exact (congrArg Asset.outputs related.rest :)
    | localVariable => exact absurd rfl other
  by_cases own : n.variableName? = some old
  · have free : old ≠ new := fun same => renamable.free (same ▸ renamable.known)
    have before : e.asset.isPropertyNode n = true :=
      List.any_eq_true.mpr ⟨.localVariable, by simp,
        isPropertyNodeOf_iff.mpr ⟨old, renamable.known, stands_variable.mpr own⟩⟩
    have after : f.asset.isPropertyNode (respelled old new n) = true := by
      refine List.any_eq_true.mpr ⟨.localVariable, by simp, isPropertyNodeOf_iff.mpr ⟨spelling old new old, ?_, ?_⟩⟩
      · exact (respelled_mem_keys related free).mpr renamable.known
      · rw [stands_variable, respelled_variableName, own, Option.map_some]
    simp [isKnown, before, after]
  · have same (kind : PropertyKind) : f.asset.isPropertyNodeOf kind n = e.asset.isPropertyNodeOf kind n := by
      rw [Bool.eq_iff_iff, isPropertyNodeOf_iff, isPropertyNodeOf_iff]
      by_cases variable_ : kind = .localVariable
      · subst variable_
        refine exists_congr fun name => and_congr_left fun stands => ?_
        have named := stands_variable.mp stands
        have notOld : name ≠ old := fun same => own (same ▸ named)
        have notNew : name ≠ new := fun same => renamable.free (same ▸ renamable.declared n member name named)
        have keys := respelled_mem_keys related notNew
        rwa [spelling, if_neg notOld] at keys
      · rw [others variable_]
    simp only [isKnown, respelled_other own, Asset.isPropertyNode, same]

theorem respelledPin_name_iff (plain : Plain old new) (member : word ∈ meaningful) :
    (respelledPin old new n p).name = word ↔ p.name = word := by
  obtain ⟨notOld, notNew⟩ := plain word member
  rw [respelledPin]
  split
  · rename_i own
    exact iff_of_false notNew.symm (own.2 ▸ notOld.symm)
  · rfl

theorem respelled_inputError (related : Respelled old new e f) (plain : Plain old new)
    (n : Node) (p : Pin) :
    f.inputError? (respell old new g) (respelledPin old new n p) = none ↔ e.inputError? g p = none := by
  have pose : (respelledPin old new n p).name = "Pose" ↔ p.name = "Pose" :=
    respelledPin_name_iff plain (by decide)
  simp only [inputError?, respelledPin_type, respelledPin_storage, respelledPin_value, respelledPin_id,
    respell_neighbour, respelled_boneIndex related, related.catalog, pose]
  split
  · split_ifs <;> simp
  · split_ifs <;> simp
  · split
    · split_ifs <;> simp
    · rfl
  · rfl

theorem respelled_outputError (n : Node) (p : Pin) :
    outputError? (respell old new g) (respelledPin old new n p) = none ↔ outputError? g p = none := by
  rw [outputError?, outputError?, respell_links, respelledPin_id]
  cases g.links.find? (·.source == p.id) with
  | none => rfl
  | some l =>
    cases found : g.pin? l.target with
    | none => simp [respell_pin, found]
    | some q => simp [respell_pin, found, Pin.sameType]

theorem respelled_pinError (related : Respelled old new e f) (plain : Plain old new)
    (n : Node) : f.pinError? (respell old new g) (respelled old new n) = none ↔ e.pinError? g n = none := by
  simp only [pinError?, Option.or_eq_none_iff, List.findSome?_eq_none_iff, respelled_inputs, respelled_outputs,
    List.forall_mem_map, respelled_inputError related plain, respelled_outputError]

/-- The nodes of a name that cannot be that of a variable. -/
theorem respelled_filter {k : Node → Bool} (spelled : Spelled old new g) (notOld : word ≠ old) (notNew : word ≠ new)
    (blind : ∀ n, k (respelled old new n) = k n) :
    ((respell old new g).nodes.filter fun n => k n && n.name == word) =
      (g.nodes.filter fun n => k n && n.name == word).map (respelled old new) := by
  rw [respell, List.filter_map]
  congr 1
  refine List.filter_congr fun n member => ?_
  rw [Function.comp_apply, blind]
  congr 1
  rw [Bool.eq_iff_iff, beq_iff_eq, beq_iff_eq]
  exact respelled_name_iff spelled member notOld notNew

theorem respelled_bodyError (spelled : Spelled old new g) (output : "Output" ≠ old ∧ "Output" ≠ new) (n : Node) :
    bodyError? n (respell old new g) = bodyError? n g := by
  have found : (respell old new g).nodeNamed? "Output" = (g.nodeNamed? "Output").map (respelled old new) := by
    have filtered := respelled_filter spelled output.1 output.2 (k := fun _ => true) fun _ => rfl
    simp only [Bool.true_and] at filtered
    rw [SubGraph.nodeNamed?, SubGraph.nodeNamed?, ← List.head?_filter, ← List.head?_filter, filtered, List.head?_map]
  rw [bodyError?, bodyError?, found]
  split
  · rw [Option.isNone_map]
  · cases g.nodeNamed? "Output" with
    | none => rfl
    | some n =>
      simp only [Option.map_some, respelled_inputs, List.head?_map]
      cases n.inputs.head? with
      | none => rfl
      | some p => simp
  · rfl

/-- A node is in order by the one name if it is by the other. -/
theorem respelled_nodeError (related : Respelled old new e f) (renamable : Renamable old new e)
    (plain : Plain old new) (held : e.asset.graph? owner = some g) (member : n ∈ g.nodes) :
    f.nodeErrorWithin depth owner (respelled old new n) = none ↔ e.nodeErrorWithin depth owner n = none := by
  induction depth generalizing owner g n with
  | zero => rfl
  | succ depth ih =>
    rw [nodeErrorWithin, nodeErrorWithin, respelled_isSubroutine]
    by_cases owns : n.isSubroutine = true
    · have inside := mem_allNodes.mpr ⟨owner, g, held, member⟩
      rw [if_pos owns, if_pos owns, respelled_plain (renamable.ordinary n inside owns)]
      have bodies : f.body? n = (e.body? n).map (respell old new) := by
        rw [body?, body?, respelled_graph related]
        cases e.asset.graph? n.id with
        | none => rfl
        | some h =>
          rw [Option.map_some, Option.filter_some, Option.filter_some, respell_length]
          split_ifs <;> rfl
      cases body : e.body? n with
      | none => simp [bodies, body]
      | some h =>
        have owned := (Option.filter_eq_some_iff.mp body).1
        have own := spelled_of_renamable renamable owned
        simp only [bodies, body, Option.map_some, Option.or_eq_none_iff, List.findSome?_eq_none_iff,
          respelled_bodyError own renamable.output]
        refine and_congr_left fun _ => ?_
        rw [respell, List.forall_mem_map]
        exact forall₂_congr fun m within => ih owned within
    · rw [if_neg owns, if_neg owns, respelled_graph related, held]
      exact respelled_pinError related plain n

theorem respelled_nodeErrors (related : Respelled old new e f) (renamable : Renamable old new e)
    (plain : Plain old new) (held : e.asset.graph? owner = some g) (member : n ∈ g.nodes) :
    f.nodeErrors owner (respell old new g) (respelled old new n) = [] ↔ e.nodeErrors owner g n = [] := by
  rw [nodeErrors_eq_nil_iff, nodeErrors_eq_nil_iff, nodeError?, nodeError?, respelled_size related,
    respelled_nodeError related renamable plain held member,
    respelled_isKnown related renamable (mem_allNodes.mpr ⟨owner, g, held, member⟩), respelled_inputs,
    List.forall_mem_map]
  simp

/-! ## Graphs -/

theorem respelled_ownerNode_kind {kind : NodeKind} (related : Respelled old new e f) (renamable : Renamable old new e)
    (plain : Plain old new) (owner : NodeId)
    (container : kind = .stateMachine ∨ kind = .blendSpace) :
    (ownerNode? f owner).map Node.kind = some kind ↔ (ownerNode? e owner).map Node.kind = some kind := by
  have kinds (a : Editor) : (ownerNode? a owner).map Node.kind = a.asset.ownerKind? owner := by
    rw [ownerNode?, Asset.ownerKind?]
    split <;> rfl
  rw [kinds, kinds]
  exact respelled_ownerKind_iff related renamable plain owner container

theorem respelled_linkErrors : linkErrors (respell old new g) = linkErrors g := by
  rw [linkErrors, linkErrors, respell_links]
  congr 1
  refine List.filter_congr fun l _ => ?_
  rw [respell_pin, respell_pin]
  cases g.pin? l.source <;> cases g.pin? l.target <;> simp [Pin.sameType]

theorem respelled_outputErrors {label other : String} {kind kind' : Option NodeKind} (spelled : Spelled old new g)
    (output : "Output" ≠ old ∧ "Output" ≠ new)
    (same : ∀ k, k = .stateMachine ∨ k = .blendSpace → (kind' = some k ↔ kind = some k)) :
    outputErrors owner other kind' (respell old new g) = [] ↔ outputErrors owner label kind g = [] := by
  have outputs := respelled_filter spelled output.1 output.2 (k := fun n => !n.isComment) fun n => by
    rw [respelled_isComment]
  simp only [outputErrors, outputs, List.length_map, ne_eq, same .stateMachine (.inl rfl), same .blendSpace (.inr rfl)]
  split_ifs <;> simp

theorem respelled_isState (n : Node) : (respelled old new n).isState = n.isState := by
  by_cases own : n.variableName? = some old
  · have category : n.category ≠ stateMachineCategory := by
      rw [NodeFrames.variable_category own]
      decide
    have other {k : Node} (kept : k.category = n.category) : k.kind ≠ .transition := fun transition =>
      category (kept ▸ (NodeCraft.transition_iff.mp transition).1)
    rw [Node.isState, Node.isState, respelled_isComment, bne_iff_ne.mpr (other (respelled_category n)),
      bne_iff_ne.mpr (other rfl)]
  · rw [respelled_other own]

theorem respelled_vertexPlaces (spelled : Spelled old new g) (plain : Plain old new) :
    vertexPlaces (respell old new g) = vertexPlaces g := by
  obtain ⟨notOld, notNew⟩ := plain "Blend Space Vertex" (by decide)
  have vertices := respelled_filter spelled notOld notNew (k := fun _ => true) fun _ => rfl
  simp only [Bool.true_and] at vertices
  have places : Node.offset ∘ respelled old new = Node.offset := funext respelled_offset
  rw [vertexPlaces, vertexPlaces, vertices, List.map_map, places]

theorem respelled_containerReport {label other : String} {kind kind' : Option NodeKind} (spelled : Spelled old new g)
    (plain : Plain old new)
    (same : ∀ k, k = .stateMachine ∨ k = .blendSpace → (kind' = some k ↔ kind = some k)) :
    (f.containerReport other kind' (respell old new g)).errors = [] ↔ (e.containerReport label kind g).errors = [] := by
  by_cases machine : kind = some .stateMachine
  · have states : (respell old new g).nodes.any Node.isState = g.nodes.any Node.isState := by
      rw [respell, List.any_map]
      congr 1
      exact funext respelled_isState
    rw [machine, (same _ (.inl rfl)).mpr machine]
    simp only [containerReport, machineErrors, ValidationReport.ofErrors, states]
    split_ifs <;> simp
  · by_cases blend : kind = some .blendSpace
    · rw [blend, (same _ (.inr rfl)).mpr blend]
      rw [containerReport, containerReport, blendSpaceReport_errors_eq_nil_iff, blendSpaceReport_errors_eq_nil_iff,
        respelled_vertexPlaces spelled plain]
    · have none_ {i : Editor} {name : String} {h : SubGraph} {k : Option NodeKind} (noMachine : k ≠ some .stateMachine)
          (noBlend : k ≠ some .blendSpace) : (i.containerReport name k h).errors = [] := by
        rw [containerReport.eq_def]
        split
        · exact absurd rfl noMachine
        · exact absurd rfl noBlend
        · rfl
      exact iff_of_true (none_ (mt (same _ (.inl rfl)).mp machine) (mt (same _ (.inr rfl)).mp blend))
        (none_ machine blend)

/-- A graph is in order by the one name if it is by the other. -/
theorem respelled_graphReport (related : Respelled old new e f) (renamable : Renamable old new e)
    (plain : Plain old new) (held : e.asset.graph? owner = some g) :
    (f.graphReport owner (respell old new g)).errors = [] ↔ (e.graphReport owner g).errors = [] := by
  have spelled := spelled_of_renamable renamable held
  have kinds (k : NodeKind) (container : k = .stateMachine ∨ k = .blendSpace) :=
    respelled_ownerNode_kind related renamable plain owner container
  have nodes : (∀ n ∈ (respell old new g).nodes, n.isComment = false → f.nodeErrors owner (respell old new g) n = []) ↔
      ∀ n ∈ g.nodes, n.isComment = false → e.nodeErrors owner g n = [] := by
    rw [respell, List.forall_mem_map]
    refine forall₂_congr fun n member => ?_
    rw [respelled_isComment]
    exact imp_congr_right fun _ => respelled_nodeErrors related renamable plain held member
  rw [graphReport_errors_eq_nil_iff, graphReport_errors_eq_nil_iff, nodes, respelled_linkErrors,
    respelled_outputErrors spelled renamable.output kinds, respelled_containerReport spelled plain kinds]

/-- An asset is valid by the one name if it is by the other. -/
theorem respelled_valid (related : Respelled old new e f) (renamable : Renamable old new e)
    (plain : Plain old new) : f.validate.errors = [] ↔ e.validate.errors = [] := by
  rw [validate_errors_eq_nil_iff, validate_errors_eq_nil_iff]
  refine forall_congr' fun owner => ?_
  rw [respelled_graph related]
  cases held : e.asset.graph? owner with
  | none => simp
  | some g => simpa using respelled_graphReport related renamable plain held

end PoseGraph.RenamedValidity
