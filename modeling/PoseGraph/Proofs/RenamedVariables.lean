import PoseGraph.Proofs.PropertyValues
import PoseGraph.Proofs.VariableLabels
import PoseGraph.Proofs.VariableSpelling

/-! An asset in which a local variable has got another name. The nodes that stand for the
variable bear the new name and everything else is as it was, before the asset is put into
order and afterwards. -/
namespace PoseGraph.RenamedVariables
open AssetOrder EditOutcomes EditRuns Editor EditorCoherence EditorSoundness GraphDependencies NamingEdits PropertyEdits
  PropertyKeys PropertyNodes PropertyValues ReachableEditors StandingNodes VariableLabels VariableSpelling

variable {e f : Editor} {g : SubGraph} {n : Node} {owner : NodeId} {kind : NodeKind} {old new name word : String}

/-- What can be the name of a variable and means something as the name of a node or a pin. -/
def meaningful : List String := ["Pose", "State Machine", "Blend Space", "Blend Space Vertex"]

/-- Neither name means something by itself. -/
def Plain (old new : String) : Prop := ∀ word ∈ meaningful, word ≠ old ∧ word ≠ new

/-- An asset apart from its local variables and its graphs. -/
def remainder (a : Asset) : Asset := { a with localVariables := .empty, graphs := .empty }

/-- The second editor is the first one with another name for a local variable. -/
structure Respelled (old new : String) (e f : Editor) : Prop where
  graphs : f.asset.graphs = e.asset.graphs.mapValues fun _ => respell old new
  rest : remainder f.asset = remainder e.asset
  catalog : f.catalog = e.catalog
  settings : f.settings = e.settings
  values : ∀ name, name ≠ new →
    f.asset.localVariables.get? (spelling old new name) = e.asset.localVariables.get? name

/-- A variable of the editor can get a name. -/
structure Renamable (old new : String) (e : Editor) : Prop where
  known : old ∈ e.asset.localVariables.keys
  free : new ∉ e.asset.localVariables.keys
  output : "Output" ≠ old ∧ "Output" ≠ new
  event : "Event" ≠ old ∧ "Event" ≠ new
  declared : ∀ n ∈ allNodes e.asset, ∀ name, n.variableName? = some name → name ∈ e.asset.localVariables.keys
  labels : ∀ n ∈ allNodes e.asset, Labelled n
  ordinary : ∀ n ∈ allNodes e.asset, n.isSubroutine = true → n.isLocalVariable = false

theorem renamable_reached (reached : Reached e) (known : old ∈ e.asset.localVariables.keys)
    (valid : e.isPropertyNameValid .localVariable new = true) : Renamable old new e where
  known := known
  free := (valid_iff.mp valid).2.1
  output := ⟨((worded_reached reached).unreserved old known).1.symm, (valid_unreserved valid).2.1.symm⟩
  event := ⟨((worded_reached reached).unreserved old known).2.symm, (valid_unreserved valid).2.2.symm⟩
  declared n member name named := by
    obtain ⟨owner, inside⟩ := mem_graphOf.mp member
    exact (registered_reached reached).known owner n inside .localVariable name (stands_variable.mpr named)
  labels n member := by
    obtain ⟨owner, inside⟩ := mem_graphOf.mp member
    exact (worded_reached reached).labels owner n inside
  ordinary n member owns := by
    have crafted := (coherent_reachable reached).crafted n member
    simp [Node.isLocalVariable, crafted.ordinary (.inr owns)]

theorem declared_of_renamable (renamable : Renamable old new e) (held : e.asset.graph? owner = some g) :
    ∀ n ∈ g.nodes, ∀ name, n.variableName? = some name → name ∈ e.asset.localVariables.keys :=
  fun n member => renamable.declared n (mem_allNodes.mpr ⟨owner, g, held, member⟩)

theorem spelled_of_renamable (renamable : Renamable old new e) (held : e.asset.graph? owner = some g) :
    Spelled old new g where
  free n member named := renamable.free (declared_of_renamable renamable held n member new named)
  named n member named := renamable.labels n (mem_allNodes.mpr ⟨owner, g, held, member⟩) old named

/-! ## Look-ups in assets -/

theorem respelled_graph (related : Respelled old new e f) (owner : NodeId) :
    f.asset.graph? owner = (e.asset.graph? owner).map (respell old new) := by
  rw [Asset.graph?, related.graphs, get_mapValues, Asset.graph?]

theorem respelled_size (related : Respelled old new e f) : f.asset.graphs.size = e.asset.graphs.size := by
  rw [related.graphs, Table.size, Table.mapValues, List.length_map, Table.size]

theorem respelled_findNode (related : Respelled old new e f) (id : NodeId) :
    f.asset.findNode? id = (e.asset.findNode? id).map (respelled old new) := by
  have node (g : SubGraph) : (respell old new g).node? id = (g.node? id).map (respelled old new) := by
    rw [SubGraph.node?, SubGraph.node?, respell, List.find?_map]
    congr 2
    funext n
    simp
  rw [Asset.findNode?, Asset.findNode?, related.graphs, Table.values, Table.values, Table.mapValues, List.map_map,
    List.findSome?_map, List.findSome?_map, List.map_findSome?]
  congr 1
  funext entry
  exact node entry.2

theorem respelled_boneIndex (related : Respelled old new e f) : f.boneIndex = e.boneIndex := by
  have skeleton : f.asset.skeleton = e.asset.skeleton := (congrArg Asset.skeleton related.rest :)
  funext bone
  rw [boneIndex, boneIndex, related.catalog, skeleton]

theorem respelled_mem_keys (related : Respelled old new e f) (free : name ≠ new) :
    spelling old new name ∈ f.asset.localVariables.keys ↔ name ∈ e.asset.localVariables.keys := by
  have values := related.values name free
  rw [← not_iff_not, ← get_eq_none_iff, ← get_eq_none_iff, values]

/-- What means something in its own right is the kind of a node before if it is afterwards. -/
theorem respelled_kind_iff (renamable : Renamable old new e) (plain : Plain old new)
    (member : n ∈ allNodes e.asset) (container : kind = .stateMachine ∨ kind = .blendSpace) :
    (respelled old new n).kind = kind ↔ n.kind = kind := by
  obtain ⟨owner, g, held, inside⟩ := mem_allNodes.mp member
  by_cases own : n.variableName? = some old
  · have name (word : String) (member : word ∈ meaningful) :=
      respelled_name_iff (spelled_of_renamable renamable held) inside (plain word member).1 (plain word member).2
    have category : n.category ≠ stateMachineCategory := by
      rw [NodeFrames.variable_category own]
      decide
    have machine := name "State Machine" (by decide)
    have blend := name "Blend Space" (by decide)
    rcases container with rfl | rfl
    · simp only [Node.kind, respelled_category, category, false_and, if_false, machine, blend]
      split_ifs <;> simp
    · simp only [Node.kind, respelled_category, category, false_and, if_false, machine, blend]
      split_ifs <;> simp
  · rw [respelled_other own]

theorem respelled_ownerKind_iff (related : Respelled old new e f) (renamable : Renamable old new e)
    (plain : Plain old new) (owner : NodeId) (container : kind = .stateMachine ∨ kind = .blendSpace) :
    f.asset.ownerKind? owner = some kind ↔ e.asset.ownerKind? owner = some kind := by
  rw [Asset.ownerKind?, Asset.ownerKind?, respelled_findNode related]
  split
  · rfl
  · cases found : e.asset.findNode? owner with
    | none => rfl
    | some n =>
      have member := (findNode_spec found).1
      simpa using respelled_kind_iff renamable plain member container

/-! ## Renaming and ordering -/

theorem owners_modifyGraph (change : SubGraph → SubGraph) (a : Asset) :
    (a.modifyGraph owner change).owners = a.owners := by
  change (Table.mapValues _ _).entries.map Prod.fst = _
  rw [Table.mapValues, List.map_map]
  rfl

/-- What renaming a local variable leaves alone. -/
theorem renameProperty_rest (e : Editor) (old new : String) :
    let f := (e.renameProperty .localVariable old new).1
    f.asset.owners = e.asset.owners ∧ remainder f.asset = remainder e.asset ∧ f.catalog = e.catalog ∧
      f.settings = e.settings := by
  have fold (groups : List (NodeId × List NodeId)) (k : Editor) :
      let f := groups.foldl (fun e group => e.modifyGraph group.1 (·.renameProperty .localVariable old new group.2)) k
      f.asset.owners = k.asset.owners ∧ remainder f.asset = remainder k.asset ∧ f.catalog = k.catalog ∧
        f.settings = k.settings := by
    induction groups generalizing k with
    | nil => exact ⟨rfl, rfl, rfl, rfl⟩
    | cons group groups ih =>
      obtain ⟨owners, rest⟩ := ih (k.modifyGraph group.1 (·.renameProperty .localVariable old new group.2))
      exact ⟨owners.trans (owners_modifyGraph _ _), rest⟩
  rcases renameProperty_cases e .localVariable old new with same | ⟨v, _, -, -, -, rfl, result⟩
  · rw [same]
    exact ⟨rfl, rfl, rfl, rfl⟩
  · rw [result]
    exact fold _ _

/-- Renaming a local variable gives it another name. -/
theorem respelled_renameProperty (coherent : Coherent none e) (different : old ≠ new)
    (accepted : (e.renameProperty .localVariable old new).2 = true) :
    Respelled old new e (e.renameProperty .localVariable old new).1 := by
  obtain ⟨owners, rest, catalog, settings⟩ := renameProperty_rest e old new
  refine ⟨table_ext (owners.trans ?_) fun owner => ?_, rest, catalog, settings, fun name free => ?_⟩
  · rw [Table.keys, Table.mapValues, List.map_map]
    rfl
  · rw [get_mapValues]
    change Asset.graph? _ owner = (e.asset.graph? owner).map (respell old new)
    have nodes := renamed_renameProperty coherent different accepted owner
    obtain ⟨ids, -, graph⟩ := graphOf_renameProperty coherent different accepted owner
    cases held : e.asset.graph? owner with
    | none =>
      have missing : owner ∉ (e.renameProperty .localVariable old new).1.asset.owners := by
        rw [owners]
        exact get_eq_none_iff.mp held
      exact get_eq_none_iff.mpr missing
    | some g =>
      have present : owner ∈ (e.renameProperty .localVariable old new).1.asset.owners := by
        rw [owners]
        exact List.mem_map_of_mem (get_eq_some_iff.mp held)
      obtain ⟨h, also⟩ := Option.ne_none_iff_exists'.mp (mt get_eq_none_iff.mp (not_not.mpr present))
      have also : (e.renameProperty .localVariable old new).1.asset.graph? owner = some h := also
      rw [graphOf_eq also, graphOf_eq held] at nodes graph
      rw [also, Option.map_some, respell]
      congr 1
      cases h
      exact congrArg₂ SubGraph.mk nodes (congrArg SubGraph.links graph)
  · refine (value_renameProperty different accepted : (Asset.properties _ .localVariable).get? _ = _).trans ?_
    rw [if_pos rfl]
    by_cases same : name = old
    · rw [spelling, if_pos same, if_pos rfl, same]
      rfl
    · rw [spelling, if_neg same, if_neg free, if_neg same]
      rfl

/-- Editors in which a local variable has two names are put into order alike. -/
theorem respelled_sort (related : Respelled old new e f) (renamable : Renamable old new e)
    (plain : Plain old new) (identified : Identified e.asset)
    (also : Identified f.asset) : Respelled old new e.sort f.sort := by
  have rests (a : Asset) : remainder a.sorted = remainder a := by rw [sorted_rest a]; rfl
  have order (a : Asset) : a.sorted.owners = a.owners := (rearranged_owners (rearranged_sorted a)).symm
  refine ⟨table_ext ?_ fun owner => ?_, ?_, related.catalog, related.settings, fun name free => ?_⟩
  · refine (order f.asset).trans ?_
    rw [Asset.owners, related.graphs, Table.keys, Table.keys, Table.mapValues, Table.mapValues, List.map_map,
      List.map_map]
    exact (order e.asset).symm
  · rw [get_mapValues]
    change f.asset.sorted.graph? owner = (e.asset.sorted.graph? owner).map (respell old new)
    rw [sorted_graph (settled_of_identified also owner), sorted_graph (settled_of_identified identified owner),
      respelled_graph related]
    cases held : e.asset.graph? owner with
    | none => rfl
    | some g =>
      have spelled := spelled_of_renamable renamable held
      have kinds := respelled_ownerKind_iff related renamable plain owner (.inl rfl)
      simp only [Option.map_some, kinds]
      split
      · rw [respell_entryFirst]
      · rw [respell_inEvaluationOrder spelled renamable.output renamable.event]
  · exact (rests f.asset).trans (related.rest.trans (rests e.asset).symm)
  · have relays (a : Asset) : a.sorted.localVariables = a.localVariables := by rw [sorted_rest a]
    change f.asset.sorted.localVariables.get? _ = e.asset.sorted.localVariables.get? name
    rw [relays, relays]
    exact related.values name free

end PoseGraph.RenamedVariables
