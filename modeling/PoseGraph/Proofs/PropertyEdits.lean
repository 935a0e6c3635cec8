import PoseGraph.Proofs.NodeEdits

/-! Editing properties keeps an editor coherent. Renaming a local variable is the
one edit that renames nodes; a name that the runtime reserves is never taken. -/
namespace PoseGraph.PropertyEdits
open AssetOrder EditOutcomes Editor EditorCoherence GraphDependencies LinkEdits LoweringSemantics NodeCraft NodeEdits

variable {a : Asset} {e : Editor} {g h : SubGraph} {n : Node} {owner : NodeId} {except : Option NodeId}
variable {kind : PropertyKind} {ps : Properties} {name old new : String} {v : Value} {ids : List NodeId}
variable {groups : List (NodeId × List NodeId)} {category : String}

/-! ## Names -/

theorem mem_keys_insert {key : String} : key ∈ (ps.insert name v).keys ↔ key ∈ ps.keys ∨ key = name :=
  Entries.mem_keys_insert

theorem mem_keys_sorted {key : String} : key ∈ (Properties.sorted ps).keys ↔ key ∈ ps.keys :=
  ((List.mergeSort_perm _ _).map Prod.fst).mem_iff

/-- Names that are in order stay where they are. -/
theorem sorted_of_ordered (ordered : ps.keys.Pairwise fun a b => lowercase a ≤ lowercase b) : Properties.sorted ps = ps := by
  have same : (Properties.sorted ps).entries = ps.entries :=
    List.mergeSort_of_pairwise ((List.pairwise_map.mp ordered).imp decide_eq_true)
  cases ps
  rw [Properties.sorted, Table.sortBy] at same ⊢
  congr

theorem mem_keys_erase {key : String} (member : key ∈ (ps.erase name).keys) : key ∈ ps.keys := by
  obtain ⟨entry, inside, rfl⟩ := List.mem_map.mp member
  exact List.mem_map_of_mem (List.mem_filter.mp inside).1

theorem get_mem_keys (found : ps.get? name = some v) : name ∈ ps.keys :=
  List.mem_map_of_mem (get_eq_some_iff.mp found)

theorem contains_iff : ps.contains name = true ↔ name ∈ ps.keys := by
  simp [Table.contains, Table.keys]

theorem uniqueName_long (ps : Properties) : 12 ≤ (ps.uniqueName "New Variable").length := by
  have base : "New Variable".length = 12 := by decide
  have suffixed (k : Nat) : 12 ≤ (Properties.suffixed "New Variable" k).length := by
    rw [Properties.suffixed, String.length_append, String.length_append]
    omega
  rw [Properties.uniqueName]
  split
  · split
    · exact suffixed _
    · exact base.ge
  · exact base.ge

theorem uniqueName_free (ps : Properties) {word : String} (short : word.length < 12) :
    ps.uniqueName "New Variable" ≠ word := by
  rintro rfl
  exact Nat.not_lt.mpr (uniqueName_long ps) short

theorem valid_iff : ps.isNameValid name = true ↔ Properties.isBlank name = false ∧ name ∉ ps.keys ∧
    (∀ other ∈ ps.keys, withoutSpaces other ≠ withoutSpaces name) ∧
    lowercase (withoutSpaces name) ∉ Properties.keywords := by
  have taken : ps.contains name = false ↔ name ∉ ps.keys := by rw [← Bool.not_eq_true, contains_iff]
  simp [Properties.isNameValid, taken, and_assoc]

theorem valid_name_free {word : String} (valid : ps.isNameValid name = true)
    (reserved : Properties.keywords.contains (lowercase (withoutSpaces word)) = true) : name ≠ word := by
  rintro rfl
  exact (valid_iff.mp valid).2.2.2 (List.contains_iff_mem.mp reserved)

theorem coherent_modifyProperties {change : Properties → Properties} (coherent : Coherent except e)
    (free : kind = .localVariable → "Output" ∉ (change e.asset.localVariables).keys) :
    Coherent except (e.modifyProperties kind change) := by
  cases kind with
  | input => exact coherent_of_graphs coherent rfl (Nat.le_refl _) coherent.named
  | output => exact coherent_of_graphs coherent rfl (Nat.le_refl _) coherent.named
  | localVariable => exact coherent_of_graphs coherent rfl (Nat.le_refl _) (free rfl)

theorem coherent_insertProperty (coherent : Coherent except e) (known : name ∈ (e.asset.properties kind).keys) (v : Value) :
    Coherent except (e.modifyProperties kind (·.insert name v)) := by
  refine coherent_modifyProperties coherent ?_
  rintro rfl
  rw [mem_keys_insert, not_or]
  refine ⟨coherent.named, ?_⟩
  rintro rfl
  exact coherent.named known

theorem coherent_eraseProperty (coherent : Coherent except e) (kind : PropertyKind) (name : String) :
    Coherent except (e.modifyProperties kind (·.erase name)) := by
  refine coherent_modifyProperties coherent ?_
  rintro rfl
  exact fun member => coherent.named (mem_keys_erase member)

/-! ## Nodes of a property -/

theorem revised_mapNodes {f : Node → Node} (each : ∀ n ∈ g.nodes, n.id ∈ ids → Edited n (f n)) :
    Revised g (g.mapNodes ids f) := by
  refine ⟨each_mapped fun n member => ?_, .refl _⟩
  split
  · rename_i listed
    exact each n member (by simpa using listed)
  · exact edited_refl n

theorem revised_setPropertyValue (g : SubGraph) : Revised g (g.setPropertyValue name v ids) := by
  refine revised_mapNodes fun n _ _ => edited_mapPins (fun p => ?_) n
  split <;> rfl

theorem revised_retagProperty (g : SubGraph) : Revised g (g.retagProperty name v ids) := by
  apply revised_mapNodes
  intro n _ _
  have pins : Edited n (n.mapPins fun p => if p.name = name then p.retag v else p) := by
    refine edited_mapPins (fun p => ?_) n
    split <;> rfl
  exact ⟨pins.id, pins.category, pins.type, pins.inputs, pins.outputs, pins.name, pins.entry⟩

theorem revised_renameProperty (free : kind = .localVariable → new ≠ "Output")
    (category : ∀ n ∈ g.nodes, n.id ∈ ids → n.category = kind.token) :
    Revised g (g.renameProperty kind old new ids) := by
  apply revised_mapNodes
  intro n member listed
  have pins : Edited n (n.mapPins fun p => if p.name = old then { p with name := new } else p) := by
    refine edited_mapPins (fun p => ?_) n
    split <;> rfl
  dsimp only
  split
  · rename_i variable_
    subst variable_
    exact ⟨pins.id, pins.category, pins.type, pins.inputs, pins.outputs,
      .inr ⟨category n member listed, free rfl⟩, pins.entry⟩
  · exact pins

/-- The nodes that are listed for each graph are in one category. -/
def Belongs (category : String) (groups : List (NodeId × List NodeId)) (a : Asset) : Prop :=
  ∀ group ∈ groups, ∀ g, a.graph? group.1 = some g → ∀ n ∈ g.nodes, n.id ∈ group.2 → n.category = category

theorem propertyNodes_belong (identified : Identified a) (kind : PropertyKind) (name : String) :
    Belongs kind.token (a.propertyNodes kind name) a := by
  intro group listed g held n member named
  obtain ⟨⟨owner, k⟩, entry, shape⟩ := List.mem_filterMap.mp listed
  dsimp only at shape
  split at shape
  · cases shape
  · cases shape
    have same : a.graph? owner = some k := get_eq_some_iff.mpr entry
    rw [same] at held
    cases held
    obtain ⟨m, inside, sameId⟩ := List.mem_map.mp named
    obtain ⟨inK, stands⟩ := List.mem_filter.mp inside
    rw [node_eq_of_id (identified_unique identified same) inK member sameId] at stands
    rw [Asset.standsFor, Bool.and_eq_true, beq_iff_eq] at stands
    exact stands.1

/-- Edits in place leave the listed nodes in their category. -/
theorem belongs_modifyGraph {change : SubGraph → SubGraph} (belongs : Belongs category groups a)
    (revised : ∀ g, a.graph? owner = some g → Revised g (change g)) :
    Belongs category groups (a.modifyGraph owner change) := by
  intro group listed h held m inside named
  rw [graph_modifyGraph] at held
  split at held
  · rename_i here
    obtain ⟨g, before, rfl⟩ := Option.map_eq_some_iff.mp held
    obtain ⟨n, member, edited⟩ := origin_of_mem (revised g (here ▸ before)).nodes inside
    rw [edited.category]
    exact belongs group listed g before n member (edited.id ▸ named)
  · exact belongs group listed h held m inside named

/-! ## Operations -/

theorem coherent_addProperty (coherent : Coherent except e) (kind : PropertyKind) (v : Value) :
    Coherent except (e.addProperty kind v).1 := by
  refine coherent_invalidate (coherent_modifyProperties coherent ?_)
  rintro rfl
  rw [mem_keys_sorted, mem_keys_insert, not_or]
  exact ⟨coherent.named, (uniqueName_free e.asset.localVariables (by decide)).symm⟩

theorem coherent_removeProperty (coherent : Coherent none e) (kind : PropertyKind) (name : String) :
    Coherent none (e.removeProperty kind name).1 := by
  have fold (groups : List (NodeId × List NodeId)) (e : Editor) (coherent : Coherent none e) :
      Coherent none (groups.foldl (fun e group => (e.removeNodesIn group.1 group.2).1) e) := by
    induction groups generalizing e with
    | nil => exact coherent
    | cons group groups ih => exact ih _ (coherent_removeNodesIn coherent group.1 group.2)
  rw [removeProperty]
  split
  · exact coherent_invalidate (fold _ _ (coherent_eraseProperty coherent kind name))
  · exact coherent

theorem coherent_setPropertyValue (coherent : Coherent except e) (kind : PropertyKind) (name : String)
    (v : Value) : Coherent except (e.setPropertyValue kind name v).1 := by
  have fold (groups : List (NodeId × List NodeId)) (e : Editor) (coherent : Coherent except e) :
      Coherent except (groups.foldl (fun e group =>
        e.modifyGraph group.1 (·.setPropertyValue name v group.2)) e) := by
    induction groups generalizing e with
    | nil => exact coherent
    | cons group groups ih => exact ih _ (coherent_revise coherent fun g _ => revised_setPropertyValue g)
  rw [Editor.setPropertyValue]
  split
  · rename_i present
    exact coherent_invalidate (fold _ _ (coherent_insertProperty coherent (contains_iff.mp present) v))
  · exact coherent

theorem coherent_renameProperty (coherent : Coherent except e) (kind : PropertyKind) (old new : String) :
    Coherent except (e.renameProperty kind old new).1 := by
  have fold (groups : List (NodeId × List NodeId)) (free : kind = .localVariable → new ≠ "Output") (e : Editor)
      (coherent : Coherent except e) (belongs : Belongs kind.token groups e.asset) :
      Coherent except (groups.foldl (fun e group =>
        e.modifyGraph group.1 (·.renameProperty kind old new group.2)) e) := by
    induction groups generalizing e with
    | nil => exact coherent
    | cons group groups ih =>
      have revised (g : SubGraph) (held : e.asset.graph? group.1 = some g) :
          Revised g (g.renameProperty kind old new group.2) :=
        revised_renameProperty free (belongs group List.mem_cons_self g held)
      exact ih _ (coherent_revise coherent revised)
        (belongs_modifyGraph (fun other listed => belongs other (List.mem_cons_of_mem _ listed)) revised)
  rcases renameProperty_cases e kind old new with same | ⟨v, _, differ, valid, found, rfl, result⟩
  · rw [same]
    exact coherent
  · have free : new ≠ "Output" := valid_name_free valid (by decide +kernel)
    have belongs := propertyNodes_belong (identified_of_coherent coherent) kind old
    rw [result]
    refine coherent_invalidate (fold _ (fun _ => free) _ (coherent_modifyProperties coherent ?_) ?_)
    · rintro rfl
      rw [mem_keys_sorted, mem_keys_insert, not_or]
      exact ⟨fun member => coherent.named (mem_keys_erase member), free.symm⟩
    · cases kind <;> exact belongs

theorem coherent_changePropertyType (coherent : Coherent except e) (kind : PropertyKind) (name : String)
    (v : Value) : Coherent except (e.changePropertyType kind name v).1 := by
  have fold (groups : List (NodeId × List NodeId)) (e : Editor) (coherent : Coherent except e) :
      Coherent except (groups.foldl (fun e group =>
        (e.removeLinksIn group.1 (((e.asset.graph? group.1).map (·.linksOfNodes group.2)).getD [])).1.modifyGraph
          group.1 (·.retagProperty name v group.2)) e) := by
    induction groups generalizing e with
    | nil => exact coherent
    | cons group groups ih =>
      exact ih _ (coherent_revise (coherent_removeLinksIn coherent group.1 _) fun g _ => revised_retagProperty g)
  rcases changePropertyType_cases e kind name v with same | ⟨_, _, found, -, rfl, same⟩
  · rw [same]
    exact coherent
  · rw [same]
    exact coherent_invalidate (fold _ _ (coherent_insertProperty coherent (get_mem_keys found) v))

/-- A simple node of a property is well made. -/
theorem crafted_property (kind : PropertyKind) (category : n.category = kind.token) (simple : n.type = .simple) (named : n.name ≠ "Output") :
    Crafted n ∧ n.kind ≠ .transition := by
  have text : n.isComment = false := by
    rw [Node.isComment, simple]
    decide
  have owns : n.isSubroutine = false := by
    rw [Node.isSubroutine, simple]
    decide
  refine ⟨⟨fun comment => by simp [text] at comment, fun output => absurd output named, fun either => by simp [text, owns] at either⟩,
    fun transition => ?_⟩
  have machine := (transition_iff.mp transition).1
  rw [category] at machine
  cases kind <;> exact absurd machine (by decide)

/-- Nodes built by hand take numbers of their own, too. -/
theorem coherent_adopt (coherent : Coherent none e) (crafted : Crafted n) (plain : n.kind ≠ .transition)
    (owner : NodeId) : Coherent none ((e.adopt n).2.addNode owner (e.adopt n).1) := by
  have start : e.nextId ≤ e.nextId + n.pins.length := Nat.le_add_right _ _
  have more : e.nextId ≤ (n.withFreshIds (e.nextId + n.pins.length)).2 := by
    change e.nextId ≤ e.nextId + n.pins.length + 1 + n.pins.length
    omega
  exact coherent_addNodeTo (coherent_drawn coherent more) (newcomer_withFreshIds coherent start crafted) (.inr plain)

theorem coherent_spawnInput (coherent : Coherent none e) (name : String) :
    Coherent none (e.spawnInput name).1 := by
  rw [spawnInput]
  split
  · exact coherent
  · rename_i v _
    obtain ⟨crafted, plain⟩ := crafted_property .input (n := { Node.ofName PropertyKind.input.token ⟨130, 170, 255⟩ with
      category := PropertyKind.input.token, outputs := [.ofProperty name v .output] }) rfl rfl (show PropertyKind.input.token ≠ "Output" by decide)
    exact coherent_adopt coherent crafted plain _

theorem coherent_spawnLocalVariable (coherent : Coherent none e) (name : String) (getter : Bool) :
    Coherent none (e.spawnLocalVariable name getter).1 := by
  rcases spawnLocalVariable_cases e name getter with same | ⟨v, inputs, outputs, _, found, -, rfl, result⟩
  · rw [same]
    exact coherent
  · have named : name ≠ "Output" := by
      rintro rfl
      exact coherent.named (get_mem_keys found)
    obtain ⟨crafted, plain⟩ := crafted_property .localVariable
      (n := { Node.ofName name (PinType.ofValue v).color with category := localVariableCategory, inputs, outputs }) rfl rfl named
    rw [result]
    exact coherent_adopt coherent crafted plain _

end PoseGraph.PropertyEdits
