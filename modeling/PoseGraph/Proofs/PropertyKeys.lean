import PoseGraph.Proofs.EditRuns
import PoseGraph.Proofs.PlacingEdits

/-! The names of the properties of an editor. Only the edits of properties change
them: they add a name that is not taken, take one away, or put one in place of
another. -/
namespace PoseGraph.PropertyKeys
open AssetOrder EditOutcomes EditRuns Editor PlacingEdits PropertyEdits StateEdits NodeEdits

variable {e f : Editor} {n : Node} {owner : NodeId} {ps : Properties} {kind other : PropertyKind}
variable {name old new key : String} {v : Value} {edit : Edit}

/-- The properties of each kind after a change of one kind. -/
theorem properties_modifyProperties (change : Properties → Properties) (other : PropertyKind) :
    (e.modifyProperties kind change).asset.properties other =
      if kind = other then change (e.asset.properties other) else e.asset.properties other := by
  cases kind <;> cases other <;> rfl

/-- Edits one after the other that change no property. -/
theorem properties_foldl {α : Type} (step : Editor → α → Editor)
    (each : ∀ e x, (step e x).asset.properties = e.asset.properties) (xs : List α) (e : Editor) :
    (xs.foldl step e).asset.properties = e.asset.properties := by
  induction xs generalizing e with
  | nil => rfl
  | cons x xs ih => exact (ih _).trans (each e x)

/-! ## Edits that leave properties alone -/

theorem dropLinksIn_properties (e : Editor) (owner : NodeId) (g : SubGraph) (dead : List Link) :
    (e.dropLinksIn owner g dead).asset.properties = e.asset.properties := by
  rw [dropLinksIn, afterUnlink]
  split <;> rfl

theorem removeDeadLinks_properties (e : Editor) (owner id : NodeId) :
    (e.removeDeadLinks owner id).asset.properties = e.asset.properties := by
  rcases removeDeadLinks_cases e owner id with same | ⟨g, -, same⟩
  · rw [same]
  · rw [same]
    exact dropLinksIn_properties e owner g _

theorem ensureEntryOfMachine_properties (e : Editor) (owner : NodeId) :
    (e.ensureEntryOfMachine owner).asset.properties = e.asset.properties := by
  rw [ensureEntryOfMachine]
  split <;> rfl

theorem removeRounds_properties {rounds : Nat} {doomed : List NodeId} :
    (removeRounds owner rounds e doomed).asset.properties = e.asset.properties := by
  have collected (count : Nat) (a : Asset) : (Asset.collectOrphans.go count a).properties = a.properties := by
    induction count generalizing a with
    | zero => rfl
    | succ count ih =>
      rw [Asset.collectOrphans.go]
      split
      · rfl
      · exact ih _
  induction rounds generalizing e doomed with
  | zero => rfl
  | succ rounds ih =>
    have dropped : (e.dropNodes owner doomed).asset.properties = e.asset.properties :=
      properties_foldl _ (fun e id => removeDeadLinks_properties e owner id) doomed e
    rw [removeRounds]
    split
    · exact (ensureEntryOfMachine_properties _ owner).trans
        ((collected (e.dropNodes owner doomed).asset.graphs.size _).trans dropped)
    · exact ih.trans dropped

theorem removeNodesIn_properties (e : Editor) (owner : NodeId) (ids : List NodeId) :
    (e.removeNodesIn owner ids).1.asset.properties = e.asset.properties := by
  rw [removeNodesIn]
  split
  · rfl
  · dsimp only
    split
    · rfl
    · exact removeRounds_properties

theorem removeLinksIn_properties (e : Editor) (owner : NodeId) (ids : List LinkId) :
    (e.removeLinksIn owner ids).1.asset.properties = e.asset.properties := by
  rcases removeLinksIn_cases e owner ids with same | ⟨g, -, -, same⟩
  · rw [same]
  · rw [same]
    exact dropLinksIn_properties e owner g _

theorem ensureGraph_properties (a : Asset) (id : NodeId) : (a.ensureGraph id).properties = a.properties := by
  rw [Asset.ensureGraph]
  split <;> rfl

theorem ensureSubGraph_properties (e : Editor) (id : NodeId) :
    (e.ensureSubGraph id).asset.properties = e.asset.properties := by
  rcases ensureSubGraph_cases e id with same | ⟨n, -, ⟨-, same⟩ | ⟨output, graph, category, f, seeding⟩⟩
  · rw [same]
  · rw [same]
    exact ensureGraph_properties e.asset id
  · have drew : f.asset.properties = e.asset.properties := congrArg Asset.properties (spawn_asset seeding.spawn)
    rw [seeding.result]
    exact (ensureGraph_properties f.asset id).trans drew

theorem addNode_properties (e : Editor) (owner : NodeId) (n : Node) :
    (e.addNode owner n).asset.properties = e.asset.properties := by
  have placed : (e.modifyAsset fun a => (a.ensureGraph owner).modifyGraph owner (·.addNode n)).asset.properties =
      e.asset.properties := ensureGraph_properties e.asset owner
  rw [addNode, ensureEntryOfMachine_properties]
  split
  · exact (ensureSubGraph_properties _ _).trans placed
  · exact placed

theorem createNode_properties (e : Editor) (category name : String) :
    (e.createNode category name).1.asset.properties = e.asset.properties := by
  rcases createNode_cases e category name with same | ⟨n, f, spawn, same⟩
  · rw [same]
  · rw [same]
    exact (addNode_properties _ _ _).trans (congrArg Asset.properties (spawn_asset spawn))

theorem displaceLinks_properties (e : Editor) (owner : NodeId) (pin : PinId) (kept : LinkId) :
    (e.displaceLinks owner pin kept).asset.properties = e.asset.properties := by
  rcases displaceLinks_cases e owner pin kept with same | ⟨ids, same⟩
  · rw [same]
  · rw [same]
    exact removeLinksIn_properties e owner ids

theorem createLinkIn_properties (e : Editor) (owner : NodeId) (start finish : PinId) :
    (e.createLinkIn owner start finish).1.asset.properties = e.asset.properties := by
  rw [createLinkIn]
  split
  · rfl
  · exact displaceLinks_properties _ owner _ _

theorem setPinValue_properties (e : Editor) (pin : PinId) (v : Value) :
    (e.setPinValue pin v).1.asset.properties = e.asset.properties := by
  rcases setPinValue_cases e pin v with same | ⟨_, rfl, same | ⟨id, label, same⟩⟩ <;> rw [same] <;> rfl

theorem createTransitionNode_properties (e : Editor) :
    e.createTransitionNode.1.asset.properties = e.asset.properties := by
  rw [createTransitionNode]
  split
  · rfl
  · exact addNode_properties _ _ _

theorem joinTransition_properties (e : Editor) (owner transition start finish : NodeId) (middle : Point) :
    (e.joinTransition owner transition start finish middle).1.asset.properties = e.asset.properties :=
  joinTransition_keeps (P := (·.asset.properties = e.asset.properties)) rfl
    fun f a b same => (createLinkIn_properties f owner a b).trans same

theorem createTransition_properties (e : Editor) (start finish : NodeId) :
    (e.createTransition start finish).1.asset.properties = e.asset.properties := by
  rcases createTransition_cases e start finish with same | ⟨owner, g, a, b, f, transition, joining⟩
  · rw [same]
  · have made := createTransitionNode_properties e
    rw [joining.created] at made
    rw [joining.result]
    exact ((joinTransition_properties _ _ _ _ _ _).trans (ensureSubGraph_properties _ _)).trans made

theorem playClip_properties (e : Editor) (owner : NodeId) (clip : Option Value) :
    (e.playClip owner clip).1.asset.properties = e.asset.properties := by
  rcases playClip_cases e owner clip with same | ⟨player, f, spawn, outcome⟩
  · rw [same]
  have drew : f.asset.properties = e.asset.properties := congrArg Asset.properties (spawn_asset spawn)
  rcases outcome with same | ⟨pose, sink, playing⟩
  · rw [same]
    exact drew
  have linked := (createLinkIn_properties (f.modifyGraph owner (·.addNode (loaded clip player))) owner pose.id sink).trans drew
  obtain ⟨_, rfl, same | ⟨same, -⟩⟩ := playing.result <;> rw [same] <;> exact linked

theorem promoteQuickState_properties (e : Editor) (id : NodeId) :
    (e.promoteQuickState id).1.asset.properties = e.asset.properties := by
  rcases promoteQuickState_cases e id with same | ⟨owner, quick, state, f, promotion⟩
  · rw [same]
  · have drew : f.asset.properties = e.asset.properties := congrArg Asset.properties (spawn_asset promotion.spawn)
    rw [promotion.result]
    exact ((playClip_properties _ _ _).trans (ensureSubGraph_properties _ _)).trans drew

theorem spawnInput_properties (e : Editor) (name : String) :
    (e.spawnInput name).1.asset.properties = e.asset.properties := by
  rw [spawnInput]
  split
  · rfl
  · exact addNode_properties _ _ _

theorem spawnLocalVariable_properties (e : Editor) (name : String) (getter : Bool) :
    (e.spawnLocalVariable name getter).1.asset.properties = e.asset.properties := by
  rcases spawnLocalVariable_cases e name getter with same | ⟨v, inputs, outputs, n, -, -, -, result⟩
  · rw [same]
  · rw [result]
    exact addNode_properties _ _ _

theorem ensureEntries_properties (e : Editor) : e.ensureEntries.asset.properties = e.asset.properties :=
  properties_foldl ensureEntryIn (fun _ _ => rfl) _ e

theorem sort_properties (e : Editor) : e.sort.asset.properties = e.asset.properties := by
  change e.asset.sorted.properties = _
  rw [sorted_rest]
  rfl

/-- Whether an edit is one of properties. -/
def editsProperties : Edit → Bool
  | .addProperty .. | .removeProperty .. | .setPropertyValue .. | .renameProperty .. | .changePropertyType .. => true
  | _ => false

theorem apply_properties (other : editsProperties edit = false) :
    (edit.apply e).asset.properties = e.asset.properties := by
  cases edit with
  | createNode category name => exact createNode_properties e category name
  | removeNodes ids => exact removeNodesIn_properties e _ ids
  | layNode => rfl
  | setPinValue pin v => exact setPinValue_properties e pin v
  | createLink start finish => exact createLinkIn_properties e _ start finish
  | removeLinks ids => exact removeLinksIn_properties e _ ids
  | addProperty | removeProperty | setPropertyValue | renameProperty | changePropertyType => cases other
  | spawnInput name => exact spawnInput_properties e name
  | spawnLocalVariable name getter => exact spawnLocalVariable_properties e name getter
  | createTransitionNode => exact createTransitionNode_properties e
  | createTransition start finish => exact createTransition_properties e start finish
  | promoteQuickState id => exact promoteQuickState_properties e id
  | ensureEntry => rfl
  | ensureEntries => exact ensureEntries_properties e
  | ensureSubGraph id => exact ensureSubGraph_properties e id
  | enterNode id => exact ensureSubGraph_properties (e.setPath (some id)) id
  | setPath target =>
    rw [Edit.apply, setPath.eq_def]
    split <;> rfl
  | setSkeleton | setSettings => rfl
  | sort | save => exact sort_properties e
  | compile session =>
    rw [Edit.apply, compile]
    dsimp only
    split <;> exact sort_properties e

/-! ## Edits of properties -/

theorem mem_keys_erase_iff : key ∈ (ps.erase name).keys ↔ key ∈ ps.keys ∧ key ≠ name := by
  constructor
  · intro member
    obtain ⟨entry, inside, rfl⟩ := List.mem_map.mp member
    obtain ⟨old, kept⟩ := List.mem_filter.mp inside
    exact ⟨List.mem_map_of_mem old, by simpa using kept⟩
  · rintro ⟨member, other⟩
    obtain ⟨entry, inside, rfl⟩ := List.mem_map.mp member
    exact List.mem_map_of_mem (List.mem_filter.mpr ⟨inside, by simpa using other⟩)

theorem mem_keys_addProperty (v : Value) : key ∈ ((e.addProperty kind v).1.asset.properties other).keys ↔
    key ∈ (e.asset.properties other).keys ∨ kind = other ∧ key = (e.asset.properties kind).uniqueName kind.defaultName := by
  change key ∈ ((e.modifyProperties kind fun ps =>
    Properties.sorted (ps.insert ((e.asset.properties kind).uniqueName kind.defaultName) v)).asset.properties other).keys ↔ _
  rw [properties_modifyProperties]
  split
  · rename_i same
    rw [mem_keys_sorted, mem_keys_insert]
    simp [same]
  · rename_i apart
    simp [apart]

/-- A new property is the last one if all names are then in order. -/
theorem addProperty_ordered {v : Value} (fresh : (e.asset.properties kind).uniqueName kind.defaultName = name)
    (ordered : ((e.asset.properties kind).insert name v).keys.Pairwise fun a b => lowercase a ≤ lowercase b) :
    (e.addProperty kind v).1 = (e.modifyProperties kind (·.insert name v)).invalidate := by
  rw [addProperty, fresh, modifyProperties, modifyAsset, sorted_of_ordered ordered]
  rfl

theorem mem_keys_removeProperty : key ∈ ((e.removeProperty kind name).1.asset.properties other).keys ↔
    key ∈ (e.asset.properties other).keys ∧ ¬(kind = other ∧ key = name) := by
  rw [removeProperty]
  split
  · change key ∈ (Asset.properties (List.foldl _ _ _ : Editor).asset other).keys ↔ _
    rw [properties_foldl _ (by exact fun e _ => removeNodesIn_properties e _ _), properties_modifyProperties]
    split
    · rename_i same
      rw [mem_keys_erase_iff]
      simp [same]
    · rename_i apart
      simp [apart]
  · rename_i absent
    refine (and_iff_left_of_imp ?_).symm
    rintro known ⟨rfl, rfl⟩
    exact absent (contains_iff.mpr known)

theorem mem_keys_setPropertyValue (v : Value) : key ∈ ((e.setPropertyValue kind name v).1.asset.properties other).keys ↔
    key ∈ (e.asset.properties other).keys := by
  rw [Editor.setPropertyValue]
  split
  · rename_i present
    change key ∈ (Asset.properties (List.foldl _ _ _ : Editor).asset other).keys ↔ _
    rw [properties_foldl _ (by exact fun _ _ => rfl), properties_modifyProperties]
    split
    · rename_i same
      subst same
      rw [mem_keys_insert]
      refine or_iff_left_of_imp ?_
      rintro rfl
      exact contains_iff.mp present
    · rfl
  · rfl

theorem mem_keys_changePropertyType (v : Value) :
    key ∈ ((e.changePropertyType kind name v).1.asset.properties other).keys ↔ key ∈ (e.asset.properties other).keys := by
  rcases changePropertyType_cases e kind name v with same | ⟨_, _, found, -, rfl, result⟩
  · rw [same]
  · rw [result]
    change key ∈ (Asset.properties (List.foldl _ _ _ : Editor).asset other).keys ↔ _
    rw [properties_foldl _ (by exact fun e _ => removeLinksIn_properties e _ _), properties_modifyProperties]
    split
    · rename_i same
      subst same
      rw [mem_keys_insert]
      refine or_iff_left_of_imp ?_
      rintro rfl
      exact get_mem_keys found
    · rfl

/-- A property gets a new name if that is valid. -/
theorem renameProperty_accepted (different : old ≠ new) : (e.renameProperty kind old new).2 = true ↔
    e.isPropertyNameValid kind new = true ∧ old ∈ (e.asset.properties kind).keys := by
  constructor
  · intro accepted
    obtain ⟨v, f, renames⟩ := renaming_of_accepted different accepted
    exact ⟨renames.free, get_mem_keys renames.found⟩
  · rintro ⟨valid, present⟩
    cases found : (e.asset.properties kind).get? old with
    | none => exact absurd present (get_eq_none_iff.mp found)
    | some v => simp [Editor.renameProperty, different, valid, found]

theorem renameProperty_refused (refused : (e.renameProperty kind old new).2 = false) :
    (e.renameProperty kind old new).1 = e := by
  rcases renameProperty_cases e kind old new with same | ⟨v, f, renames⟩
  · rw [same]
  · rw [renames.result] at refused
    cases refused

theorem mem_keys_renameProperty (different : old ≠ new) (accepted : (e.renameProperty kind old new).2 = true) :
    key ∈ ((e.renameProperty kind old new).1.asset.properties other).keys ↔
      if kind = other then key ∈ (e.asset.properties other).keys ∧ key ≠ old ∨ key = new
      else key ∈ (e.asset.properties other).keys := by
  obtain ⟨v, _, -, -, -, rfl, result⟩ := renaming_of_accepted different accepted
  rw [result]
  change key ∈ (Asset.properties (List.foldl _ _ _ : Editor).asset other).keys ↔ _
  rw [properties_foldl _ (by exact fun _ _ => rfl), properties_modifyProperties]
  split
  · rw [mem_keys_sorted, mem_keys_insert, mem_keys_erase_iff]
  · rfl

end PoseGraph.PropertyKeys
