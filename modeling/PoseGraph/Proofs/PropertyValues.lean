import PoseGraph.Proofs.PropertyKeys

/-! The values of the properties of an editor. An edit of a property gives just that one
another value, or hands its value on to another name. -/
namespace PoseGraph.PropertyValues
open AssetOrder EditOutcomes EditRuns Editor PropertyEdits PropertyKeys

variable {e : Editor} {ps : Properties} {kind other : PropertyKind} {name old new key : String} {v : Value}

theorem get_insert : (ps.insert name v).get? key = if key = name then some v else ps.get? key := by
  obtain ⟨entries, distinct⟩ := ps
  change Entries.get? (Entries.insert entries name v) key = if key = name then some v else Entries.get? entries key
  clear distinct
  induction entries with
  | nil =>
    by_cases here : key = name
    · simp [Entries.insert, Entries.get?, here]
    · simp [Entries.insert, Entries.get?, here, Ne.symm here]
  | cons entry entries ih =>
    obtain ⟨first, value⟩ := entry
    by_cases same : first = name
    · subst same
      by_cases here : key = first
      · simp [Entries.insert, Entries.get?, here]
      · simp [Entries.insert, Entries.get?, here, Ne.symm here]
    · by_cases here : first = key
      · subst here
        simp [Entries.insert, Entries.get?, same]
      · simpa [Entries.insert, Entries.get?, same, here] using ih

theorem get_erase : (ps.erase name).get? key = if key = name then none else ps.get? key := by
  refine Option.ext fun v => ?_
  rw [get_eq_some_iff]
  change (key, v) ∈ ps.entries.filter (fun entry => entry.1 != name) ↔ _
  rw [List.mem_filter, ← get_eq_some_iff]
  by_cases here : key = name <;> simp [here]

theorem get_sorted : (Properties.sorted ps).get? key = ps.get? key := by
  refine Option.ext fun v => ?_
  rw [get_eq_some_iff, get_eq_some_iff]
  exact List.mem_mergeSort

/-- The value of a property after an edit of the properties of one kind. -/
theorem value_modifyProperties (change : Properties → Properties) :
    ((e.modifyProperties kind change).asset.properties other).get? key =
      if kind = other then (change (e.asset.properties other)).get? key else (e.asset.properties other).get? key := by
  rw [properties_modifyProperties]
  split <;> rfl

theorem value_addProperty (v : Value) : ((e.addProperty kind v).1.asset.properties other).get? key =
    if kind = other ∧ key = (e.asset.properties kind).uniqueName kind.defaultName then some v
    else (e.asset.properties other).get? key := by
  change ((e.modifyProperties kind fun ps => Properties.sorted
    (ps.insert ((e.asset.properties kind).uniqueName kind.defaultName) v)).asset.properties other).get? key = _
  rw [value_modifyProperties, get_sorted, get_insert, ite_and]

theorem value_removeProperty (accepted : (e.removeProperty kind name).2 = true) :
    ((e.removeProperty kind name).1.asset.properties other).get? key =
      if kind = other ∧ key = name then none else (e.asset.properties other).get? key := by
  rw [removeProperty] at accepted ⊢
  split
  · change (Asset.properties (List.foldl _ _ _ : Editor).asset other).get? key = _
    rw [properties_foldl _ (by exact fun e _ => removeNodesIn_properties e _ _), value_modifyProperties, get_erase,
      ite_and]
  · rename_i absent
    rw [if_neg absent] at accepted
    cases accepted

theorem value_setPropertyValue (known : name ∈ (e.asset.properties kind).keys) (v : Value) :
    ((e.setPropertyValue kind name v).1.asset.properties other).get? key =
      if kind = other ∧ key = name then some v else (e.asset.properties other).get? key := by
  rw [Editor.setPropertyValue, if_pos (contains_iff.mpr known)]
  change (Asset.properties (List.foldl _ _ _ : Editor).asset other).get? key = _
  rw [properties_foldl _ (by exact fun _ _ => rfl), value_modifyProperties, get_insert, ite_and]

theorem value_changePropertyType (accepted : (e.changePropertyType kind name v).2 = true) :
    ((e.changePropertyType kind name v).1.asset.properties other).get? key =
      if kind = other ∧ key = name then some v else (e.asset.properties other).get? key := by
  obtain ⟨current, _, -, -, rfl, result⟩ := retyping_of_accepted accepted
  rw [result]
  change (Asset.properties (List.foldl _ _ _ : Editor).asset other).get? key = _
  rw [properties_foldl _ (by exact fun e _ => removeLinksIn_properties e _ _), value_modifyProperties, get_insert, ite_and]

/-- A new name takes over the value of the old one. -/
theorem value_renameProperty (different : old ≠ new) (accepted : (e.renameProperty kind old new).2 = true) :
    ((e.renameProperty kind old new).1.asset.properties other).get? key =
      if kind = other then
        if key = new then (e.asset.properties other).get? old
        else if key = old then none else (e.asset.properties other).get? key
      else (e.asset.properties other).get? key := by
  obtain ⟨v, _, -, -, found, rfl, result⟩ := renaming_of_accepted different accepted
  rw [result]
  change (Asset.properties (List.foldl _ _ _ : Editor).asset other).get? key = _
  rw [properties_foldl _ (by exact fun _ _ => rfl), value_modifyProperties, get_sorted, get_insert, get_erase]
  split
  · rename_i same
    rw [← same, found]
  · rfl

end PoseGraph.PropertyValues
