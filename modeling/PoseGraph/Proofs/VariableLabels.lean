import PoseGraph.Proofs.StandingNodes

/-! The names of local variables and of their nodes. A node that stands for a variable is
called after it, whatever is edited, and no variable is called like the nodes at which a
graph ends. -/
namespace PoseGraph.VariableLabels
open EditRuns Editor EditorCoherence EditorSoundness GraphDependencies NamingEdits NodeFrames PropertyEdits PropertyKeys
  PropertyNodes ReachableEditors StandingNodes StateEdits

variable {e f : Editor} {m n : Node} {t : Node → Node} {owner start finish : NodeId} {base : Nat}
variable {kind : PropertyKind} {name old new : String} {v : Value} {edit : Edit}

/-- A node that stands for a local variable is called after it. -/
def Labelled (n : Node) : Prop := ∀ name, n.variableName? = some name → n.name = name

theorem labelled_foreign (foreign : Foreign n) : Labelled n := fun _ named =>
  absurd foreign (stands_native (stands_variable.mpr named))

theorem labelled_sameFrame (labelled : Labelled n) (same : SameFrame n m) : Labelled m := fun name named =>
  same.name.trans (labelled name ((sameFrame_variableName same).symm.trans named))

theorem labelled_joined (labelled : Labelled n) (bearing : Bearing n) (differ : start ≠ finish) :
    Labelled (joined base start finish n) := fun name named =>
  labelled name (stands_variable.mp ((stands_joined_iff bearing differ).mp (stands_variable.mpr named)).1)

theorem labelled_retagged (labelled : Labelled n) : Labelled (forProperty kind old (retagged old v) n) := by
  rw [forProperty]
  split
  · intro name named
    rw [← stands_variable, stands_retagged, stands_variable] at named
    exact labelled name named
  · exact labelled

/-- A node gets the name of its variable together with the pin. -/
theorem labelled_renamed (labelled : Labelled n) : Labelled (forProperty kind old (renamed kind old new) n) := by
  rw [forProperty]
  split
  · rename_i stands
    intro name named
    have other := stands_category (stands_variable.mpr named)
    have native : kind = .localVariable := by
      refine token_injective ((stands_category stands).symm.trans (.trans ?_ other))
      rw [renamed]
      split <;> rfl
    subst native
    exact stands_unique (stands_renamed stands) (stands_variable.mpr named)
  · exact labelled

/-! ## Editors -/

/-- What holds of the names of variables and of their nodes. -/
structure Worded (e : Editor) : Prop where
  labels : ∀ owner, ∀ n ∈ (graphOf e.asset owner).nodes, Labelled n
  unreserved : ∀ name ∈ e.asset.localVariables.keys, name ≠ "Output" ∧ name ≠ "Event"

theorem labels_stems (stems : Stems t e f)
    (each : ∀ owner, ∀ n ∈ (graphOf e.asset owner).nodes, Labelled (t n)) (owner : NodeId) (m : Node)
    (inside : m ∈ (graphOf f.asset owner).nodes) : Labelled m := by
  rcases stems owner m inside with foreign | ⟨n, before, same⟩
  · exact labelled_foreign foreign
  · exact labelled_sameFrame (each owner n before) same

/-- Whatever is edited, nodes of variables are called after them. -/
theorem labels_apply (coherent : Coherent none e) (registered : Registered e) (worded : Worded e) (owner : NodeId)
    (m : Node) (inside : m ∈ (graphOf (edit.apply e).asset owner).nodes) : Labelled m := by
  have unmoved (same : (edit.apply e).asset = e.asset) : Labelled m := by
    rw [same] at inside
    exact worded.labels owner m inside
  cases edit with
  | renameProperty kind old new =>
    by_cases same : old = new
    · exact unmoved (by rw [Edit.apply, Editor.renameProperty, if_pos same])
    · cases accepted : (e.renameProperty kind old new).2 with
      | false => exact unmoved (by rw [Edit.apply, renameProperty_refused accepted])
      | true =>
        rw [Edit.apply, renamed_renameProperty coherent same accepted] at inside
        obtain ⟨n, before, rfl⟩ := List.mem_map.mp inside
        exact labelled_renamed (worded.labels owner n before)
  | changePropertyType kind name v =>
    cases accepted : (e.changePropertyType kind name v).2 with
    | false => exact unmoved (RejectedEdits.rejected_changePropertyType accepted).1
    | true =>
      exact labels_stems (stems_changePropertyType coherent accepted)
        (fun owner n before => labelled_retagged (worded.labels owner n before)) owner m inside
  | createTransition start finish =>
    cases accepted : (e.createTransition start finish).2.isSome with
    | false => exact unmoved (RejectedEdits.rejected_createTransition coherent start finish accepted).1
    | true =>
      obtain ⟨_, _, _, _, _, _, joining⟩ := createTransition_accepted accepted
      obtain ⟨base, stems, -⟩ := joined_createTransition coherent accepted
      exact labels_stems stems (fun owner n before =>
        labelled_joined (worded.labels owner n before) (registered.bearing owner n before) joining.differ) owner m inside
  | spawnInput name =>
    rcases spawnInput_gains e name with same | ⟨v, new, -, made, gains⟩
    · exact unmoved (by rw [Edit.apply, same])
    · rcases gains owner m inside with foreign | ⟨n, before, same⟩ | ⟨-, same⟩
      · exact labelled_foreign foreign
      · exact labelled_sameFrame (worded.labels owner n before) same
      · intro name named
        have relay := stands_category (stands_variable.mpr named)
        rw [stands_category (sameFrame_fresh same made).stands] at relay
        exact absurd relay (by decide)
  | spawnLocalVariable name getter =>
    rcases spawnLocalVariable_gains e name getter with same | ⟨v, new, -, made, called, gains, -⟩
    · exact unmoved (by rw [Edit.apply, same])
    · rcases gains owner m inside with foreign | ⟨n, before, same⟩ | ⟨-, same⟩
      · exact labelled_foreign foreign
      · exact labelled_sameFrame (worded.labels owner n before) same
      · refine labelled_sameFrame (fun other named => ?_) same
        rw [called]
        exact stands_unique made.stands (stands_variable.mpr named)
  | _ => exact labels_stems (stems_apply coherent _ rfl) worded.labels owner m inside

/-- No variable is added or renamed to what the nodes at the end of a graph are called. -/
theorem unreserved_apply (worded : Worded e) (inside : name ∈ (edit.apply e).asset.localVariables.keys) :
    name ≠ "Output" ∧ name ≠ "Event" := by
  have before (inside : name ∈ (e.asset.properties .localVariable).keys) := worded.unreserved name inside
  change name ∈ ((edit.apply e).asset.properties .localVariable).keys at inside
  cases edit with
  | addProperty kind v =>
    rcases (mem_keys_addProperty v).mp inside with known | ⟨rfl, rfl⟩
    · exact before known
    · exact ⟨uniqueName_free _ (by decide), uniqueName_free _ (by decide)⟩
  | removeProperty kind name => exact before (mem_keys_removeProperty.mp inside).1
  | setPropertyValue kind name v => exact before ((mem_keys_setPropertyValue v).mp inside)
  | changePropertyType kind name v => exact before ((mem_keys_changePropertyType v).mp inside)
  | renameProperty kind old new =>
    by_cases same : old = new
    · rw [Edit.apply, Editor.renameProperty, if_pos same] at inside
      exact before inside
    · cases accepted : (e.renameProperty kind old new).2 with
      | false =>
        rw [Edit.apply, renameProperty_refused accepted] at inside
        exact before inside
      | true =>
        rw [Edit.apply, mem_keys_renameProperty same accepted] at inside
        split at inside
        · rcases inside with ⟨known, -⟩ | rfl
          · exact before known
          · exact (valid_unreserved ((renameProperty_accepted same).mp accepted).1).2
        · exact before inside
  | _ =>
    rw [apply_properties rfl] at inside
    exact before inside

theorem worded_reached (reached : Reached e) : Worded e := by
  induction reached with
  | start label self catalog settings drawn =>
    refine ⟨fun owner n member => ?_, fun name inside => ?_⟩
    · rw [start_nodes] at member
      cases member
    · change name ∈ (Asset.properties _ .localVariable).keys at inside
      rw [ofAsset, ensureEntries_properties] at inside
      cases inside
  | step before may ih =>
    exact ⟨labels_apply (coherent_reachable before) (registered_reached before) ih,
      fun _ inside => unreserved_apply ih inside⟩

end PoseGraph.VariableLabels
