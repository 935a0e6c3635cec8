import PoseGraph.Proofs.EditRuns
import PoseGraph.Proofs.StateEdits

/-! Every editor that edits reach from a new asset is coherent. -/
namespace PoseGraph.ReachableEditors
open AssetOrder Editor EditRuns EditorCoherence LinkEdits NodeCraft NodeEdits PropertyEdits StateEdits

variable {e : Editor} {allowed : Editor → Edit → Prop}

theorem coherent_ensureEntries {except : Option NodeId} (coherent : Coherent except e) :
    Coherent except e.ensureEntries := by
  have fold (owners : List NodeId) (e : Editor) (coherent : Coherent except e) :
      Coherent except (owners.foldl ensureEntryIn e) := by
    induction owners generalizing e with
    | nil => exact coherent
    | cons owner owners ih => exact ih _ (coherent_ensureEntryIn coherent owner)
  exact fold _ e coherent

/-- An editor over a new asset is coherent: nothing has been made yet. -/
theorem coherent_start (name : String) (self : NodeId) (catalog : Catalog) (settings : Settings) (drawn : Nat) :
    Coherent none (.ofAsset (.ofName name self) catalog settings (drawn + 1)) := by
  refine coherent_ensureEntries ⟨Nat.succ_pos _, ?_, ?_, ?_, ?_, ?_, ?_⟩
  · exact List.nodup_nil
  · exact fun i inside => nomatch inside
  · exact fun n inside => nomatch inside
  · exact fun inside => nomatch inside
  · exact fun n inside => nomatch inside
  · intro owner g held
    have entry : (owner, g) ∈ [(NodeId.root, SubGraph.empty)] := get_eq_some_iff.mp held
    cases List.mem_singleton.mp entry
    exact .inl unjoined_empty

theorem coherent_compile {except : Option NodeId} (coherent : Coherent except e) (session : CompileSession) :
    Coherent except (e.compile session).1 := by
  have sorted := coherent_sort coherent
  rw [compile]
  dsimp only
  split
  · exact coherent_of_graphs sorted rfl (Nat.le_refl _) sorted.named
  · exact sorted

theorem coherent_setPath {except : Option NodeId} (coherent : Coherent except e) (target : Option NodeId) :
    Coherent except (e.setPath target) := by
  rw [setPath.eq_def]
  split
  · exact coherent_of_graphs coherent rfl (Nat.le_refl _) coherent.named
  · exact coherent_of_graphs coherent rfl (Nat.le_refl _) coherent.named

/-- No operation breaks what holds of an editor. -/
theorem coherent_apply (coherent : Coherent none e) (edit : Edit) : Coherent none (edit.apply e) := by
  cases edit with
  | createNode category name => exact coherent_createNode coherent category name
  | removeNodes ids => exact coherent_removeNodesIn coherent _ ids
  | layNode id layout =>
    exact coherent_editNode (f := layout.applyTo) coherent
      (fun n => ⟨rfl, rfl, rfl, rfl, rfl, .inl rfl, fun marked => marked⟩) id
  | setPinValue pin v => exact coherent_setPinValue coherent pin v
  | createLink start finish => exact coherent_createLinkIn coherent _ start finish
  | removeLinks ids => exact coherent_removeLinksIn coherent _ ids
  | addProperty kind v => exact coherent_addProperty coherent kind v
  | removeProperty kind name => exact coherent_removeProperty coherent kind name
  | setPropertyValue kind name v => exact coherent_setPropertyValue coherent kind name v
  | renameProperty kind old new => exact coherent_renameProperty coherent kind old new
  | changePropertyType kind name v => exact coherent_changePropertyType coherent kind name v
  | spawnInput name => exact coherent_spawnInput coherent name
  | spawnLocalVariable name getter => exact coherent_spawnLocalVariable coherent name getter
  | createTransitionNode => exact coherent_createTransitionNode coherent
  | createTransition start finish => exact coherent_createTransition coherent start finish
  | promoteQuickState id => exact coherent_promoteQuickState coherent id
  | ensureEntry => exact coherent_ensureEntryIn coherent _
  | ensureEntries => exact coherent_ensureEntries coherent
  | ensureSubGraph id => exact coherent_ensureSubGraph coherent id
  | enterNode id => exact coherent_invalidate (coherent_ensureSubGraph (coherent_setPath coherent (some id)) id)
  | setPath target => exact coherent_setPath coherent target
  | setSkeleton handle =>
    exact coherent_invalidate (coherent_of_graphs (f := e.modifyAsset fun a => { a with skeleton := handle })
      coherent rfl (Nat.le_refl _) coherent.named)
  | setSettings settings => exact coherent_of_graphs coherent rfl (Nat.le_refl _) coherent.named
  | sort => exact coherent_sort coherent
  | save => exact coherent_sort coherent
  | compile session => exact coherent_compile coherent session

/-- What holds of an editor holds after any run. -/
theorem coherent_reachable (reachable : Reachable allowed e) : Coherent none e := by
  induction reachable with
  | start name self catalog settings drawn => exact coherent_start name self catalog settings drawn
  | step before may ih => exact coherent_apply ih _

end PoseGraph.ReachableEditors
