import PoseGraph.Proofs.EditRuns
import PoseGraph.Proofs.NamingEdits
import PoseGraph.Proofs.ReachableEditors

/-! The links of every graph that careful callers reach from a new asset. They ask
whether two pins can be linked before they link them, and the identities that are
drawn for them are new. Then all identities in a graph differ, pins are bound to
their nodes, and every link leads from an output to an input of another node that
carries the same, at most one to each input. -/
namespace PoseGraph.LinkInvariant
open AssetOrder Editor EditRuns EditorCoherence EditorSoundness GraphDependencies GraphWiring LinkingEdits NamingEdits NodeEdits
  NodeFrames PlacingEdits PropertyKeys ReachableEditors SheddingEdits StateEdits

variable {e f : Editor} {g : SubGraph} {n : Node} {owner : NodeId} {edit : Edit} {edits : List Edit}

/-! ## Careful runs -/

/-- The pins that an edit links. -/
def linked? : Edit → Option (PinId × PinId)
  | .createLink start finish => some (start, finish)
  | _ => none

/-- A caller asks before linking, and what is drawn for an edit is new. -/
def Careful (e : Editor) (edit : Edit) : Prop :=
  (∀ ends ∈ linked? edit, e.linkVerdict ends.1 ends.2 = .canConnect) ∧ Vacant e (edit.apply e)

instance (e f : Editor) : Decidable (Vacant e f) := inferInstanceAs (Decidable (∀ id ∈ e.asset.owners, _ ∨ _))

instance (e : Editor) (edit : Edit) : Decidable (Careful e edit) := inferInstanceAs (Decidable (_ ∧ _))

/-- All edits of a run are careful. -/
def CarefulRun : Editor → List Edit → Prop
  | _, [] => True
  | e, edit :: edits => Careful e edit ∧ CarefulRun (edit.apply e) edits

instance decidableCarefulRun : (e : Editor) → (edits : List Edit) → Decidable (CarefulRun e edits)
  | _, [] => inferInstanceAs (Decidable True)
  | e, edit :: edits =>
    have := decidableCarefulRun (edit.apply e) edits
    inferInstanceAs (Decidable (_ ∧ _))

theorem reachable_run (reachable : Reachable Careful e) (careful : CarefulRun e edits) :
    Reachable Careful (edits.foldl Edit.apply e) := by
  induction edits generalizing e with
  | nil => exact reachable
  | cons edit edits ih => exact ih (.step reachable careful.1) careful.2

theorem declared_start (name : String) (self : NodeId) (catalog : Catalog) (settings : Settings) (drawn : Nat) :
    Declared (.ofAsset (.ofName name self) catalog settings (drawn + 1)) := by
  let bare : Editor :=
    { asset := (Asset.ofName name self).ensureGraph .root, catalog, settings, path := [], isDirty := true, nextId := drawn + 1 }
  have graphs (owner : NodeId) : graphOf bare.asset owner = .empty := graphOf_ensureGraph.trans (graphOf_ofName name self owner)
  have nodes : allNodes bare.asset = [] := allNodes_ensureGraph _ _
  have none (owner : NodeId) : (graphOf bare.asset owner).nodes = [] := congrArg SubGraph.nodes (graphs owner)
  have sound : Declared bare := by
    refine ⟨?_, fun owner => ?_, fun owner => ?_, ?_, fun _ known => (nomatch known), fun owner => .inl ?_,
      fun owner => .inl ?_, ?_⟩
    · simp [nodes]
    · rw [graphs]
      exact wired_empty
    · rw [graphs]
      exact fun _ inside => nomatch inside
    · simp [nodes]
    · simp [none]
    · simp [none]
    · simp [nodes]
  exact declared_same (sound_sheds sound (sheds_ensureEntries bare)) (ensureEntries_properties bare)

theorem declared_compile (sound : Declared e) (session : CompileSession) : Declared (e.compile session).1 := by
  have sorted : Declared e.sort := declared_same (sound_sheds sound (sheds_sort e)) (sort_properties e)
  rw [compile]
  dsimp only
  split
  · exact sound_of_graphs sorted rfl (Nat.le_refl _)
  · exact sorted

/-- No careful edit breaks what is sound. -/
theorem declared_apply (coherent : Coherent none e) (sound : Declared e) (careful : Careful e edit) :
    Declared (edit.apply e) := by
  obtain ⟨asked, vacant⟩ := careful
  cases edit with
  | createNode category name =>
    exact declared_same (sound_createNode coherent sound category name vacant) (createNode_properties e category name)
  | removeNodes ids =>
    exact declared_same (sound_sheds sound (sheds_removeNodesIn coherent _ ids)) (removeNodesIn_properties e _ ids)
  | layNode id layout =>
    exact declared_same (sound_sheds sound (sheds_editNode (f := layout.applyTo) e id fun _ => rfl)) rfl
  | setPinValue pin v =>
    exact declared_same (sound_sheds sound (sheds_setPinValue e pin v)) (setPinValue_properties e pin v)
  | createLink start finish =>
    exact declared_same (sound_createLink coherent sound (asked (start, finish) rfl)) (createLinkIn_properties e _ start finish)
  | removeLinks ids =>
    exact declared_same (sound_sheds sound (sheds_removeLinksIn e _ ids)) (removeLinksIn_properties e _ ids)
  | addProperty kind v => exact declared_addProperty sound kind v
  | removeProperty kind name => exact declared_removeProperty coherent sound kind name
  | setPropertyValue kind name v => exact declared_setPropertyValue sound kind name v
  | renameProperty kind old new => exact declared_renameProperty coherent sound kind old new
  | changePropertyType kind name v => exact declared_changePropertyType coherent sound kind name v
  | spawnInput name =>
    exact declared_same (sound_spawnInput coherent sound name) (spawnInput_properties e name)
  | spawnLocalVariable name getter =>
    exact declared_same (sound_spawnLocalVariable coherent sound name getter) (spawnLocalVariable_properties e name getter)
  | createTransitionNode =>
    exact declared_same (sound_createTransitionNode coherent sound) (createTransitionNode_properties e)
  | createTransition start finish =>
    exact declared_same (sound_createTransition coherent sound start finish) (createTransition_properties e start finish)
  | promoteQuickState id =>
    exact declared_same (sound_promoteQuickState coherent sound id) (promoteQuickState_properties e id)
  | ensureEntry => exact declared_same (sound_sheds sound (sheds_ensureEntryIn e _)) rfl
  | ensureEntries => exact declared_same (sound_sheds sound (sheds_ensureEntries e)) (ensureEntries_properties e)
  | ensureSubGraph id =>
    exact declared_same (sound_ensureSubGraph coherent sound id) (ensureSubGraph_properties e id)
  | enterNode id =>
    have moved : (e.setPath (some id)).asset = e.asset := rfl
    have there : Declared (e.setPath (some id)) := sound_of_graphs sound rfl (Nat.le_refl _)
    exact sound_invalidate (declared_same (sound_ensureSubGraph (coherent_setPath coherent _) there id)
      (ensureSubGraph_properties _ id))
  | setPath target =>
    rw [Edit.apply, setPath.eq_def]
    split
    · exact sound_of_graphs sound rfl (Nat.le_refl _)
    · exact sound_of_graphs sound rfl (Nat.le_refl _)
  | setSkeleton handle => exact sound_of_graphs sound rfl (Nat.le_refl _)
  | setSettings settings => exact sound_of_graphs sound rfl (Nat.le_refl _)
  | sort => exact declared_same (sound_sheds sound (sheds_sort e)) (sort_properties e)
  | save => exact declared_same (sound_sheds sound (sheds_sort e)) (sort_properties e)
  | compile session => exact declared_compile sound session

/-- What is sound stays so over any careful run. -/
theorem declared_reachable (reachable : Reachable Careful e) : Declared e := by
  induction reachable with
  | start name self catalog settings drawn => exact declared_start name self catalog settings drawn
  | step before may ih => exact declared_apply (coherent_reachable before) ih may

/-! ## The link invariant -/

/-- A graph whose identities differ and whose links fit. -/
structure Consistent (g : SubGraph) : Prop where
  nodes : (g.nodes.map Node.id).Nodup
  pins : ((g.nodes.flatMap Node.pins).map Pin.id).Nodup
  links : (g.links.map Link.id).Nodup
  bound : ∀ n ∈ g.nodes, (∀ p ∈ n.inputs, p.node = n.id ∧ p.kind = .input) ∧
    ∀ p ∈ n.outputs, p.node = n.id ∧ p.kind = .output
  joins : ∀ l ∈ g.links, ∃ m ∈ g.nodes, ∃ p ∈ m.outputs, ∃ n ∈ g.nodes, ∃ q ∈ n.inputs,
    p.id = l.source ∧ q.id = l.target ∧ m.id ≠ n.id ∧ p.type = q.type ∧ p.storage = q.storage
  apart : (g.links.map Link.target).Nodup

/-- Every graph that careful callers reach is consistent. -/
theorem reachable_consistent (reachable : Reachable Careful e) (held : e.asset.graph? owner = some g) : Consistent g := by
  have coherent := coherent_reachable reachable
  have sound := declared_reachable reachable
  have unique := identified_unique (identified_of_coherent coherent) held
  have wired : Wired g := graphOf_eq held ▸ sound.wired owner
  refine ⟨unique.nodes, unique.pins, ?_, fun n member => ?_, wired.joins, wired.apart⟩
  · have values := coherent.distinct.sublist ((List.sublist_append_right _ _).trans (identities_sublist held))
    rw [← Function.comp_def, ← List.map_map] at values
    exact values.of_map
  · have made := graph_made sound held n member
    exact ⟨made.bound.inputs, made.bound.outputs⟩

/-- The output takes its pose from one reader of a variable, then from another one. -/
def reposed : List Edit :=
  [.addProperty .localVariable (.int64 0), .spawnLocalVariable "New Variable" true,
    .spawnLocalVariable "New Variable" true, .createNode "Animation" "Output", .createLink ⟨3⟩ ⟨9⟩, .createLink ⟨6⟩ ⟨9⟩]

/-- The second link has displaced the first one. -/
theorem reposed_consistent : ∃ g, (reposed.foldl Edit.apply (.ofAsset (.ofName "Wave" ⟨1⟩) .empty .default 1)).asset.graph?
    .root = some g ∧ g.links.map Link.source = [⟨6⟩] ∧ Consistent g := by
  have careful : CarefulRun (.ofAsset (.ofName "Wave" ⟨1⟩) .empty .default 1) reposed := by decide +kernel
  have reachable := reachable_run (.start "Wave" ⟨1⟩ .empty .default 0) careful
  have sources : (((reposed.foldl Edit.apply (.ofAsset (.ofName "Wave" ⟨1⟩) .empty .default 1)).asset.graph? .root).map
      fun g => g.links.map Link.source) = some [⟨6⟩] := by decide +kernel
  obtain ⟨g, held, source⟩ := Option.map_eq_some_iff.mp sources
  exact ⟨g, held, source, reachable_consistent reachable held⟩

end PoseGraph.LinkInvariant
