import PoseGraph.Compilation
import PoseGraph.Editor.Properties
import PoseGraph.Editor.Saving
import PoseGraph.Editor.States

/-! The edits that an editor offers, and the editors that they reach from a new
asset. Whether an edit may be made can depend on the editor, so that runs can be
restricted to callers who ask before they edit. -/
namespace PoseGraph.EditRuns

/-- What a caller who is handed a node may change: how it is laid out and labelled,
and where it is in a blend space. -/
structure Layout where
  description : String
  color : Color
  position : Point
  size : Point
  offset : Point
  lerpSecondsPerUnit : Point

/-- Lay out a node. -/
def Layout.applyTo (layout : Layout) (n : Node) : Node :=
  { n with
    description := layout.description
    color := layout.color
    position := layout.position
    size := layout.size
    offset := layout.offset
    lerpSecondsPerUnit := layout.lerpSecondsPerUnit }

/-- A public operation with its arguments. -/
inductive Edit where
  | createNode (category name : String)
  | removeNodes (ids : List NodeId)
  | layNode (id : NodeId) (layout : Layout)
  | setPinValue (pin : PinId) (v : Value)
  | createLink (start finish : PinId)
  | removeLinks (ids : List LinkId)
  | addProperty (kind : PropertyKind) (v : Value)
  | removeProperty (kind : PropertyKind) (name : String)
  | setPropertyValue (kind : PropertyKind) (name : String) (v : Value)
  | renameProperty (kind : PropertyKind) (old new : String)
  | changePropertyType (kind : PropertyKind) (name : String) (v : Value)
  | spawnInput (name : String)
  | spawnLocalVariable (name : String) (getter : Bool)
  | createTransitionNode
  | createTransition (start finish : NodeId)
  | promoteQuickState (id : NodeId)
  | ensureEntry
  | ensureEntries
  | ensureSubGraph (id : NodeId)
  | enterNode (id : NodeId)
  | setPath (target : Option NodeId)
  | setSkeleton (handle : AssetHandle)
  | setSettings (settings : Settings)
  | sort
  | save
  | compile (session : CompileSession)

/-- The editor after an operation. -/
def Edit.apply (e : Editor) : Edit → Editor
  | createNode category name => (e.createNode category name).1
  | removeNodes ids => (e.removeNodes ids).1
  | layNode id layout => e.editNode id layout.applyTo
  | setPinValue pin v => (e.setPinValue pin v).1
  | createLink start finish => (e.createLink start finish).1
  | removeLinks ids => (e.removeLinks ids).1
  | addProperty kind v => (e.addProperty kind v).1
  | removeProperty kind name => (e.removeProperty kind name).1
  | setPropertyValue kind name v => (e.setPropertyValue kind name v).1
  | renameProperty kind old new => (e.renameProperty kind old new).1
  | changePropertyType kind name v => (e.changePropertyType kind name v).1
  | spawnInput name => (e.spawnInput name).1
  | spawnLocalVariable name getter => (e.spawnLocalVariable name getter).1
  | createTransitionNode => e.createTransitionNode.1
  | createTransition start finish => (e.createTransition start finish).1
  | promoteQuickState id => (e.promoteQuickState id).1
  | ensureEntry => e.ensureEntry
  | ensureEntries => e.ensureEntries
  | ensureSubGraph id => e.ensureSubGraph id
  | enterNode id => e.enterNode id
  | setPath target => e.setPath target
  | setSkeleton handle => e.setSkeleton handle
  | setSettings settings => e.setSettings settings
  | sort => e.sort
  | save => e.save.1
  | compile session => (e.compile session).1

/-- The editors that allowed edits reach from one over a new asset. Zero is drawn
for nothing. -/
inductive Reachable (allowed : Editor → Edit → Prop) : Editor → Prop where
  | start (name : String) (self : NodeId) (catalog : Catalog) (settings : Settings) (drawn : Nat) :
      Reachable allowed (.ofAsset (.ofName name self) catalog settings (drawn + 1))
  | step {e : Editor} {edit : Edit} (before : Reachable allowed e) (may : allowed e edit) :
      Reachable allowed (edit.apply e)

/-- Edits that may be made one after the other. -/
def Run (allowed : Editor → Edit → Prop) : Editor → List Edit → Prop
  | _, [] => True
  | e, edit :: edits => allowed e edit ∧ Run allowed (edit.apply e) edits

instance decidableRun {allowed : Editor → Edit → Prop} [∀ e edit, Decidable (allowed e edit)] :
    (e : Editor) → (edits : List Edit) → Decidable (Run allowed e edits)
  | _, [] => inferInstanceAs (Decidable True)
  | e, edit :: edits =>
    have : Decidable (Run allowed (edit.apply e) edits) := decidableRun (edit.apply e) edits
    inferInstanceAs (Decidable (_ ∧ _))

theorem reachable_of_run {allowed : Editor → Edit → Prop} {e : Editor} {edits : List Edit} (reachable : Reachable allowed e)
    (run : Run allowed e edits) : Reachable allowed (edits.foldl Edit.apply e) := by
  induction edits generalizing e with
  | nil => exact reachable
  | cons edit edits ih => exact ih (.step reachable run.1) run.2

/-- What is kept exactly by some edits holds throughout a run exactly if it consists of them. -/
theorem holds_throughout_iff (known : Editor → Prop) {holds : Editor → Prop} {allowed keeps : Editor → Edit → Prop}
    (onward : ∀ e edit, known e → allowed e edit → known (edit.apply e))
    (step : ∀ e edit, known e → allowed e edit → holds e → (holds (edit.apply e) ↔ keeps e edit))
    {e : Editor} {edits : List Edit} (start : known e) (run : Run allowed e edits) (before : holds e) :
    (∀ earlier, earlier <+: edits → holds (earlier.foldl Edit.apply e)) ↔ Run keeps e edits := by
  induction edits generalizing e with
  | nil =>
    refine iff_of_true (fun earlier first => ?_) trivial
    rw [List.prefix_nil.mp first]
    exact before
  | cons edit edits ih =>
    obtain ⟨may, rest⟩ := run
    have next := ih (onward e edit start may) rest
    constructor
    · intro always
      have after : holds (edit.apply e) := always [edit] (List.prefix_append [edit] edits)
      refine ⟨(step e edit start may before).mp after, (next after).mp fun earlier first => ?_⟩
      exact always (edit :: earlier) (List.cons_prefix_cons.mpr ⟨rfl, first⟩)
    · rintro ⟨kept, later⟩ earlier first
      have after : holds (edit.apply e) := (step e edit start may before).mpr kept
      rcases List.prefix_cons_iff.mp first with rfl | ⟨tail, rfl, shorter⟩
      · exact before
      · exact (next after).mpr later tail shorter

theorem run_any (e : Editor) (edits : List Edit) : Run (fun _ _ => True) e edits := by
  induction edits generalizing e with
  | nil => trivial
  | cons edit edits ih => exact ⟨trivial, ih _⟩

/-- The editors that any edits reach from one over a new asset. -/
def Reached : Editor → Prop := Reachable fun _ _ => True

theorem reached_run {e : Editor} (reached : Reached e) (edits : List Edit) : Reached (edits.foldl Edit.apply e) := by
  induction edits generalizing e with
  | nil => exact reached
  | cons edit edits ih => exact ih (.step reached trivial)

end PoseGraph.EditRuns
