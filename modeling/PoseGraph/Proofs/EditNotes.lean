import PoseGraph.Proofs.EditRuns
import PoseGraph.Proofs.StateEdits

/-! Which edits note that the asset has changed. Nearly all of them either set the
mark or leave the asset as it is; the others leave the mark as it is. -/
namespace PoseGraph.EditNotes
open EditOutcomes EditRuns Editor StateEdits

variable {e f : Editor} {n : Node}

/-- The second editor is marked as changed, or else it has the same asset. -/
def Noted (e f : Editor) : Prop :=
  f.isDirty = true ∨ f.asset = e.asset ∧ f.catalog = e.catalog ∧ f.isDirty = e.isDirty

theorem noted_refl (e : Editor) : Noted e e := .inr ⟨rfl, rfl, rfl⟩

theorem noted_marked (noted : Noted e f) (marked : e.isDirty = true) : f.isDirty = true :=
  noted.elim (fun now => now) fun same => same.2.2.trans marked

/-! ## Nodes and links -/

theorem ensureSubGraph_isDirty (e : Editor) (id : NodeId) : (e.ensureSubGraph id).isDirty = e.isDirty := by
  rcases ensureSubGraph_cases e id with same | ⟨n, -, ⟨-, same⟩ | ⟨output, graph, category, f, seeding⟩⟩
  · rw [same]
  · rw [same]
    rfl
  · have drew : f.isDirty = e.isDirty := spawn_isDirty seeding.spawn
    rw [seeding.result]
    exact drew

theorem ensureEntryOfMachine_isDirty (e : Editor) (owner : NodeId) :
    (e.ensureEntryOfMachine owner).isDirty = e.isDirty := by
  rw [ensureEntryOfMachine]
  split <;> rfl

theorem addNode_isDirty (e : Editor) (owner : NodeId) (n : Node) : (e.addNode owner n).isDirty = true := by
  rw [addNode, ensureEntryOfMachine_isDirty]
  split
  · rw [ensureSubGraph_isDirty]
    rfl
  · rfl

theorem dropLinksIn_isDirty (e : Editor) (owner : NodeId) (g : SubGraph) (dead : List Link) :
    (e.dropLinksIn owner g dead).isDirty = true := by
  rw [dropLinksIn, afterUnlink]
  split <;> rfl

theorem noted_removeLinksIn (e : Editor) (owner : NodeId) (ids : List LinkId) :
    Noted e (e.removeLinksIn owner ids).1 := by
  rcases removeLinksIn_cases e owner ids with same | ⟨g, -, -, same⟩
  · rw [same]
    exact noted_refl e
  · rw [same]
    exact .inl (dropLinksIn_isDirty e owner g _)

theorem noted_createLinkIn (e : Editor) (owner : NodeId) (start finish : PinId) :
    Noted e (e.createLinkIn owner start finish).1 := by
  rw [createLinkIn]
  split
  · exact noted_refl e
  · exact .inl rfl

/-- A round of removals marks the asset, and no later round takes the mark back. -/
theorem removeRounds_isDirty (owner : NodeId) (rounds : Nat) (e : Editor) (doomed : List NodeId) :
    (removeRounds owner (rounds + 1) e doomed).isDirty = true := by
  induction rounds generalizing e doomed with
  | zero =>
    rw [removeRounds]
    split
    · rw [ensureEntryOfMachine_isDirty]
      rfl
    · rfl
  | succ rounds ih =>
    rw [removeRounds]
    split
    · rw [ensureEntryOfMachine_isDirty]
      rfl
    · exact ih _ _

theorem noted_removeNodesIn (e : Editor) (owner : NodeId) (ids : List NodeId) :
    Noted e (e.removeNodesIn owner ids).1 := by
  rw [removeNodesIn]
  split
  · exact noted_refl e
  · dsimp only
    split
    · exact noted_refl e
    · exact .inl (removeRounds_isDirty owner _ e _)

theorem noted_createNode (e : Editor) (category name : String) : Noted e (e.createNode category name).1 := by
  rcases createNode_cases e category name with same | ⟨n, f, -, same⟩
  · rw [same]
    exact noted_refl e
  · rw [same]
    exact .inl (addNode_isDirty _ _ _)

theorem noted_setPinValue (e : Editor) (pin : PinId) (v : Value) : Noted e (e.setPinValue pin v).1 := by
  rcases setPinValue_cases e pin v with same | ⟨_, rfl, same | ⟨id, label, same⟩⟩
  · rw [same]
    exact noted_refl e
  all_goals
    rw [same]
    exact .inl rfl

/-! ## Properties and states -/

theorem noted_removeProperty (e : Editor) (kind : PropertyKind) (name : String) :
    Noted e (e.removeProperty kind name).1 := by
  rw [removeProperty]
  split
  · exact .inl rfl
  · exact noted_refl e

theorem noted_setPropertyValue (e : Editor) (kind : PropertyKind) (name : String) (v : Value) :
    Noted e (e.setPropertyValue kind name v).1 := by
  rw [Editor.setPropertyValue]
  split
  · exact .inl rfl
  · exact noted_refl e

theorem noted_renameProperty (e : Editor) (kind : PropertyKind) (old new : String) :
    Noted e (e.renameProperty kind old new).1 := by
  rcases renameProperty_cases e kind old new with same | ⟨v, f, renames⟩
  · rw [same]
    exact noted_refl e
  · rw [renames.result]
    exact .inl rfl

theorem noted_changePropertyType (e : Editor) (kind : PropertyKind) (name : String) (v : Value) :
    Noted e (e.changePropertyType kind name v).1 := by
  rcases changePropertyType_cases e kind name v with same | ⟨current, f, retyping⟩
  · rw [same]
    exact noted_refl e
  · rw [retyping.result]
    exact .inl rfl

theorem noted_spawnInput (e : Editor) (name : String) : Noted e (e.spawnInput name).1 := by
  rw [spawnInput]
  split
  · exact noted_refl e
  · exact .inl (addNode_isDirty _ _ _)

theorem noted_spawnLocalVariable (e : Editor) (name : String) (getter : Bool) :
    Noted e (e.spawnLocalVariable name getter).1 := by
  rcases spawnLocalVariable_cases e name getter with same | ⟨v, inputs, outputs, n, placing⟩
  · rw [same]
    exact noted_refl e
  · rw [placing.result]
    exact .inl (addNode_isDirty _ _ _)

theorem noted_createTransitionNode (e : Editor) : Noted e e.createTransitionNode.1 := by
  rw [createTransitionNode]
  split
  · exact noted_refl e
  · exact .inl (addNode_isDirty _ _ _)

theorem joinTransition_isDirty (owner transition start finish : NodeId) (middle : Point)
    (marked : e.isDirty = true) : (e.joinTransition owner transition start finish middle).1.isDirty = true :=
  joinTransition_keeps (P := (·.isDirty = true)) marked fun f a b => noted_marked (noted_createLinkIn f owner a b)

theorem noted_createTransition (e : Editor) (start finish : NodeId) :
    Noted e (e.createTransition start finish).1 := by
  rcases createTransition_cases e start finish with same | ⟨owner, g, a, b, f, transition, joining⟩
  · rw [same]
    exact noted_refl e
  · have added : e.createTransitionNode.1.isDirty = true := by
      rw [createTransitionNode, joining.active]
      exact addNode_isDirty _ _ _
    rw [joining.created] at added
    rw [joining.result]
    refine .inl (joinTransition_isDirty _ _ _ _ _ ?_)
    rw [ensureSubGraph_isDirty]
    exact added

theorem noted_setPath (e : Editor) (target : Option NodeId) : Noted e (e.setPath target) := by
  rw [setPath.eq_def]
  split <;> exact .inr ⟨rfl, rfl, rfl⟩

end PoseGraph.EditNotes
