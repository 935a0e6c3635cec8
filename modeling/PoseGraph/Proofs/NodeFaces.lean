import PoseGraph.Proofs.NavigationRuns

/-! What the nodes of each graph are, and which of them are marked as entries. That is
left of a node without its pins and its layout, and most edits change neither. -/
namespace PoseGraph.NodeFaces
open AssetOrder EditOutcomes EditRuns Editor EditorCoherence EditorSoundness IndexRanks NodeCraft NodeEdits StateEdits

variable {e f k : Editor} {g : SubGraph} {n m : Node} {owner id : NodeId} {change : SubGraph → SubGraph}
variable {kind : PropertyKind} {name : String} {v : Value} {ids : List NodeId} {dead : List Link} {palette : Palette}

/-- A node apart from its pins and its layout. -/
def face (n : Node) : Node :=
  { n with
    description := "", inputs := [], outputs := [], color := ⟨0, 0, 0⟩, position := .zero, size := .zero
    sortIndex := undefinedSortIndex, offset := .zero, lerpSecondsPerUnit := .zero }

/-- The faces of the nodes in the graph of an owner. -/
def faces (e : Editor) (owner : NodeId) : List Node := (graphOf e.asset owner).nodes.map face

/-- The second editor has the same faces in each graph. -/
def SameFaces (e f : Editor) : Prop := ∀ owner x, x ∈ faces f owner ↔ x ∈ faces e owner

theorem mem_faces (held : e.asset.graph? owner = some g) (member : n ∈ g.nodes) : face n ∈ faces e owner := by
  rw [faces, graphOf_eq held]
  exact List.mem_map_of_mem member

theorem node_of_face (member : m ∈ faces e owner) : ∃ n ∈ allNodes e.asset, face n = m := by
  obtain ⟨n, inside, rfl⟩ := List.mem_map.mp member
  exact ⟨n, mem_graphOf.mpr ⟨owner, inside⟩, rfl⟩

theorem sameFaces_refl (e : Editor) : SameFaces e e := fun _ _ => Iff.rfl

theorem sameFaces_trans (first : SameFaces e f) (second : SameFaces f k) : SameFaces e k :=
  fun owner x => (second owner x).trans (first owner x)

theorem faces_of_graphs (graphs : f.asset.graphs = e.asset.graphs) : faces f = faces e := by
  funext owner
  rw [faces, faces, graphOf, graphOf, Asset.graph?, Asset.graph?, graphs]

theorem sameFaces_of_graphs (graphs : f.asset.graphs = e.asset.graphs) : SameFaces e f := by
  intro owner x
  rw [faces_of_graphs graphs]

theorem sameFaces_invalidate (e : Editor) : SameFaces e e.invalidate := sameFaces_of_graphs rfl

theorem sameFaces_foldl {α : Type} {step : Editor → α → Editor} (each : ∀ e x, SameFaces e (step e x)) (xs : List α)
    (e : Editor) : SameFaces e (xs.foldl step e) := by
  induction xs generalizing e with
  | nil => exact sameFaces_refl e
  | cons x xs ih => exact sameFaces_trans (each e x) (ih _)

theorem faces_modifyGraph (held : e.asset.graph? owner = some g) :
    faces (e.modifyGraph owner change) id = if id = owner then (change g).nodes.map face else faces e id := by
  rw [faces, show graphOf (e.modifyGraph owner change).asset id = _ from graphOf_modifyGraph held]
  split <;> rfl

theorem modifyGraph_absent (missing : e.asset.graph? owner = none) : e.modifyGraph owner change = e := by
  rw [Editor.modifyGraph, modifyAsset, modifyGraph_missing missing]

theorem faces_ensureGraph : faces (e.modifyAsset (·.ensureGraph owner)) id = faces e id := by
  rw [faces, faces, modifyAsset, graphOf_ensureGraph]

theorem sameFaces_modifyGraph (still : ∀ g, ((change g).nodes.map face).Perm (g.nodes.map face)) :
    SameFaces e (e.modifyGraph owner change) := by
  cases held : e.asset.graph? owner with
  | none =>
    rw [modifyGraph_absent held]
    exact sameFaces_refl e
  | some g =>
    intro id x
    rw [faces_modifyGraph held]
    split
    · rename_i here
      rw [here, faces, graphOf_eq held]
      exact (still g).mem_iff
    · rfl

/-! ## Pins and links -/

theorem face_modifyPin (n : Node) (pin : PinId) (f : Pin → Pin) : face (n.modifyPin pin f) = face n := by
  rw [Node.modifyPin]
  split <;> rfl

theorem faces_modifyPin (g : SubGraph) (pin : PinId) (f : Pin → Pin) :
    (g.modifyPin pin f).nodes.map face = g.nodes.map face :=
  map_modifyFirst (fun n => face_modifyPin n pin f) _

theorem faces_modifyNode {f : Node → Node} (keeps : ∀ n, face (f n) = face n) (g : SubGraph) (id : NodeId) :
    (g.modifyNode id f).nodes.map face = g.nodes.map face :=
  map_modifyFirst keeps _

theorem faces_mapNodes {f : Node → Node} (keeps : ∀ n, face (f n) = face n) (g : SubGraph) (ids : List NodeId) :
    (g.mapNodes ids f).nodes.map face = g.nodes.map face := by
  rw [SubGraph.mapNodes, List.map_map]
  refine List.map_congr_left fun n _ => ?_
  rw [Function.comp_apply]
  split
  · exact keeps n
  · rfl

theorem faces_resetPin (palette : Palette) (g : SubGraph) (pin : PinId) :
    (g.resetPin palette pin).nodes.map face = g.nodes.map face := by
  rw [SubGraph.resetPin]
  split
  · rfl
  · split
    · rfl
    · split
      · rfl
      · exact faces_modifyPin g pin _

theorem faces_dropLinks (palette : Palette) (g : SubGraph) (dead : List Link) :
    (g.dropLinks palette dead).nodes.map face = g.nodes.map face := by
  have fold (pins : List PinId) (g : SubGraph) :
      (pins.foldl (SubGraph.resetPin palette) g).nodes.map face = g.nodes.map face := by
    induction pins generalizing g with
    | nil => rfl
    | cons pin pins ih => exact (ih _).trans (faces_resetPin palette g pin)
  exact fold _ g

theorem faces_restPose (g : SubGraph) : g.restPose.nodes.map face = g.nodes.map face := by
  rw [SubGraph.restPose]
  split
  · rfl
  · split
    · rfl
    · exact faces_modifyPin g _ _

theorem sameFaces_dropLinksIn (e : Editor) (owner : NodeId) (g : SubGraph) (dead : List Link) :
    SameFaces e (e.dropLinksIn owner g dead) := by
  have dropped (count : Nat) : SameFaces e ((e.spend count).modifyGraph owner fun g => g.dropLinks (e.palette owner) dead) :=
    sameFaces_trans (f := e.spend count) (sameFaces_of_graphs rfl)
      (sameFaces_modifyGraph fun g => .of_eq (faces_dropLinks _ g dead))
  rw [dropLinksIn, afterUnlink]
  split
  · exact sameFaces_trans (sameFaces_trans (dropped _) (sameFaces_invalidate _))
      (sameFaces_modifyGraph fun g => .of_eq (faces_restPose g))
  · exact sameFaces_trans (dropped _) (sameFaces_invalidate _)

theorem sameFaces_removeLinksIn (e : Editor) (owner : NodeId) (ids : List LinkId) :
    SameFaces e (e.removeLinksIn owner ids).1 := by
  rcases removeLinksIn_cases e owner ids with same | ⟨g, -, -, same⟩
  · rw [same]
    exact sameFaces_refl e
  · rw [same]
    exact sameFaces_dropLinksIn e owner _ _

theorem sameFaces_removeDeadLinks (e : Editor) (owner id : NodeId) : SameFaces e (e.removeDeadLinks owner id) := by
  rcases removeDeadLinks_cases e owner id with same | ⟨g, -, same⟩
  · rw [same]
    exact sameFaces_refl e
  · rw [same]
    exact sameFaces_dropLinksIn e owner _ _

theorem sameFaces_displaceLinks (e : Editor) (owner : NodeId) (pin : PinId) (kept : LinkId) :
    SameFaces e (e.displaceLinks owner pin kept) := by
  rcases displaceLinks_cases e owner pin kept with same | ⟨ids, same⟩
  · rw [same]
    exact sameFaces_refl e
  · rw [same]
    exact sameFaces_trans (sameFaces_removeLinksIn e owner _) (sameFaces_modifyGraph fun g => .of_eq (faces_modifyPin g pin _))

theorem sameFaces_createLinkIn (e : Editor) (owner : NodeId) (start finish : PinId) :
    SameFaces e (e.createLinkIn owner start finish).1 := by
  rw [createLinkIn]
  split
  · exact sameFaces_refl e
  · refine sameFaces_trans (f := { e with nextId := e.nextId + 1 }) (sameFaces_of_graphs rfl) ?_
    refine sameFaces_trans (sameFaces_modifyGraph fun g => ?_)
      (sameFaces_trans (sameFaces_displaceLinks _ _ _ _) (sameFaces_invalidate _))
    exact .of_eq (faces_modifyPin g _ _)

theorem sameFaces_setPinValue (e : Editor) (pin : PinId) (v : Value) : SameFaces e (e.setPinValue pin v).1 := by
  have set : SameFaces e (e.modifyGraph e.activeOwner (·.modifyPin pin (·.withValue v))).invalidate :=
    sameFaces_trans (sameFaces_modifyGraph fun g => .of_eq (faces_modifyPin g pin _)) (sameFaces_of_graphs rfl)
  rcases setPinValue_cases e pin v with same | ⟨_, rfl, same | ⟨id, label, same⟩⟩ <;> rw [same]
  · exact sameFaces_refl e
  · exact set
  · exact sameFaces_trans set (sameFaces_modifyGraph fun g => .of_eq (faces_modifyNode (by exact fun _ => rfl) g _))

theorem sameFaces_editNode (e : Editor) (id : NodeId) (layout : Layout) : SameFaces e (e.editNode id layout.applyTo) :=
  sameFaces_trans (sameFaces_modifyGraph fun g => .of_eq (faces_modifyNode (by exact fun _ => rfl) g id))
    (sameFaces_invalidate _)

theorem sameFaces_joinTransition (e : Editor) (owner transition start finish : NodeId) (middle : Point) :
    SameFaces e (e.joinTransition owner transition start finish middle).1 := by
  refine joinTransition_keeps ?_ fun f first second kept => sameFaces_trans kept (sameFaces_createLinkIn f owner first second)
  refine sameFaces_trans (f := drawn e (e.nextId + 4)) (sameFaces_of_graphs rfl) (sameFaces_modifyGraph fun g => .of_eq ?_)
  rw [withTransition]
  exact (faces_modifyNode (by exact fun _ => rfl) _ transition).trans
    ((faces_modifyNode (by exact fun _ => rfl) _ finish).trans (faces_modifyNode (by exact fun _ => rfl) g start))

/-! ## Properties and order -/

theorem sameFaces_modifyProperties (e : Editor) (kind : PropertyKind) (change : Properties → Properties) :
    SameFaces e (e.modifyProperties kind change) := by
  refine sameFaces_of_graphs ?_
  cases kind <;> rfl

theorem sameFaces_setPropertyValue (e : Editor) (kind : PropertyKind) (name : String) (v : Value) :
    SameFaces e (e.setPropertyValue kind name v).1 := by
  rw [Editor.setPropertyValue]
  split
  · refine sameFaces_trans (k := Editor.invalidate _) ?_ (sameFaces_invalidate _)
    exact sameFaces_trans (sameFaces_modifyProperties e kind _)
      (sameFaces_foldl (fun e _ => sameFaces_modifyGraph fun g => .of_eq (faces_mapNodes (by exact fun _ => rfl) g _)) _ _)
  · exact sameFaces_refl e

theorem sameFaces_changePropertyType (e : Editor) (kind : PropertyKind) (name : String) (v : Value) :
    SameFaces e (e.changePropertyType kind name v).1 := by
  rcases changePropertyType_cases e kind name v with same | ⟨current, _, -, -, rfl, result⟩
  · rw [same]
    exact sameFaces_refl e
  · rw [result]
    refine sameFaces_trans (k := Editor.invalidate _) ?_ (sameFaces_invalidate _)
    exact sameFaces_trans (sameFaces_modifyProperties e kind _)
      (sameFaces_foldl (fun e _ => sameFaces_trans (sameFaces_removeLinksIn e _ _)
        (sameFaces_modifyGraph fun g => .of_eq (faces_mapNodes (by exact fun _ => rfl) g _))) _ _)

theorem faces_entryFirst (g : SubGraph) : (g.entryFirst.nodes.map face).Perm (g.nodes.map face) := by
  refine ((List.mergeSort_perm _ _).map face).trans (.of_eq ?_)
  rw [List.map_map]
  rfl

theorem faces_inEvaluationOrder (g : SubGraph) : (g.inEvaluationOrder.nodes.map face).Perm (g.nodes.map face) := by
  rw [SubGraph.inEvaluationOrder, applyIndices_eq, List.map_map]
  exact (List.mergeSort_perm _ _).map face

theorem sameFaces_sort (e : Editor) : SameFaces e e.sort := by
  have step (e : Editor) (owner : NodeId) : SameFaces e (e.modifyAsset (·.sortGraph owner)) := by
    rw [modifyAsset, Asset.sortGraph]
    split
    · exact sameFaces_modifyGraph faces_entryFirst
    · exact sameFaces_modifyGraph faces_inEvaluationOrder
  have fold (owners : List NodeId) (e : Editor) : SameFaces e (e.modifyAsset (owners.foldl Asset.sortGraph)) := by
    induction owners generalizing e with
    | nil => exact sameFaces_refl e
    | cons owner owners ih => exact sameFaces_trans (step e owner) (ih _)
  exact fold e.asset.owners e

theorem sameFaces_compile (e : Editor) (session : CompileSession) : SameFaces e (e.compile session).1 := by
  rw [compile]
  dsimp only
  split
  · exact sameFaces_trans (sameFaces_sort e) (sameFaces_of_graphs rfl)
  · exact sameFaces_sort e

end PoseGraph.NodeFaces
