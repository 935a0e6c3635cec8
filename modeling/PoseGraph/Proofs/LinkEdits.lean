import PoseGraph.Proofs.EditorCoherence

/-! Creating and removing links keeps an editor coherent: literals change, links
come and go, and each new link takes a number of its own. -/
namespace PoseGraph.LinkEdits
open AssetOrder EditOutcomes Editor EditorCoherence NodeCraft

variable {e : Editor} {g h k : SubGraph} {owner id : NodeId} {pin start finish : PinId}
variable {except : Option NodeId} {palette : Palette} {dead : List Link}

/-! ## In one graph -/

theorem revised_modifyNode {f : Node → Node} (each : ∀ n ∈ g.nodes, n.id = id → Edited n (f n)) :
    Revised g (g.modifyNode id f) :=
  ⟨forall₂_modifyFirst edited_refl fun n member passes => each n member (by simpa using passes), .refl _⟩

theorem revised_modifyPin {f : Pin → Pin} (keeps : ∀ p, (f p).id = p.id) (g : SubGraph) (pin : PinId) :
    Revised g (g.modifyPin pin f) :=
  ⟨forall₂_modifyFirst edited_refl fun n _ _ => edited_modifyPin keeps n pin, .refl _⟩

theorem revised_withValue (g : SubGraph) (pin : PinId) (v : Value) :
    Revised g (g.modifyPin pin (·.withValue v)) :=
  revised_modifyPin (f := (·.withValue v)) (fun _ => rfl) g pin

theorem revised_resetPin (g : SubGraph) (pin : PinId) : Revised g (g.resetPin palette pin) := by
  rw [SubGraph.resetPin]
  split
  · exact revised_refl g
  · split
    · exact revised_refl g
    · split
      · exact revised_refl g
      · exact revised_withValue g pin _

theorem revised_dropLinks (g : SubGraph) (dead : List Link) : Revised g (g.dropLinks palette dead) := by
  have fold (pins : List PinId) (h : SubGraph) (revised : Revised g h) :
      Revised g (pins.foldl (SubGraph.resetPin palette) h) := by
    induction pins generalizing h with
    | nil => exact revised
    | cons pin pins ih => exact ih _ (revised_trans revised (revised_resetPin h pin))
  have reset := fold (dead.map Link.target) g (revised_refl g)
  exact revised_trans reset ⟨List.forall₂_same.mpr fun n _ => edited_refl n, List.filter_sublist⟩

theorem revised_restPose (g : SubGraph) : Revised g g.restPose := by
  rw [SubGraph.restPose]
  split
  · exact revised_refl g
  · split
    · exact revised_refl g
    · exact revised_withValue g _ _

/-! ## In an editor -/

theorem graph_modifyGraph_self {change : SubGraph → SubGraph} (held : e.asset.graph? owner = some g) :
    (e.modifyGraph owner change).asset.graph? owner = some (change g) := by
  rw [Editor.modifyGraph, modifyAsset, graph_modifyGraph, if_pos rfl, held]
  rfl

theorem coherent_afterUnlink (coherent : Coherent except e) (owner : NodeId) :
    Coherent except (e.afterUnlink owner) := by
  rw [afterUnlink]
  split
  · exact coherent_revise (coherent_invalidate coherent) fun g _ => revised_restPose g
  · exact coherent_invalidate coherent

theorem coherent_dropLinksIn (coherent : Coherent except e) (owner : NodeId) (g : SubGraph)
    (dead : List Link) : Coherent except (e.dropLinksIn owner g dead) :=
  coherent_afterUnlink (coherent_revise (coherent_spend coherent _) fun h _ => revised_dropLinks h dead) owner

/-- Dropping links leaves the nodes of the graph. -/
theorem graph_dropLinksIn (held : e.asset.graph? owner = some g) (k : SubGraph) (dead : List Link) :
    ∃ h, (e.dropLinksIn owner k dead).asset.graph? owner = some h ∧ Revised g h := by
  have dropped (palette : Palette) (count : Nat) : ((e.spend count).modifyGraph owner fun g =>
      g.dropLinks palette dead).asset.graph? owner = some (g.dropLinks palette dead) :=
    graph_modifyGraph_self (e := e.spend count) held
  rw [dropLinksIn, afterUnlink]
  split
  · exact ⟨_, graph_modifyGraph_self (e := Editor.invalidate _) (dropped _ _),
      revised_trans (revised_dropLinks g dead) (revised_restPose _)⟩
  · exact ⟨_, dropped _ _, revised_dropLinks g dead⟩

theorem coherent_removeLinksIn (coherent : Coherent except e) (owner : NodeId) (ids : List LinkId) :
    Coherent except (e.removeLinksIn owner ids).1 := by
  rcases removeLinksIn_cases e owner ids with same | ⟨g, -, -, same⟩
  · rw [same]
    exact coherent
  · rw [same]
    exact coherent_dropLinksIn coherent owner _ _

theorem coherent_displaceLinks (coherent : Coherent except e) (owner : NodeId) (pin : PinId) (kept : LinkId) :
    Coherent except (e.displaceLinks owner pin kept) := by
  rcases displaceLinks_cases e owner pin kept with same | ⟨ids, same⟩
  · rw [same]
    exact coherent
  · rw [same]
    exact coherent_revise (coherent_removeLinksIn coherent owner ids) fun g _ => revised_withValue g pin .void

/-- The number of a new link is the next one. -/
theorem newcomers_next (coherent : Coherent except e) :
    Newcomers { e with nextId := e.nextId + 1 } [e.nextId] := by
  refine ⟨List.nodup_singleton _, ?_, ?_⟩
  · intro i inside
    rw [List.mem_singleton.mp inside]
    exact ⟨coherent.positive, Nat.lt_succ_self _⟩
  · intro i inside taken
    rw [List.mem_singleton.mp inside] at taken
    exact absurd (coherent.drawn _ taken).2 (Nat.lt_irrefl _)

theorem coherent_addLink (coherent : Coherent except e) (owner : NodeId) (source target : PinId) (color : Color) :
    Coherent except (({ e with nextId := e.nextId + 1 } : Editor).modifyGraph owner fun g =>
      (g.modifyPin target (·.withValue .void)).addLink { id := ⟨e.nextId⟩, source, target, color }) := by
  have drawn : Coherent except { e with nextId := e.nextId + 1 } :=
    coherent_of_graphs coherent rfl (Nat.le_succ _) coherent.named
  apply coherent_develop drawn (newcomers_next coherent)
  intro g held
  refine develops_of_edited drawn held (revised_withValue g _ .void).nodes ?_
  rw [SubGraph.addLink, List.map_append]
  exact .refl _

theorem coherent_createLinkIn (coherent : Coherent except e) (owner : NodeId) (start finish : PinId) :
    Coherent except (e.createLinkIn owner start finish).1 := by
  rw [createLinkIn]
  split
  · exact coherent
  · exact coherent_invalidate (coherent_displaceLinks (coherent_addLink coherent owner _ _ _) owner _ _)

end PoseGraph.LinkEdits
