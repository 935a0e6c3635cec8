import PoseGraph.Proofs.InputSupply
import PoseGraph.Proofs.LinkEdits

/-! The links of a graph after an edit of links, exactly. A new link takes the place of
those that arrived at its target; all others stay. -/
namespace PoseGraph.LinkDisplacement
open Editor EditorCoherence InputSupply LinkEdits

variable {e : Editor} {g : SubGraph} {l : Link} {owner : NodeId} {start finish source target : PinId} {type : PinType}
variable {except : Option NodeId} {palette : Palette}

theorem links_dropLinks (g : SubGraph) (dead : List Link) :
    (g.dropLinks palette dead).links = g.links.filter fun l => !dead.any fun d => d.id == l.id := by
  have reset (pins : List PinId) (g : SubGraph) : (pins.foldl (SubGraph.resetPin palette) g).links = g.links := by
    induction pins generalizing g with
    | nil => rfl
    | cons pin pins ih => exact (ih _).trans (resetPin_links g pin)
  rw [SubGraph.dropLinks]
  dsimp only
  rw [reset]

theorem links_removeLinksIn (held : e.asset.graph? owner = some g) (ids : List LinkId) :
    ∃ h, (e.removeLinksIn owner ids).1.asset.graph? owner = some h ∧ ∀ l, l ∈ h.links ↔ l ∈ g.links ∧ l.id ∉ ids := by
  have left (l : Link) : (l ∈ g.links ∧ (!(g.links.filter fun l => ids.contains l.id).any fun d => d.id == l.id) = true) ↔
      l ∈ g.links ∧ l.id ∉ ids := by
    refine and_congr_right fun link => ?_
    rw [Bool.not_eq_true', List.any_eq_false]
    constructor
    · exact fun spared listed => spared l (List.mem_filter.mpr ⟨link, List.contains_iff_mem.mpr listed⟩) (beq_self_eq_true _)
    · intro unlisted d doomed same
      rw [← beq_iff_eq.mp same] at unlisted
      exact unlisted (List.contains_iff_mem.mp (List.mem_filter.mp doomed).2)
  rw [removeLinksIn, held]
  dsimp only
  split
  · rename_i none
    refine ⟨g, held, fun l => (left l).symm.trans ?_ |>.symm⟩
    rw [List.isEmpty_iff.mp none]
    simp
  · have dropped (count : Nat) : ((e.spend count).modifyGraph owner fun k =>
        k.dropLinks (e.palette owner) (g.links.filter fun l => ids.contains l.id)).asset.graph? owner =
          some (g.dropLinks (e.palette owner) (g.links.filter fun l => ids.contains l.id)) :=
      graph_modifyGraph_self (e := e.spend count) held
    rw [dropLinksIn, afterUnlink]
    split
    · refine ⟨_, graph_modifyGraph_self (e := Editor.invalidate _) (dropped _), fun l => ?_⟩
      rw [restPose_links, links_dropLinks, List.mem_filter]
      exact left l
    · refine ⟨_, dropped _, fun l => ?_⟩
      rw [links_dropLinks, List.mem_filter]
      exact left l

/-- All other links at the pin are gone, and no link elsewhere. -/
theorem links_displaceLinks (held : e.asset.graph? owner = some g) (distinct : (g.links.map Link.id).Nodup) (link : l ∈ g.links) :
    ∃ h, (e.displaceLinks owner l.target l.id).asset.graph? owner = some h ∧
      ∀ x, x ∈ h.links ↔ x = l ∨ x ∈ g.links ∧ x.target ≠ l.target := by
  have left (x : Link) : x ∈ g.links ∧ x.id ∉ (g.links.filter fun x => x.target == l.target && x.id != l.id).map Link.id ↔
      x = l ∨ x ∈ g.links ∧ x.target ≠ l.target := by
    have doomed : x.id ∈ (g.links.filter fun x => x.target == l.target && x.id != l.id).map Link.id ↔
        ∃ y ∈ g.links, y.target = l.target ∧ y.id ≠ l.id ∧ y.id = x.id := by
      simp [and_assoc]
    rw [doomed]
    constructor
    · rintro ⟨inside, spared⟩
      refine or_iff_not_imp_right.mpr fun here => ?_
      rw [not_and, not_not] at here
      by_contra other
      exact spared ⟨x, inside, here inside, fun same => other (List.inj_on_of_nodup_map distinct inside link same), rfl⟩
    · rintro (rfl | ⟨inside, apart⟩)
      · exact ⟨link, fun ⟨_, _, _, differs, same⟩ => differs same⟩
      · refine ⟨inside, fun ⟨y, also, arrives, _, same⟩ => apart ?_⟩
        rwa [List.inj_on_of_nodup_map distinct also inside same] at arrives
  rw [displaceLinks, held]
  dsimp only
  split
  · rename_i none
    refine ⟨g, held, fun x => (left x).symm.trans ?_ |>.symm⟩
    rw [List.isEmpty_iff.mp none]
    simp
  · obtain ⟨h, found, removed⟩ :=
      links_removeLinksIn held ((g.links.filter fun x => x.target == l.target && x.id != l.id).map Link.id)
    exact ⟨_, graph_modifyGraph_self found, fun x => (removed x).trans (left x)⟩

theorem links_createLinkIn (coherent : Coherent except e) (held : e.asset.graph? owner = some g)
    (oriented : orientLink g start finish = some (source, target, type)) :
    ∃ l h, l.source = source ∧ l.target = target ∧ (e.createLinkIn owner start finish).1.asset.graph? owner = some h ∧
      ∀ x, x ∈ h.links ↔ x = l ∨ x ∈ g.links ∧ x.target ≠ l.target := by
  let l : Link := { id := ⟨e.nextId⟩, source, target, color := type.color }
  have added : (({ e with nextId := e.nextId + 1 } : Editor).modifyGraph owner fun g =>
      (g.modifyPin target (·.withValue .void)).addLink l).asset.graph? owner =
        some ((g.modifyPin target (·.withValue .void)).addLink l) :=
    graph_modifyGraph_self (e := { e with nextId := e.nextId + 1 }) held
  have distinct := links_distinct (coherent_addLink coherent owner source target type.color) added
  obtain ⟨h, found, links⟩ := links_displaceLinks added distinct (l := l) (List.mem_append_right _ List.mem_cons_self)
  refine ⟨l, h, rfl, rfl, ?_, fun x => (links x).trans ?_⟩
  · rw [createLinkIn, held, Option.bind_some, oriented]
    exact found
  · change x = l ∨ x ∈ g.links ++ [l] ∧ _ ↔ _
    rw [List.mem_append, List.mem_singleton]
    tauto

end PoseGraph.LinkDisplacement
