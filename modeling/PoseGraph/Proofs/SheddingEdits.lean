import PoseGraph.Proofs.EditorSoundness
import PoseGraph.Proofs.PropertyEdits

/-! Edits that add nothing: they change literals, layout, marks and order, or take
nodes, links and graphs away. What they leave is as sound as what was there. -/
namespace PoseGraph.SheddingEdits
open AssetOrder EditOutcomes Editor EditorCoherence EditorSoundness GraphDependencies GraphWiring LinkEdits NodeEdits NodeFrames
  Rearrangement

variable {a : Asset} {e f k : Editor} {g h : SubGraph} {l : Link} {n m : Node} {owner : NodeId} {pin : PinId}
variable {ids doomed : List NodeId} {dead : List Link} {change : SubGraph → SubGraph} {except : Option NodeId}
variable {names : String → Prop}

/-- The second editor has nothing that the first one has not. -/
structure Sheds (e f : Editor) : Prop where
  draws : e.nextId ≤ f.nextId
  nodes : ∀ owner, ∀ m ∈ (graphOf f.asset owner).nodes, ∃ n ∈ (graphOf e.asset owner).nodes, SameFrame n m
  links : ∀ owner, (graphOf f.asset owner).links ⊆ (graphOf e.asset owner).links
  wired : ∀ owner, Wired (graphOf e.asset owner) → Wired (graphOf f.asset owner)

theorem sound_sheds (sound : Sound names e) (sheds : Sheds e f) : Sound names f := by
  refine sound_develop sound sheds.draws fun owner => ⟨fun m inside => ?_, sheds.wired owner⟩
  obtain ⟨n, member, same⟩ := sheds.nodes owner m inside
  exact ⟨n, member, sameFrame_grown same, sameFrame_sealed same⟩

theorem sheds_refl (e : Editor) : Sheds e e :=
  ⟨Nat.le_refl _, fun _ m inside => ⟨m, inside, rfl, rfl, rfl, rfl, rfl, rfl⟩, fun _ _ link => link, fun _ wired => wired⟩

theorem sheds_trans (first : Sheds e f) (second : Sheds f k) : Sheds e k := by
  refine ⟨Nat.le_trans first.draws second.draws, fun owner m inside => ?_,
    fun owner _ link => first.links owner (second.links owner link), fun owner wired => second.wired owner (first.wired owner wired)⟩
  obtain ⟨n, member, sameM⟩ := second.nodes owner m inside
  obtain ⟨x, before, sameN⟩ := first.nodes owner n member
  exact ⟨x, before, sameFrame_trans sameN sameM⟩

/-- Edits one after the other. -/
theorem sheds_foldl {α : Type} {step : Editor → α → Editor} (each : ∀ e x, Sheds e (step e x)) (xs : List α)
    (e : Editor) : Sheds e (xs.foldl step e) := by
  induction xs generalizing e with
  | nil => exact sheds_refl e
  | cons x xs ih => exact sheds_trans (each e x) (ih _)

theorem sheds_of_graphs (graphs : f.asset.graphs = e.asset.graphs) (draws : e.nextId ≤ f.nextId) : Sheds e f := by
  have same (owner : NodeId) : graphOf f.asset owner = graphOf e.asset owner := by
    rw [graphOf, graphOf, Asset.graph?, Asset.graph?, graphs]
  refine ⟨draws, fun owner m inside => ?_, fun owner _ link => same owner ▸ link, fun owner wired => ?_⟩
  · rw [same] at inside
    exact ⟨m, inside, rfl, rfl, rfl, rfl, rfl, rfl⟩
  · rw [same]
    exact wired

theorem sheds_invalidate (e : Editor) : Sheds e e.invalidate := sheds_of_graphs rfl (Nat.le_refl _)

/-- Taking away from one graph. -/
theorem sheds_modifyGraph (nodes : ∀ g, e.asset.graph? owner = some g → ∀ m ∈ (change g).nodes, ∃ n ∈ g.nodes, SameFrame n m)
    (links : ∀ g, e.asset.graph? owner = some g → (change g).links ⊆ g.links)
    (wired : ∀ g, e.asset.graph? owner = some g → Wired g → Wired (change g)) : Sheds e (e.modifyGraph owner change) := by
  cases held : e.asset.graph? owner with
  | none =>
    have same : (e.modifyGraph owner change).asset = e.asset := modifyGraph_missing held
    exact sheds_of_graphs (congrArg Asset.graphs same) (Nat.le_refl _)
  | some g =>
    have look (id : NodeId) : graphOf (e.modifyGraph owner change).asset id =
        if id = owner then change g else graphOf e.asset id := graphOf_modifyGraph held
    refine ⟨Nat.le_refl _, fun id m inside => ?_, fun id => ?_, fun id before => ?_⟩
    · rw [look] at inside
      split at inside
      · rename_i here
        rw [here, graphOf_eq held]
        exact nodes g held m inside
      · exact ⟨m, inside, rfl, rfl, rfl, rfl, rfl, rfl⟩
    · rw [look]
      split
      · rename_i here
        rw [here, graphOf_eq held]
        exact links g held
      · exact .refl _
    · rw [look]
      split
      · rename_i here
        rw [here, graphOf_eq held] at before
        exact wired g held before
      · exact before

theorem sheds_kept (e : Editor) (owner : NodeId) (kept : ∀ g, Kept g (change g)) : Sheds e (e.modifyGraph owner change) :=
  sheds_modifyGraph (fun g _ _ inside => kept_origin (kept g).nodes inside) (fun g _ => (kept g).links.subset)
    fun g _ => wired_kept (kept g)

/-! ## Literals, layout, marks and order -/

theorem sheds_ensureEntryIn (e : Editor) (owner : NodeId) : Sheds e (e.ensureEntryIn owner) :=
  sheds_kept e owner kept_ensureEntry

theorem sheds_ensureEntryOfMachine (e : Editor) (owner : NodeId) : Sheds e (e.ensureEntryOfMachine owner) := by
  rw [ensureEntryOfMachine]
  split
  · exact sheds_ensureEntryIn e owner
  · exact sheds_refl e

theorem sheds_ensureEntries (e : Editor) : Sheds e e.ensureEntries :=
  sheds_foldl sheds_ensureEntryIn _ e

theorem sheds_setPinValue (e : Editor) (pin : PinId) (v : Value) : Sheds e (e.setPinValue pin v).1 := by
  have set : Sheds e (e.modifyGraph e.activeOwner (·.modifyPin pin (·.withValue v))).invalidate :=
    sheds_trans (sheds_kept e _ fun g => kept_withValue g pin v) (sheds_invalidate _)
  rcases setPinValue_cases e pin v with same | ⟨_, rfl, same | ⟨id, label, same⟩⟩
  · rw [same]
    exact sheds_refl e
  · rw [same]
    exact set
  · rw [same]
    refine sheds_trans set (sheds_kept _ _ fun g => ?_)
    apply kept_modifyNode
    exact fun _ => rfl

theorem sheds_editNode (e : Editor) (id : NodeId) {f : Node → Node} (same : ∀ n, frame (f n) = frame n) :
    Sheds e (e.editNode id f) :=
  sheds_trans (sheds_kept e _ fun g => kept_modifyNode same g id) (sheds_invalidate _)

theorem sheds_setPropertyValue (e : Editor) (kind : PropertyKind) (name : String) (v : Value) :
    Sheds e (e.setPropertyValue kind name v).1 := by
  rw [Editor.setPropertyValue]
  split
  · refine sheds_trans (k := Editor.invalidate _) ?_ (sheds_invalidate _)
    refine sheds_trans (f := e.modifyProperties kind (·.insert name v)) (sheds_of_graphs ?_ (Nat.le_refl _)) ?_
    · cases kind <;> rfl
    · exact sheds_foldl (fun e _ => sheds_kept e _ fun g => kept_setPropertyValue g) _ _
  · exact sheds_refl e

theorem sheds_sort (e : Editor) : Sheds e e.sort := by
  have kept (owner : NodeId) : Kept (graphOf e.asset owner) (graphOf e.sort.asset owner) := by
    cases held : e.asset.graph? owner with
    | some g =>
      obtain ⟨h, found, alike⟩ := rearranged_graph (rearranged_sorted e.asset) held
      rw [graphOf_eq held, graphOf_eq (a := e.sort.asset) found]
      exact kept_alike alike
    | none =>
      cases found : e.sort.asset.graph? owner with
      | none =>
        rw [graphOf_missing held, graphOf_missing found]
        exact kept_refl _
      | some h =>
        obtain ⟨g, before, -⟩ := rearranged_graph (rearranged_symm (rearranged_sorted e.asset)) found
        rw [held] at before
        cases before
  exact ⟨Nat.le_refl _, fun owner m inside => kept_origin (kept owner).nodes inside,
    fun owner => (kept owner).links.subset, fun owner => wired_kept (kept owner)⟩

/-! ## Removing links -/

theorem sheds_afterUnlink (e : Editor) (owner : NodeId) : Sheds e (e.afterUnlink owner) := by
  rw [afterUnlink]
  split
  · exact sheds_trans (sheds_invalidate e) (sheds_kept _ owner kept_restPose)
  · exact sheds_invalidate e

theorem sheds_dropLinksIn (e : Editor) (owner : NodeId) (g : SubGraph) (dead : List Link) :
    Sheds e (e.dropLinksIn owner g dead) := by
  refine sheds_trans ?_ (sheds_afterUnlink _ owner)
  exact sheds_trans (f := e.spend _) (sheds_of_graphs rfl (Nat.le_add_right _ _))
    (sheds_kept _ owner fun g => kept_dropLinks g dead)

/-- A graph after links have been dropped from it. -/
theorem kept_dropLinksIn (held : e.asset.graph? owner = some g) (k : SubGraph) (dead : List Link) :
    ∃ h, (e.dropLinksIn owner k dead).asset.graph? owner = some h ∧ Kept (g.dropLinks (e.palette owner) dead) h := by
  have dropped (count : Nat) : ((e.spend count).modifyGraph owner fun g =>
      g.dropLinks (e.palette owner) dead).asset.graph? owner = some (g.dropLinks (e.palette owner) dead) :=
    graph_modifyGraph_self (e := e.spend count) held
  rw [dropLinksIn, afterUnlink]
  split
  · exact ⟨_, graph_modifyGraph_self (e := Editor.invalidate _) (dropped _), kept_restPose _⟩
  · exact ⟨_, dropped _, kept_refl _⟩

theorem sheds_removeLinksIn (e : Editor) (owner : NodeId) (ids : List LinkId) :
    Sheds e (e.removeLinksIn owner ids).1 := by
  rcases removeLinksIn_cases e owner ids with same | ⟨g, -, -, same⟩
  · rw [same]
    exact sheds_refl e
  · rw [same]
    exact sheds_dropLinksIn e owner g _

theorem sheds_displaceLinks (e : Editor) (owner : NodeId) (pin : PinId) (kept : LinkId) : Sheds e (e.displaceLinks owner pin kept) := by
  rcases displaceLinks_cases e owner pin kept with same | ⟨ids, same⟩
  · rw [same]
    exact sheds_refl e
  · rw [same]
    exact sheds_trans (sheds_removeLinksIn e owner ids) (sheds_kept _ owner fun g => kept_withValue g pin .void)

/-- A graph after links of given identities have been removed. -/
theorem kept_removeLinksIn (held : e.asset.graph? owner = some g) (ids : List LinkId) :
    ∃ h, (e.removeLinksIn owner ids).1.asset.graph? owner = some h ∧ Kept g h ∧ ∀ l ∈ h.links, l.id ∉ ids := by
  rw [removeLinksIn, held]
  dsimp only
  split
  · rename_i none
    refine ⟨g, held, kept_refl g, fun l link listed => ?_⟩
    have doomed : l ∈ g.links.filter fun l => ids.contains l.id :=
      List.mem_filter.mpr ⟨link, List.contains_iff_mem.mpr listed⟩
    rw [List.isEmpty_iff.mp none] at doomed
    cases doomed
  · obtain ⟨h, found, kept⟩ := kept_dropLinksIn held g (g.links.filter fun l => ids.contains l.id)
    refine ⟨h, found, kept_trans (kept_dropLinks g _) kept, fun l link listed => ?_⟩
    obtain ⟨before, spared⟩ := spared_dropLinks (kept.links.subset link)
    exact spared (List.mem_filter.mpr ⟨before, List.contains_iff_mem.mpr listed⟩)

/-! ## Removing nodes -/

theorem sheds_removeDeadLinks (e : Editor) (owner id : NodeId) : Sheds e (e.removeDeadLinks owner id) := by
  rcases removeDeadLinks_cases e owner id with same | ⟨g, -, same⟩
  · rw [same]
    exact sheds_refl e
  · rw [same]
    exact sheds_dropLinksIn e owner g _

theorem untouched_removeDeadLinks (coherent : Coherent except e) (held : e.asset.graph? owner = some g) (id : NodeId) :
    ∃ h, (e.removeDeadLinks owner id).asset.graph? owner = some h ∧ Kept g h ∧ Untouched [id] h := by
  have unique := identified_unique (identified_of_coherent coherent) held
  have all (l : Link) (link : l ∈ g.links) (n : Node) (member : n ∈ g.nodes) (named : n.id ∈ [id])
      (touches : n.hasPin l.source = true ∨ n.hasPin l.target = true) : l ∈ g.deadLinks id :=
    List.mem_singleton.mp named ▸ deadLinks_all unique link member touches
  rw [removeDeadLinks, held]
  dsimp only
  split
  · rename_i none
    refine ⟨g, held, kept_refl g, fun l link n member named => ?_⟩
    by_contra touched
    rw [not_and_or, Bool.not_eq_false, Bool.not_eq_false] at touched
    have doomed := all l link n member named touched
    rw [List.isEmpty_iff.mp none] at doomed
    cases doomed
  · obtain ⟨h, found, kept⟩ := kept_dropLinksIn held g (g.deadLinks id)
    exact ⟨h, found, kept_trans (kept_dropLinks g _) kept, untouched_kept kept (untouched_dropLinks all)⟩

/-- Before nodes are removed, all links at them are. -/
theorem untouched_fold (coherent : Coherent except e) (held : e.asset.graph? owner = some g) (ids : List NodeId) :
    ∃ h, (ids.foldl (fun e id => e.removeDeadLinks owner id) e).asset.graph? owner = some h ∧ Kept g h ∧
      Untouched ids h := by
  induction ids generalizing e g with
  | nil => exact ⟨g, held, kept_refl g, fun _ _ _ _ named => nomatch named⟩
  | cons id ids ih =>
    obtain ⟨k, next, first, alone⟩ := untouched_removeDeadLinks coherent held id
    obtain ⟨h, found, second, others⟩ := ih (coherent_removeDeadLinks coherent owner id) next
    refine ⟨h, found, kept_trans first second, fun l link n member named => ?_⟩
    rcases List.mem_cons.mp named with here | later
    · exact untouched_kept second alone l link n member (List.mem_singleton.mpr here)
    · exact others l link n member later

theorem untouched_unlinked (coherent : Coherent except e)
    (held : (ids.foldl (fun e id => e.removeDeadLinks owner id) e).asset.graph? owner = some g) : Untouched ids g := by
  cases before : e.asset.graph? owner with
  | some k =>
    obtain ⟨h, found, -, untouched⟩ := untouched_fold coherent before ids
    rw [found] at held
    cases held
    exact untouched
  | none =>
    -- Where there was no graph there is none now.
    have missing (ids : List NodeId) : ids.foldl (fun e id => e.removeDeadLinks owner id) e = e := by
      induction ids with
      | nil => rfl
      | cons id ids ih => rw [List.foldl_cons, show e.removeDeadLinks owner id = e by rw [removeDeadLinks, before], ih]
    rw [missing, before] at held
    cases held

theorem sheds_dropNodes (coherent : Coherent except e) (owner : NodeId) (doomed : List NodeId) :
    Sheds e (e.dropNodes owner doomed) := by
  have unlinked := sheds_foldl (fun e id => sheds_removeDeadLinks e owner id) doomed e
  exact sheds_trans unlinked (sheds_modifyGraph
    (fun g _ m inside => ⟨m, (List.mem_filter.mp inside).1, rfl, rfl, rfl, rfl, rfl, rfl⟩) (fun _ _ _ link => link)
    fun g held => (turns_without (untouched_unlinked coherent held)).wired)

theorem sheds_dropOrphans (e : Editor) : Sheds e (e.modifyAsset (·.dropOrphans)) := by
  have look (id : NodeId) : graphOf (e.modifyAsset (·.dropOrphans)).asset id = graphOf e.asset id ∨
      graphOf (e.modifyAsset (·.dropOrphans)).asset id = .empty := by
    cases held : (e.modifyAsset (·.dropOrphans)).asset.graph? id with
    | none => exact .inr (graphOf_missing held)
    | some g => exact .inl ((graphOf_eq held).trans (graphOf_eq (graph_dropOrphans held)).symm)
  refine ⟨Nat.le_refl _, fun id m inside => ?_, fun id => ?_, fun id wired => ?_⟩
  · rcases look id with same | gone
    · exact ⟨m, same ▸ inside, rfl, rfl, rfl, rfl, rfl, rfl⟩
    · rw [gone] at inside
      cases inside
  · rcases look id with same | gone
    · rw [same]
      exact .refl _
    · rw [gone]
      exact List.nil_subset _
  · rcases look id with same | gone
    · rw [same]
      exact wired
    · rw [gone]
      exact wired_empty

theorem sheds_collectOrphans (e : Editor) : Sheds e (e.modifyAsset (·.collectOrphans)) := by
  have rounds (count : Nat) (e : Editor) : Sheds e (e.modifyAsset (Asset.collectOrphans.go count)) := by
    induction count generalizing e with
    | zero => exact sheds_refl e
    | succ count ih =>
      have after := sheds_trans (sheds_dropOrphans e) (ih (e.modifyAsset (·.dropOrphans)))
      rw [modifyAsset, Asset.collectOrphans.go]
      split
      · exact sheds_refl e
      · exact after
  exact rounds _ e

theorem sheds_removeRounds {rounds : Nat} (coherent : Coherent (some owner) e) :
    Sheds e (removeRounds owner rounds e doomed) := by
  induction rounds generalizing e doomed with
  | zero => exact sheds_refl e
  | succ rounds ih =>
    have dropped : Sheds e (e.dropNodes owner doomed).invalidate :=
      sheds_trans (sheds_dropNodes coherent owner doomed) (sheds_invalidate _)
    rw [removeRounds]
    split
    · exact sheds_trans dropped (sheds_trans (sheds_collectOrphans _) (sheds_ensureEntryOfMachine _ owner))
    · exact sheds_trans dropped (ih (coherent_invalidate (coherent_dropNodes coherent doomed)))

theorem sheds_removeNodesIn (coherent : Coherent none e) (owner : NodeId) (ids : List NodeId) :
    Sheds e (e.removeNodesIn owner ids).1 := by
  rw [removeNodesIn]
  split
  · exact sheds_refl e
  · dsimp only
    split
    · exact sheds_refl e
    · exact sheds_removeRounds (coherent_exempt coherent _)

/-- Nodes that are removed are gone. -/
theorem removeNodesIn_gone (coherent : Coherent none e) (owner : NodeId) (ids : List NodeId) :
    ∀ m ∈ (graphOf (e.removeNodesIn owner ids).1.asset owner).nodes, m.id ∉ ids := by
  cases held : e.asset.graph? owner with
  | none =>
    intro m inside
    rw [removeNodesIn, held, graphOf_missing held] at inside
    cases inside
  | some g =>
    rw [removeNodesIn, held]
    dsimp only
    have known (m : Node) (member : m ∈ g.nodes) (listed : m.id ∈ ids) : m.id ∈ ids.filter g.hasNode :=
      List.mem_filter.mpr ⟨listed, List.any_eq_true.mpr ⟨m, member, beq_self_eq_true _⟩⟩
    split
    · rename_i none
      intro m inside listed
      have doomed := known m (graphOf_eq held ▸ inside) listed
      rw [List.isEmpty_iff.mp none] at doomed
      cases doomed
    · intro m inside listed
      have exempt := coherent_exempt coherent (some owner)
      -- The first round removes the nodes, and what is left later was left by it.
      have first (rounds : Nat) : Sheds (e.dropNodes owner (ids.filter g.hasNode)).invalidate
          (removeRounds owner (rounds + 1) e (ids.filter g.hasNode)) := by
        rw [removeRounds]
        split
        · exact sheds_trans (sheds_collectOrphans _) (sheds_ensureEntryOfMachine _ owner)
        · exact sheds_removeRounds (coherent_invalidate (coherent_dropNodes exempt _))
      obtain ⟨k, left, sameM⟩ := (first _).nodes owner m inside
      obtain ⟨h, found, kept, -⟩ := untouched_fold exempt held (ids.filter g.hasNode)
      have after : (e.dropNodes owner (ids.filter g.hasNode)).invalidate.asset.graph? owner =
          some (without (ids.filter g.hasNode) h) := graph_modifyGraph_self found
      rw [graphOf_eq after] at left
      obtain ⟨inH, spared⟩ := List.mem_filter.mp left
      obtain ⟨x, member, sameK⟩ := kept_origin kept.nodes inH
      have doomed := known x member (by rw [← sameK.id, ← sameM.id]; exact listed)
      rw [← sameK.id] at doomed
      simp [doomed] at spared

end PoseGraph.SheddingEdits
