import Mathlib.Data.List.Chain
import PoseGraph.Proofs.Nesting
import PoseGraph.Proofs.ReachableEditors

/-! Where an editor is, and which graphs there are. Every graph but the top one belongs
to a node that owns graphs, every such node has its graph, and the path goes down from
the top level, each of its nodes lying in the graph of the one before. Edits of the
active graph keep to this by themselves. Removing a property takes nodes away wherever
they are, a transition at the end of the path among them. -/
namespace PoseGraph.Navigation
open AssetOrder EditOutcomes EditRuns Editor EditorCoherence LinkEdits NodeCraft NodeEdits Nesting PropertyEdits ReachableEditors
  Rearrangement StateEdits

variable {a : Asset} {e f k : Editor} {g h : SubGraph} {n : Node} {owner id : NodeId} {path : List NodeId}
variable {change : SubGraph → SubGraph} {ids : List NodeId}

/-! ## What has to hold -/

/-- Graphs and the nodes that own them belong together. -/
structure Housed (a : Asset) : Prop where
  root : a.hasGraph .root = true
  owned : ∀ owner, a.hasGraph owner = true → owner = .root ∨ ∃ outer, Nests a outer owner
  furnished : ∀ outer inner, Nests a outer inner → a.hasGraph inner = true

/-- The asset is in order, and the path leads down through it. -/
structure Navigable (e : Editor) : Prop where
  housed : Housed e.asset
  trail : List.IsChain (Nests e.asset) (.root :: e.path)
  distinct : e.path.Nodup

/-- The second editor is in the same place of an asset whose graphs nest in the same way. -/
structure Abides (e f : Editor) : Prop where
  shape : SameShape e.asset f.asset
  path : f.path = e.path

theorem abides_refl (e : Editor) : Abides e e := ⟨sameShape_refl _, rfl⟩

theorem abides_trans (first : Abides e f) (second : Abides f k) : Abides e k :=
  ⟨sameShape_trans first.shape second.shape, second.path.trans first.path⟩

theorem abides_of_graphs (graphs : f.asset.graphs = e.asset.graphs) (path : f.path = e.path) : Abides e f :=
  ⟨sameShape_of_graphs graphs, path⟩

theorem abides_modifyGraph (same : ∀ g, e.asset.graph? owner = some g → SameInner g (change g)) :
    Abides e (e.modifyGraph owner change) :=
  ⟨sameShape_modifyGraph same, rfl⟩

theorem abides_revise (revised : ∀ g, e.asset.graph? owner = some g → Revised g (change g)) :
    Abides e (e.modifyGraph owner change) :=
  ⟨sameShape_revise revised, rfl⟩

theorem abides_invalidate (e : Editor) : Abides e e.invalidate := abides_of_graphs rfl rfl

theorem abides_foldl {α : Type} {step : Editor → α → Editor} (each : ∀ e x, Abides e (step e x)) (xs : List α)
    (e : Editor) : Abides e (xs.foldl step e) := by
  induction xs generalizing e with
  | nil => exact abides_refl e
  | cons x xs ih => exact abides_trans (each e x) (ih _)

theorem housed_abides (housed : Housed e.asset) (abides : Abides e f) : Housed f.asset where
  root := (abides.shape.owners .root).trans housed.root
  owned := fun owner present => (housed.owned owner ((abides.shape.owners owner).symm.trans present)).imp_right
    fun ⟨outer, nests⟩ => ⟨outer, (abides.shape.nests outer owner).mpr nests⟩
  furnished := fun outer inner nests =>
    (abides.shape.owners inner).trans (housed.furnished outer inner ((abides.shape.nests outer inner).mp nests))

theorem navigable_abides (navigable : Navigable e) (abides : Abides e f) : Navigable f where
  housed := housed_abides navigable.housed abides
  trail := by
    rw [abides.path]
    exact navigable.trail.imp fun outer inner => (abides.shape.nests outer inner).mpr
  distinct := abides.path ▸ navigable.distinct

/-! ## The path -/

/-- Each node on the way lies in some graph. -/
theorem nested_of_trail (trail : List.IsChain (Nests a) (owner :: path)) (inside : id ∈ path) : ∃ outer, Nests a outer id := by
  induction path generalizing owner with
  | nil => cases inside
  | cons first rest ih =>
    obtain ⟨nests, onward⟩ := List.isChain_cons_cons.mp trail
    rcases List.mem_cons.mp inside with rfl | later
    · exact ⟨owner, nests⟩
    · exact ih onward later

/-- The active graph exists. -/
theorem active_hasGraph (navigable : Navigable e) : e.asset.hasGraph e.activeOwner = true := by
  rw [activeOwner]
  cases last : e.path.getLast? with
  | none => exact navigable.housed.root
  | some id =>
    obtain ⟨outer, nests⟩ := nested_of_trail navigable.trail (List.mem_of_getLast? last)
    exact navigable.housed.furnished outer id nests

/-- A node that may be entered: one on the path, or one of the active graph that owns
graphs. -/
def Enterable (e : Editor) (id : NodeId) : Prop :=
  id ∈ e.path ∨ (e.node? id).any Node.isSubroutine = true

instance : Decidable (Enterable e id) := inferInstanceAs (Decidable (_ ∨ _))

theorem nests_of_node (found : e.node? id = some n) (owns : n.isSubroutine = true) : Nests e.asset e.activeOwner id := by
  obtain ⟨g, held, node⟩ := Option.bind_eq_some_iff.mp found
  have named : n.id = id := by simpa using List.find?_some node
  exact named ▸ nests_of_member held (List.mem_of_find?_eq_some node) owns

theorem navigable_setPath (navigable : Navigable e) (target : Option NodeId) (may : ∀ id, target = some id → Enterable e id) :
    Navigable (e.setPath target) := by
  rw [setPath.eq_def]
  split
  · exact ⟨navigable.housed, .singleton _, List.nodup_nil⟩
  · rename_i id
    by_cases root : id.isRoot = true
    · rw [if_pos root]
      exact ⟨navigable.housed, .singleton _, List.nodup_nil⟩
    · rw [if_neg root, pathTo]
      cases place : e.path.findIdx? (· == id) with
      | some i =>
        exact ⟨navigable.housed, navigable.trail.take (i + 2), navigable.distinct.sublist (List.take_sublist _ _)⟩
      | none =>
        have absent : id ∉ e.path := fun inside => by
          simpa using List.findIdx?_eq_none_iff.mp place id inside
        obtain ⟨n, found, owns⟩ := (Option.any_eq_true _ _).mp ((may id rfl).resolve_left absent)
        refine ⟨navigable.housed, ?_, ?_⟩
        · rw [← List.cons_append, List.isChain_append]
          refine ⟨navigable.trail, .singleton _, ?_⟩
          rintro last atEnd next first
          rw [List.getLast?_cons, Option.mem_some_iff] at atEnd
          rw [List.head?_cons, Option.mem_some_iff] at first
          rw [← atEnd, ← first]
          exact nests_of_node found owns
        · exact List.nodup_append.mpr ⟨navigable.distinct, List.nodup_singleton _, by
            rintro x inside y same rfl
            exact absent (List.mem_singleton.mp same ▸ inside)⟩

/-- Where every node that owns graphs has its own, none is made. -/
theorem ensureSubGraph_housed (housed : Housed e.asset) (id : NodeId) : e.ensureSubGraph id = e := by
  refine (ensureSubGraph_cases e id).resolve_right ?_
  rintro ⟨n, opening, -⟩
  obtain ⟨member, rfl⟩ := findNode_spec opening.found
  obtain ⟨owner, g, held, inside⟩ := mem_allNodes.mp member
  have absent := opening.absent
  rw [housed.furnished owner n.id (nests_of_member held inside opening.owns)] at absent
  cases absent

/-! ## Edits that keep all nodes -/

theorem abides_ensureEntryIn (e : Editor) (owner : NodeId) : Abides e (e.ensureEntryIn owner) :=
  ⟨sameShape_ensureEntryIn e owner, rfl⟩

theorem abides_ensureEntryOfMachine (e : Editor) (owner : NodeId) : Abides e (e.ensureEntryOfMachine owner) := by
  rw [ensureEntryOfMachine]
  split
  · exact abides_ensureEntryIn e owner
  · exact abides_refl e

theorem abides_setPinValue (e : Editor) (pin : PinId) (v : Value) : Abides e (e.setPinValue pin v).1 := by
  have set : Abides e (e.modifyGraph e.activeOwner (·.modifyPin pin (·.withValue v))).invalidate :=
    abides_trans (abides_revise fun g _ => revised_withValue g pin v) (abides_invalidate _)
  rcases setPinValue_cases e pin v with same | ⟨_, rfl, same | ⟨id, label, same⟩⟩
  · rw [same]
    exact abides_refl e
  · rw [same]
    exact set
  · rw [same]
    exact abides_trans set (abides_modifyGraph fun g _ => by apply sameInner_modifyNode; exact fun _ => ⟨rfl, rfl⟩)

theorem abides_editNode (e : Editor) (id : NodeId) (layout : Layout) : Abides e (e.editNode id layout.applyTo) :=
  abides_trans (abides_modifyGraph fun g _ => by apply sameInner_modifyNode; exact fun _ => ⟨rfl, rfl⟩) (abides_invalidate _)

theorem abides_dropLinksIn (e : Editor) (owner : NodeId) (g : SubGraph) (dead : List Link) :
    Abides e (e.dropLinksIn owner g dead) := by
  rw [dropLinksIn, afterUnlink]
  have dropped : Abides e ((e.spend (dead.foldl (fun cost l => cost + g.resetCost (e.palette owner) l.target) 0)).modifyGraph
      owner fun g => g.dropLinks (e.palette owner) dead) :=
    abides_trans (f := e.spend _) (abides_of_graphs rfl rfl) (abides_revise fun h _ => revised_dropLinks h dead)
  split
  · exact abides_trans dropped (abides_trans (abides_invalidate _) (abides_revise fun h _ => revised_restPose h))
  · exact abides_trans dropped (abides_invalidate _)

theorem abides_removeLinksIn (e : Editor) (owner : NodeId) (ids : List LinkId) :
    Abides e (e.removeLinksIn owner ids).1 := by
  rcases removeLinksIn_cases e owner ids with same | ⟨g, -, -, same⟩
  · rw [same]
    exact abides_refl e
  · rw [same]
    exact abides_dropLinksIn e owner g _

theorem abides_displaceLinks (e : Editor) (owner : NodeId) (pin : PinId) (kept : LinkId) :
    Abides e (e.displaceLinks owner pin kept) := by
  rcases displaceLinks_cases e owner pin kept with same | ⟨ids, same⟩
  · rw [same]
    exact abides_refl e
  · rw [same]
    exact abides_trans (abides_removeLinksIn e owner ids) (abides_revise fun g _ => revised_withValue g pin .void)

theorem abides_createLinkIn (e : Editor) (owner : NodeId) (start finish : PinId) :
    Abides e (e.createLinkIn owner start finish).1 := by
  rw [createLinkIn]
  split
  · exact abides_refl e
  · refine abides_trans (abides_trans ?_ (abides_displaceLinks _ _ _ _)) (abides_invalidate _)
    refine abides_trans (f := { e with nextId := e.nextId + 1 }) (abides_of_graphs rfl rfl) (abides_modifyGraph fun g _ => ?_)
    exact sameInner_of_each ((revised_withValue g _ .void).nodes.imp fun _ _ edited => ⟨edited.id, edited.type⟩)

section Properties
variable {kind : PropertyKind} {name old new : String} {v : Value}

theorem abides_modifyProperties (e : Editor) (kind : PropertyKind) (change : Properties → Properties) :
    Abides e (e.modifyProperties kind change) := by
  refine abides_of_graphs ?_ rfl
  cases kind <;> rfl

theorem abides_setPropertyValue (e : Editor) (kind : PropertyKind) (name : String) (v : Value) :
    Abides e (e.setPropertyValue kind name v).1 := by
  rw [Editor.setPropertyValue]
  split
  · refine abides_trans (k := Editor.invalidate _) ?_ (abides_invalidate _)
    exact abides_trans (abides_modifyProperties e kind _)
      (abides_foldl (fun e _ => abides_revise fun g _ => revised_setPropertyValue g) _ _)
  · exact abides_refl e

theorem abides_renameProperty (e : Editor) (kind : PropertyKind) (old new : String) :
    Abides e (e.renameProperty kind old new).1 := by
  have renamed (g : SubGraph) (ids : List NodeId) : SameInner g (g.renameProperty kind old new ids) := by
    refine sameInner_mapNodes (fun n => ?_) g ids
    dsimp only
    split <;> exact ⟨rfl, rfl⟩
  rcases renameProperty_cases e kind old new with same | ⟨v, _, -, -, -, rfl, result⟩
  · rw [same]
    exact abides_refl e
  · rw [result]
    refine abides_trans (k := Editor.invalidate _) ?_ (abides_invalidate _)
    exact abides_trans (abides_modifyProperties e kind _)
      (abides_foldl (fun e _ => abides_modifyGraph fun g _ => renamed g _) _ _)

theorem abides_changePropertyType (e : Editor) (kind : PropertyKind) (name : String) (v : Value) :
    Abides e (e.changePropertyType kind name v).1 := by
  rcases changePropertyType_cases e kind name v with same | ⟨_, _, -, -, rfl, result⟩
  · rw [same]
    exact abides_refl e
  · rw [result]
    refine abides_trans (k := Editor.invalidate _) ?_ (abides_invalidate _)
    exact abides_trans (abides_modifyProperties e kind _)
      (abides_foldl (fun e _ => abides_trans (abides_removeLinksIn e _ _)
        (abides_revise fun g _ => revised_retagProperty g)) _ _)

end Properties

theorem abides_sort (e : Editor) : Abides e e.sort := ⟨sameShape_rearranged (rearranged_sorted e.asset), rfl⟩

theorem abides_compile (e : Editor) (session : CompileSession) : Abides e (e.compile session).1 := by
  rw [compile]
  dsimp only
  split
  · exact abides_trans (abides_sort e) (abides_of_graphs rfl rfl)
  · exact abides_sort e

end PoseGraph.Navigation
