import PoseGraph.Proofs.OwnershipOrder

/-! Validation and compilation come to an end. Both follow the nodes that own graphs down
into these graphs, and nothing but the nesting of the graphs keeps them from going on
forever. In what editing reaches, no graph lies inside itself, so that each level down
leaves one graph fewer to go into. -/
namespace PoseGraph.RecursionDepth
open AssetOrder EditRuns Editor EditorCoherence EditorSoundness LoweringSemantics Navigation NavigationRuns Nesting
  OwnershipOrder SheddingEdits

variable {α β : Type} {a : Asset} {e : Editor} {g : SubGraph} {n : Node} {owner id x y : NodeId} {name : String}
variable {depth more : Nat} {edit : Edit} {edits : List Edit}

/-! ## Runs -/

/-- The node whose graph an edit goes to. -/
def destination? : Edit → Option NodeId
  | .enterNode id => some id
  | .setPath target => target
  | _ => none

/-- Whoever goes to a node goes to one that there is, or to the top level. -/
def Existing (e : Editor) (edit : Edit) : Prop :=
  ∀ id ∈ destination? edit, id = .root ∨ (e.asset.findNode? id).isSome = true

instance : Decidable (Existing e edit) := inferInstanceAs (Decidable (∀ id ∈ destination? edit, _))

/-- The editors that such edits reach from one over a new asset. In between, identities
may be drawn for other assets. -/
inductive Arrived : Editor → Prop where
  | start (name : String) (self : NodeId) (catalog : Catalog) (settings : Settings) (drawn : Nat) :
      Arrived (.ofAsset (.ofName name self) catalog settings (drawn + 1))
  | edit {e : Editor} {edit : Edit} (before : Arrived e) (may : Existing e edit) : Arrived (edit.apply e)
  | spend {e : Editor} (before : Arrived e) (count : Nat) : Arrived (e.spend count)

theorem arrived_run (arrived : Arrived e) (run : Run Existing e edits) : Arrived (edits.foldl Edit.apply e) := by
  induction edits generalizing e with
  | nil => exact arrived
  | cons edit edits ih => exact ih (.edit arrived run.1) run.2

theorem existing_drawn (rising : Rising e) (exists_ : id = .root ∨ (e.asset.findNode? id).isSome = true) :
    id.value < e.nextId := by
  rcases exists_ with rfl | found
  · exact rising.positive
  · obtain ⟨owner, type, holds⟩ := findNode_isSome_iff.mp found
    exact rising.drawn owner id (contains_iff_holds.mpr ⟨type, holds⟩)

theorem rising_setPath (rising : Rising e) (target : Option NodeId) (known : ∀ id, target = some id → id.value < e.nextId) :
    Rising (e.setPath target) := by
  have path : ∀ id ∈ (e.setPath target).path, id.value < e.nextId := by
    intro id inside
    cases target with
    | none => cases inside
    | some goal =>
      rw [setPath] at inside
      dsimp only at inside
      split at inside
      · cases inside
      · rw [pathTo] at inside
        split at inside
        · exact rising.path id (List.mem_of_mem_take inside)
        · rcases List.mem_append.mp inside with before | here
          · exact rising.path id before
          · exact List.mem_singleton.mp here ▸ known goal rfl
  cases target with
  | none => exact ⟨rising.positive, rising.ascends, rising.drawn, rising.owners, path⟩
  | some goal => exact ⟨rising.positive, rising.ascends, rising.drawn, rising.owners, path⟩

theorem rising_start (name : String) (self : NodeId) (catalog : Catalog) (settings : Settings) (drawn : Nat) :
    Rising (.ofAsset (.ofName name self) catalog settings (drawn + 1)) := by
  let bare : Editor :=
    { asset := (Asset.ofName name self).ensureGraph .root, catalog, settings, path := [], isDirty := true, nextId := drawn + 1 }
  have only (owner : NodeId) (g : SubGraph) (held : bare.asset.graph? owner = some g) : owner = .root ∧ g = .empty := by
    have entry : (owner, g) ∈ [(NodeId.root, SubGraph.empty)] := get_eq_some_iff.mp held
    exact Prod.mk.inj (List.mem_singleton.mp entry)
  have none (x y : NodeId) : ¬Contains bare.asset x y := by
    rintro ⟨g, held, n, member, -⟩
    rw [(only x g held).2] at member
    cases member
  have start : Rising bare := by
    refine ⟨Nat.succ_pos drawn, fun x y inside => absurd inside (none x y), fun x y inside => absurd inside (none x y),
      fun x present => ?_, List.forall_mem_nil _⟩
    obtain ⟨g, held⟩ := hasGraph_iff.mp present
    rw [(only x g held).1]
    exact Nat.succ_pos drawn
  exact rising_recedes start (recedes_of_abides (abides_foldl abides_ensureEntryIn _ bare) (sheds_ensureEntries bare))

theorem rising_apply (rising : Rising e) (may : Existing e edit) : Rising (edit.apply e) := by
  have recede {f : Editor} (abides : Abides e f) (sheds : Sheds e f) : Rising f :=
    rising_recedes rising (recedes_of_abides abides sheds)
  cases edit with
  | createNode category name => exact rising_createNode rising category name
  | removeNodes ids => exact rising_recedes rising (recedes_removeNodesIn e _ ids)
  | layNode id layout => exact recede (abides_editNode e id layout) (sheds_editNode e id fun _ => rfl)
  | setPinValue pin v => exact recede (abides_setPinValue e pin v) (sheds_setPinValue e pin v)
  | createLink start finish => exact rising_recedes rising (recedes_createLinkIn e _ start finish)
  | removeLinks ids => exact rising_recedes rising (recedes_removeLinksIn e _ ids)
  | addProperty kind v =>
    exact rising_recedes rising (recedes_trans (recedes_modifyProperties e kind _) (recedes_invalidate _))
  | removeProperty kind name => exact rising_recedes rising (recedes_removeProperty e kind name)
  | setPropertyValue kind name v => exact recede (abides_setPropertyValue e kind name v) (sheds_setPropertyValue e kind name v)
  | renameProperty kind old new => exact rising_recedes rising (recedes_renameProperty e kind old new)
  | changePropertyType kind name v => exact rising_recedes rising (recedes_changePropertyType e kind name v)
  | spawnInput name => exact rising_spawnInput rising name
  | spawnLocalVariable name getter => exact rising_spawnLocalVariable rising name getter
  | createTransitionNode => exact rising_createTransitionNode rising
  | createTransition start finish => exact rising_createTransition rising start finish
  | promoteQuickState id => exact rising_promoteQuickState rising id
  | ensureEntry => exact recede (abides_ensureEntryIn e _) (sheds_ensureEntryIn e _)
  | ensureEntries => exact recede (abides_foldl abides_ensureEntryIn _ e) (sheds_ensureEntries e)
  | ensureSubGraph id => exact rising_ensureSubGraph rising id
  | enterNode id =>
    have there : Rising (e.setPath (some id)) :=
      rising_setPath rising (some id) (by rintro x ⟨⟩; exact existing_drawn rising (may id rfl))
    exact rising_recedes (rising_ensureSubGraph there id) (recedes_invalidate _)
  | setPath target =>
    exact rising_setPath rising target fun id goal => existing_drawn rising (may id goal)
  | setSkeleton handle => exact rising_recedes rising (recedes_of_graphs rfl rfl (Nat.le_refl _))
  | setSettings settings => exact rising_recedes rising (recedes_of_graphs rfl rfl (Nat.le_refl _))
  | sort => exact recede (abides_sort e) (sheds_sort e)
  | save => exact recede (abides_sort e) (sheds_sort e)
  | compile session =>
    refine rising_recedes rising (recedes_trans (f := e.sort) (recedes_of_abides (abides_sort e) (sheds_sort e)) ?_)
    change Recedes e.sort (e.compile session).1
    rw [compile]
    dsimp only
    split
    · exact recedes_of_graphs rfl rfl (Nat.le_refl _)
    · exact recedes_refl e.sort

theorem rising_arrived (arrived : Arrived e) : Rising e := by
  induction arrived with
  | start name self catalog settings drawn => exact rising_start name self catalog settings drawn
  | edit before may ih => exact rising_apply ih may
  | spend before count ih => exact rising_recedes ih (recedes_of_graphs rfl rfl (Nat.le_add_right _ _))

/-! ## Depth -/

/-- How many graphs there are whose owner is no older than a node. -/
def height (a : Asset) (x : NodeId) : Nat := (a.owners.filter fun owner => x.value ≤ owner.value).length

theorem height_le (a : Asset) (x : NodeId) : height a x ≤ a.graphs.size := by
  have shorter := List.length_filter_le (fun owner : NodeId => decide (x.value ≤ owner.value)) a.owners
  rwa [Asset.owners, Table.keys, List.length_map] at shorter

/-- Going down from a node with a graph to a younger one leaves fewer graphs. -/
theorem height_lt (present : a.hasGraph x = true) (younger : x.value < y.value) : height a y < height a x := by
  obtain ⟨g, held⟩ := hasGraph_iff.mp present
  have listed : x ∈ a.owners := List.mem_map_of_mem (get_eq_some_iff.mp held)
  have within : (a.owners.filter fun owner => decide (y.value ≤ owner.value)) =
      (a.owners.filter fun owner => decide (x.value ≤ owner.value)).filter fun owner => y.value ≤ owner.value := by
    rw [List.filter_filter]
    refine List.filter_congr fun owner _ => ?_
    rw [Bool.eq_iff_iff, Bool.and_eq_true, decide_eq_true_iff, decide_eq_true_iff]
    omega
  rw [height, within]
  refine List.length_filter_lt_length_iff_exists.mpr ⟨x, List.mem_filter.mpr ⟨listed, by simp⟩, ?_⟩
  simpa using younger

/-- A recursion along a relation ends everywhere below a point, at most so many levels
down. -/
inductive EndsWithin (calls : α → α → Prop) : Nat → α → Prop where
  | intro {depth : Nat} {x : α} (below : ∀ y, calls x y → EndsWithin calls depth y) : EndsWithin calls (depth + 1) x

theorem endsWithin_of_rank {calls : α → α → Prop} (rank : α → Nat) (descends : ∀ x y, calls x y → rank y < rank x) {x : α}
    (enough : rank x < depth) : EndsWithin calls depth x := by
  induction depth generalizing x with
  | zero => exact absurd enough (Nat.not_lt_zero _)
  | succ depth ih => exact .intro fun y call => ih (Nat.lt_of_lt_of_le (descends x y call) (Nat.le_of_lt_succ enough))

/-! ## Checking nodes -/

/-- Checking a node in the graph of an owner asks for the check of another one. -/
def ChecksThrough (e : Editor) (asked asks : NodeId × Node) : Prop :=
  asked.2.isSubroutine = true ∧ ∃ g, e.body? asked.2 = some g ∧ asks.1 = asked.2.id ∧ asks.2 ∈ g.nodes

theorem checks_end (rising : Rising e) (owner : NodeId) (n : Node) :
    EndsWithin (ChecksThrough e) (e.asset.graphs.size + 1) (owner, n) := by
  refine endsWithin_of_rank (fun asked => height e.asset asked.2.id) ?_ (Nat.lt_succ_of_le (height_le _ _))
  rintro ⟨owner, n⟩ ⟨inner, m⟩ ⟨-, g, body, rfl, inside⟩
  have held : e.asset.graph? n.id = some g := (Option.filter_eq_some_iff.mp body).1
  exact height_lt (hasGraph_iff.mpr ⟨g, held⟩) (rising.ascends n.id m.id ⟨g, held, m, inside, rfl⟩)

theorem findSome_congr {f h : α → Option β} {xs : List α} (same : ∀ x ∈ xs, f x = h x) : xs.findSome? f = xs.findSome? h := by
  induction xs with
  | nil => rfl
  | cons x xs ih =>
    rw [List.findSome?_cons, List.findSome?_cons, same x List.mem_cons_self,
      ih fun y inside => same y (List.mem_cons_of_mem _ inside)]

/-- Once the recursion has come to its end, it makes no difference how deep it may go. -/
theorem nodeErrorWithin_enough {asked : NodeId × Node} (ends : EndsWithin (ChecksThrough e) depth asked) (enough : depth ≤ more) :
    e.nodeErrorWithin more asked.1 asked.2 = e.nodeErrorWithin depth asked.1 asked.2 := by
  induction ends generalizing more with
  | @intro depth asked below ih =>
    obtain ⟨more, rfl⟩ : ∃ rest, more = rest + 1 := ⟨more - 1, by omega⟩
    rw [nodeErrorWithin, nodeErrorWithin]
    split
    · rename_i owns
      cases body : e.body? asked.2 with
      | none => rfl
      | some g =>
        have each := findSome_congr fun m inside =>
          ih (asked.2.id, m) ⟨owns, g, body, rfl, inside⟩ (Nat.le_of_succ_le_succ enough)
        exact congrArg (fun found => Option.or found _) each
    · rfl

/-! ## Lowering graphs -/

/-- Lowering the graph of an owner lowers that of a node in it. -/
def LowersThrough (e : Editor) (outer inner : NodeId) : Prop :=
  ∃ g, e.asset.graph? outer = some g ∧
    ∃ n ∈ g.nodes, n.isEmitted (e.isContainer outer) = true ∧ n.isSubroutine = true ∧ n.id = inner

theorem lowers_end (rising : Rising e) (owner : NodeId) : EndsWithin (LowersThrough e) (e.asset.graphs.size + 1) owner := by
  refine endsWithin_of_rank (height e.asset) ?_ (Nat.lt_succ_of_le (height_le _ _))
  rintro outer inner ⟨g, held, n, member, -, -, same⟩
  exact height_lt (hasGraph_iff.mpr ⟨g, held⟩) (rising.ascends outer inner ⟨g, held, n, member, same⟩)

theorem mapM_congr {f h : α → Lowering β} {xs : List α} (same : ∀ x ∈ xs, f x = h x) : xs.mapM f = xs.mapM h := by
  induction xs with
  | nil => rfl
  | cons x xs ih =>
    rw [List.mapM_cons, List.mapM_cons, same x List.mem_cons_self,
      ih fun y inside => same y (List.mem_cons_of_mem _ inside)]

/-- The same holds of lowering, with all its errors and warnings. -/
theorem lowerWithin_enough (ends : EndsWithin (LowersThrough e) depth owner) (enough : depth ≤ more) (self : NodeId)
    (name : String) : e.lowerWithin more owner self name = e.lowerWithin depth owner self name := by
  induction ends generalizing more self name with
  | @intro depth owner below ih =>
    obtain ⟨more, rfl⟩ : ∃ rest, more = rest + 1 := ⟨more - 1, by omega⟩
    rw [lowerWithin, lowerWithin]
    cases held : e.asset.graph? owner with
    | none => rfl
    | some g =>
      refine congrArg (· >>= _) (mapM_congr fun n inside => ?_)
      obtain ⟨member, emitted⟩ := List.mem_filter.mp inside
      cases owns : n.isSubroutine with
      | false => rfl
      | true =>
        have inner := ih n.id ⟨g, held, n, member, emitted, owns, rfl⟩ (Nat.le_of_succ_le_succ enough) n.id n.description
        dsimp only
        rw [inner]

/-! ## The end -/

/-- No node lies in a graph that it owns itself, at any remove. So the checks of nodes and
the lowering of graphs come to an end, no deeper than there are graphs and one level
more, and to the result that they would come to if they might go deeper. -/
theorem recursions_end (arrived : Arrived e) :
    (∀ x, ¬Relation.TransGen (Contains e.asset) x x) ∧
      (∀ owner n, EndsWithin (ChecksThrough e) (e.asset.graphs.size + 1) (owner, n)) ∧
      (∀ owner, EndsWithin (LowersThrough e) (e.asset.graphs.size + 1) owner) ∧
      ∀ depth, e.asset.graphs.size < depth →
        (∀ owner n, e.nodeErrorWithin depth owner n = e.nodeError? owner n) ∧
          e.lowerWithin depth .root e.asset.id e.asset.name = e.lower := by
  have rising := rising_arrived arrived
  refine ⟨fun x circle => ?_, checks_end rising, lowers_end rising, fun depth enough => ⟨fun owner n => ?_, ?_⟩⟩
  · have climbs {x y : NodeId} (way : Relation.TransGen (Contains e.asset) x y) : x.value < y.value := by
      induction way with
      | single step => exact rising.ascends _ _ step
      | tail _ last ih => exact Nat.lt_trans ih (rising.ascends _ _ last)
    exact absurd (climbs circle) (Nat.lt_irrefl _)
  · exact nodeErrorWithin_enough (checks_end rising owner n) enough
  · exact lowerWithin_enough (lowers_end rising .root) enough _ _

/-- A quick state gets a graph although it owns none, since it is entered and a player is
placed there, and becomes a state with that graph. -/
def promotedFromWithin : List Edit :=
  [.createNode "Animation" "State Machine", .enterNode ⟨2⟩, .createNode stateMachineCategory "Quick State", .enterNode ⟨5⟩,
    .createNode "Animation" "Animation Player", .setPath (some ⟨2⟩), .promoteQuickState ⟨5⟩]

/-- The editor after these edits. -/
def promotedEditor : Editor := promotedFromWithin.foldl Edit.apply (.ofAsset (.ofName "Wave" ⟨1⟩) .empty .default 1)

/-- The player lies in the state, and the state in the state machine; no check goes deeper
than four levels. -/
theorem promoted_ends : Arrived promotedEditor ∧ promotedEditor.asset.owners = [.root, ⟨2⟩, ⟨5⟩] ∧
    ∀ owner n, EndsWithin (ChecksThrough promotedEditor) 4 (owner, n) := by
  have run : Run Existing (.ofAsset (.ofName "Wave" ⟨1⟩) .empty .default 1) promotedFromWithin := by decide +kernel
  have arrived : Arrived promotedEditor := arrived_run (.start "Wave" ⟨1⟩ .empty .default 0) run
  have three : promotedEditor.asset.owners = [.root, ⟨2⟩, ⟨5⟩] := by decide +kernel
  have size : promotedEditor.asset.graphs.size = 3 := by decide +kernel
  have ends := (recursions_end arrived).2.1
  rw [size] at ends
  exact ⟨arrived, three, ends⟩

end PoseGraph.RecursionDepth
