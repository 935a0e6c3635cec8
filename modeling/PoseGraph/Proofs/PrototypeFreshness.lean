import PoseGraph.Proofs.EntryMarks
import PoseGraph.Proofs.ReachableEditors
import PoseGraph.Proofs.StatePromotion

/-! An editor that is not marked as changed holds the prototype that compiling it
yields. Most edits set the mark or leave the asset alone. Those that do neither
only change how graphs are stored: they put them into order, mark entries, or do
nothing because the asset is valid. -/
namespace PoseGraph.PrototypeFreshness
open AssetOrder Editor EditNotes EditRuns EditorCoherence EntryMarks GraphDependencies IndexRanks LoweringOutline
  LoweringSemantics NodeCraft Rearrangement ReachableEditors StatePromotion SubGraph Validity

variable {e f : Editor} {p : Prototype} {owner : NodeId} {session : CompileSession} {except : Option NodeId}

/-- Compiling the editor yields a prototype. -/
def Compiles (e : Editor) (p : Prototype) : Prop := e.sort.validate.errors = [] ∧ e.sort.lower.result = .ok p

/-- The editor holds the prototype that compiling it yields in any session. -/
def Fresh (e : Editor) : Prop := ∃ p, e.asset.prototype = some p ∧
  ∀ session, (e.compile session).2.1 = .ok p ∧ (e.compile session).1.asset.prototype = some p

/-- The editor after a compilation that yields a prototype. -/
def compiled (e : Editor) (p : Prototype) : Editor :=
  { e.sort.modifyAsset (fun a => { a with prototype := some p }) with isDirty := false }

theorem compile_ok (ran : (e.compile session).2.1 = .ok p) : (e.compile session).1 = compiled e p := by
  rw [compile] at ran ⊢
  dsimp only at ran ⊢
  split at ran
  · cases ran
    rfl
  · cases ran

theorem fresh_iff : Fresh e ↔ ∃ p, e.asset.prototype = some p ∧ Compiles e p := by
  constructor
  · rintro ⟨p, held, ran⟩
    exact ⟨p, held, compile_ok_iff.mp (ran .empty).1⟩
  · rintro ⟨p, held, compiles⟩
    refine ⟨p, held, fun session => ?_⟩
    have ran : (e.compile session).2.1 = .ok p := compile_ok_iff.mpr compiles
    refine ⟨ran, ?_⟩
    rw [compile_ok ran]
    rfl

/-! ## Other ways to store the same asset -/

theorem coherent_plain (coherent : Coherent except e) : PlainComments e.asset := by
  intro n member comment named
  have plain := ((coherent.crafted n member).comment comment).2
  rw [named] at plain
  exact absurd plain (by decide)

theorem coherent_mute (coherent : Coherent except e) (owner : NodeId) (g : SubGraph)
    (held : e.asset.graph? owner = some g) : MuteComments g := by
  intro n member comment
  exact ((graph_crafted coherent held n member).comment comment).1

/-- What is compiled depends on the outlines of the sorted graphs only. -/
theorem compiles_of_sameOutline (before : Coherent none e) (after : Coherent none f)
    (same : SameOutline e.sort f.sort) (compiles : Compiles e p) : Compiles f p := by
  have first := coherent_sort before
  have second := coherent_sort after
  obtain ⟨valid, lowered⟩ := compiles
  refine ⟨valid_reordered same.reordered (identified_of_coherent first) (coherent_plain first) valid, ?_⟩
  have id : f.sort.asset.id = e.sort.asset.id := by rw [same.reordered.assets.rest]
  have name : f.sort.asset.name = e.sort.asset.name := by rw [same.reordered.assets.rest]
  rw [lower, ← reordered_size same.reordered, id, name]
  exact lowered_of_sameOutline same (identified_of_coherent first) (coherent_mute first) (coherent_mute second)
    (.inl rfl) lowered

/-- Assets that are equal once they are in order, apart from their prototypes. -/
theorem compiles_of_sorted (before : Coherent none e) (after : Coherent none f) (catalog : f.catalog = e.catalog)
    (sorted : f.asset.sorted = { e.asset.sorted with prototype := f.asset.sorted.prototype })
    (compiles : Compiles e p) : Compiles f p := by
  have graphs : f.asset.sorted.graphs = e.asset.sorted.graphs := by rw [sorted]
  refine compiles_of_sameOutline before after ⟨⟨⟨?_, ?_⟩, catalog⟩, fun owner g h _ left right => ?_⟩ compiles
  · change List.Forall₂ _ e.asset.sorted.graphs.entries f.asset.sorted.graphs.entries
    rw [graphs]
    exact List.forall₂_same.mpr fun entry _ => ⟨rfl, alike_refl entry.2⟩
  · change f.asset.sorted =
      { e.asset.sorted with graphs := f.asset.sorted.graphs, prototype := f.asset.sorted.prototype }
    rw [graphs]
    exact sorted
  · change f.asset.sorted.graphs.get? owner = some h at right
    change e.asset.sorted.graphs.get? owner = some g at left
    rw [graphs, left] at right
    rw [Option.some.inj right]

theorem fresh_same (before : Coherent none e) (after : Coherent none f) (asset : f.asset = e.asset)
    (catalog : f.catalog = e.catalog) (fresh : Fresh e) : Fresh f := by
  obtain ⟨p, held, compiles⟩ := fresh_iff.mp fresh
  refine fresh_iff.mpr ⟨p, asset ▸ held, compiles_of_sorted before after catalog ?_ compiles⟩
  rw [asset]

theorem sorted_prototype (a : Asset) : a.sorted.prototype = a.prototype := by
  rw [sorted_rest]

theorem fresh_sort (coherent : Coherent none e) (fresh : Fresh e) : Fresh e.sort := by
  obtain ⟨p, held, compiles⟩ := fresh_iff.mp fresh
  have again : e.asset.sorted.sorted = e.asset.sorted := sorted_idem (identified_of_coherent coherent)
  refine fresh_iff.mpr ⟨p, (sorted_prototype e.asset).trans held,
    compiles_of_sorted coherent (coherent_sort coherent) rfl ?_ compiles⟩
  change e.asset.sorted.sorted = { e.asset.sorted with prototype := e.asset.sorted.sorted.prototype }
  rw [again]

/-- Storing a prototype and ordering graphs do not meet. -/
theorem sorted_withPrototype (a : Asset) (p : Option Prototype) :
    Asset.sorted { a with prototype := p } = { a.sorted with prototype := p } := by
  have fold (owners : List NodeId) (a : Asset) : owners.foldl Asset.sortGraph { a with prototype := p } =
      { owners.foldl Asset.sortGraph a with prototype := p } := by
    induction owners generalizing a with
    | nil => rfl
    | cons owner owners ih =>
      have step : Asset.sortGraph { a with prototype := p } owner = { a.sortGraph owner with prototype := p } := by
        have kind : ({ a with prototype := p } : Asset).ownerKind? owner = a.ownerKind? owner := rfl
        rw [Asset.sortGraph, Asset.sortGraph, kind]
        split <;> rfl
      rw [List.foldl_cons, step, ih, List.foldl_cons]
  exact fold a.owners a

theorem fresh_compile (coherent : Coherent none e) (ran : (e.compile session).2.1 = .ok p) :
    Fresh (e.compile session).1 := by
  have after := coherent_compile coherent session
  have compiles : Compiles e p := compile_ok_iff.mp ran
  rw [compile_ok ran] at after ⊢
  refine fresh_iff.mpr ⟨p, rfl, compiles_of_sorted coherent after rfl ?_ compiles⟩
  have again : e.asset.sorted.sorted = e.asset.sorted := sorted_idem (identified_of_coherent coherent)
  change Asset.sorted { e.asset.sorted with prototype := some p } =
    { e.asset.sorted with prototype := (Asset.sorted { e.asset.sorted with prototype := some p }).prototype }
  rw [sorted_withPrototype, again]

/-! ## Entries -/

/-- The graph of a machine that is lowered is entered: a node owns it. -/
theorem entered_of_nested {g : SubGraph} (coherent : Coherent none e) (nested : Nested e.sort.asset owner)
    (machine : e.asset.ownerKind? owner = some .stateMachine) (held : e.asset.graph? owner = some g) : Entered g := by
  rcases nested with rfl | ⟨n, member, owns, rfl⟩
  · cases machine
  · obtain ⟨m, inside, same⟩ := rearranged_node (rearranged_symm (rearranged_sorted e.asset)) member
    have sameId := same_id same
    rw [← sameId] at machine held
    have subroutine : m.isSubroutine = true := (same_blind (f := Node.isSubroutine) (fun _ => rfl) same).trans owns
    exact coherent.entered m inside ⟨subroutine, ownerKind_of_member coherent inside machine⟩ (by simp) g held

theorem sameOutline_ensureEntryIn (coherent : Coherent none e) (owner : NodeId) :
    SameOutline e.sort (e.ensureEntryIn owner).sort := by
  have identified := identified_of_coherent coherent
  have marked : Rearranged e.asset (e.ensureEntryIn owner).asset :=
    rearranged_modifyGraph fun g => alike_sameButMarks (sameButMarks_ensureEntry g)
  have sorted : Rearranged e.sort.asset (e.ensureEntryIn owner).sort.asset :=
    rearranged_trans (rearranged_symm (rearranged_sorted e.asset))
      (rearranged_trans marked (rearranged_sorted _))
  refine ⟨⟨sorted, rfl⟩, fun id g h nested left right => ?_⟩
  have first := sorted_graph (settled_of_identified identified id)
  have second := sorted_graph (settled_of_identified (rearranged_identified marked identified) id)
  rw [← rearranged_ownerKind marked identified] at second
  rw [show e.sort.asset.graph? id = _ from first] at left
  rw [show (e.ensureEntryIn owner).sort.asset.graph? id = _ from second,
    show (e.ensureEntryIn owner).asset.graph? id = _ from graph_modifyGraph SubGraph.ensureEntry] at right
  obtain ⟨k, held, ordered⟩ := Option.map_eq_some_iff.mp left
  rw [held] at right
  -- The other graphs are the same; what the mark does depends on how this one is ordered.
  by_cases here : id = owner
  · rw [if_pos here, Option.map_some, Option.map_some, Option.some.injEq] at right
    by_cases machine : e.asset.ownerKind? id = some .stateMachine
    · rw [if_pos machine] at ordered right
      rw [← ordered, ← right]
      exact (outline_entryFirst (entered_of_nested coherent nested machine held)).symm
    · rw [if_neg machine] at ordered right
      rw [← ordered, ← right]
      exact outline_sameButMarks
        (sameButMarks_inEvaluationOrder (sameButMarks_ensureEntry k) (identified_unique identified held))
  · rw [if_neg here, Option.map_some, Option.some.injEq] at right
    rw [← ordered, ← right]

theorem fresh_ensureEntryIn (coherent : Coherent none e) (fresh : Fresh e) (owner : NodeId) :
    Fresh (e.ensureEntryIn owner) := by
  obtain ⟨p, held, compiles⟩ := fresh_iff.mp fresh
  exact fresh_iff.mpr ⟨p, held, compiles_of_sameOutline coherent (coherent_ensureEntryIn coherent owner)
    (sameOutline_ensureEntryIn coherent owner) compiles⟩

/-- An editor that is not marked as changed is fresh. -/
def Kept (e : Editor) : Prop := e.isDirty = false → Fresh e

theorem kept_ensureEntries (coherent : Coherent none e) (kept : Kept e) : Kept e.ensureEntries := by
  have fold (owners : List NodeId) (e : Editor) (coherent : Coherent none e) (kept : Kept e) :
      Kept (owners.foldl ensureEntryIn e) := by
    induction owners generalizing e with
    | nil => exact kept
    | cons owner owners ih =>
      apply ih
      · exact coherent_ensureEntryIn coherent owner
      · intro clean
        exact fresh_ensureEntryIn coherent (kept clean) owner
  exact fold _ e coherent kept

/-! ## All edits -/

/-- What is fresh is valid, however it is stored. -/
theorem valid_of_fresh (coherent : Coherent none e) (fresh : Fresh e) : e.validate.errors = [] := by
  obtain ⟨p, -, valid, -⟩ := fresh_iff.mp fresh
  have sorted := coherent_sort coherent
  have reordered : Reordered e.sort e := ⟨rearranged_symm (rearranged_sorted e.asset), rfl⟩
  exact valid_reordered reordered (identified_of_coherent sorted) (coherent_plain sorted) valid

theorem kept_of_noted (before : Coherent none e) (after : Coherent none f) (noted : Noted e f) (kept : Kept e) :
    Kept f := by
  intro clean
  rcases noted with marked | ⟨asset, catalog, mark⟩
  · rw [clean] at marked
    cases marked
  · exact fresh_same before after asset catalog (kept (mark ▸ clean))

theorem kept_compile (coherent : Coherent none e) (kept : Kept e) (session : CompileSession) :
    Kept (e.compile session).1 := by
  cases outcome : (e.compile session).2.1 with
  | ok p => exact fun _ => fresh_compile coherent outcome
  | error cause =>
    have failed : (e.compile session).1 = e.sort := by
      rw [compile] at outcome ⊢
      dsimp only at outcome ⊢
      split at outcome
      · cases outcome
      · rfl
    rw [failed]
    intro clean
    exact fresh_sort coherent (kept clean)

theorem noted_ensureSubGraph (coherent : Coherent none e) (kept : Kept e) (id : NodeId) :
    Noted e (e.ensureSubGraph id) := by
  cases mark : e.isDirty with
  | true => exact .inl ((ensureSubGraph_isDirty e id).trans mark)
  | false =>
    rw [ensureSubGraph_of_valid (valid_of_fresh coherent (kept mark))]
    exact noted_refl e

/-- No edit makes an unmarked editor stale. -/
theorem kept_apply (coherent : Coherent none e) (kept : Kept e) (edit : Edit) : Kept (edit.apply e) := by
  have noted (reports : Noted e (edit.apply e)) : Kept (edit.apply e) :=
    kept_of_noted coherent (coherent_apply coherent edit) reports kept
  cases edit with
  | createNode category name => exact noted (noted_createNode e category name)
  | removeNodes ids => exact noted (noted_removeNodesIn e _ ids)
  | layNode id layout => exact noted (.inl rfl)
  | setPinValue pin v => exact noted (noted_setPinValue e pin v)
  | createLink start finish => exact noted (noted_createLinkIn e _ start finish)
  | removeLinks ids => exact noted (noted_removeLinksIn e _ ids)
  | addProperty kind v => exact noted (.inl rfl)
  | removeProperty kind name => exact noted (noted_removeProperty e kind name)
  | setPropertyValue kind name v => exact noted (noted_setPropertyValue e kind name v)
  | renameProperty kind old new => exact noted (noted_renameProperty e kind old new)
  | changePropertyType kind name v => exact noted (noted_changePropertyType e kind name v)
  | spawnInput name => exact noted (noted_spawnInput e name)
  | spawnLocalVariable name getter => exact noted (noted_spawnLocalVariable e name getter)
  | createTransitionNode => exact noted (noted_createTransitionNode e)
  | createTransition start finish => exact noted (noted_createTransition e start finish)
  | promoteQuickState id =>
    apply noted
    apply noted_promoteQuickState coherent
    intro clean
    exact valid_of_fresh coherent (kept clean)
  | ensureEntry =>
    intro clean
    exact fresh_ensureEntryIn coherent (kept clean) _
  | ensureEntries => exact kept_ensureEntries coherent kept
  | ensureSubGraph id => exact noted (noted_ensureSubGraph coherent kept id)
  | enterNode id => exact noted (.inl rfl)
  | setPath target => exact noted (noted_setPath e target)
  | setSkeleton handle => exact noted (.inl rfl)
  | setSettings settings => exact noted (.inr ⟨rfl, rfl, rfl⟩)
  | sort =>
    intro clean
    exact fresh_sort coherent (kept clean)
  | save =>
    intro clean
    exact fresh_sort coherent (kept clean)
  | compile session => exact kept_compile coherent kept session

theorem kept_start (name : String) (self : NodeId) (catalog : Catalog) (settings : Settings) (drawn : Nat) :
    Kept (.ofAsset (.ofName name self) catalog settings (drawn + 1)) := by
  intro clean
  cases clean

theorem kept_reached (reached : Reached e) : Kept e := by
  -- Each step needs the editor before it to be coherent, which holds after any run.
  induction reached with
  | start name self catalog settings drawn => exact kept_start name self catalog settings drawn
  | step before _ ih => exact kept_apply (coherent_reachable before) ih _

/-- Whatever has been done to a new asset: unless the editor is marked as changed,
it holds the prototype that compiling it yields. -/
theorem clean_is_fresh (reached : Reached e) (clean : e.isDirty = false) : Fresh e := kept_reached reached clean

/-- A new asset whose output is made to read a variable. -/
def waving : Editor :=
  [.addProperty .localVariable (.int64 0), .spawnLocalVariable "New Variable" true,
    .createNode "Animation" "Output", .createLink ⟨3⟩ ⟨6⟩].foldl Edit.apply
    (.ofAsset (.ofName "Wave" ⟨1⟩) .empty .default 1)

/-- Compiled and put into order, it is not marked, and its prototype is up to date. -/
theorem waving_compiled_is_fresh : Reached (waving.compile .empty).1.sort ∧
    (waving.compile .empty).1.sort.isDirty = false ∧ Fresh (waving.compile .empty).1.sort := by
  have reached : Reached (waving.compile .empty).1.sort :=
    reached_run (reached_run (.start "Wave" ⟨1⟩ .empty .default 0) _) [.compile .empty, .sort]
  have sound : (waving.sort.validate.errors.isEmpty && match waving.sort.lower.result with
      | .ok _ => true
      | .error _ => false) = true := by
    unfold Editor.sort Asset.sorted Asset.sortGraph inEvaluationOrder walk sinks dependencies feedersOf
      consumersOf variableNodes leastSetter?
    simp only [applyIndices_eq, ranksOf, sortLinks_eq, sortIds_eq,
      mergeSort_eq_insertionSort byIndex_trans byIndex_total,
      mergeSort_eq_insertionSort byEnds_trans byEnds_total]
    decide +kernel
  obtain ⟨valid, made⟩ := Bool.and_eq_true_iff.mp sound
  split at made
  · rename_i p lowered
    have ran : (waving.compile .empty).2.1 = .ok p := compile_ok_iff.mpr ⟨by simpa using valid, lowered⟩
    have clean : (waving.compile .empty).1.sort.isDirty = false := by
      rw [compile_ok ran]
      rfl
    exact ⟨reached, clean, clean_is_fresh reached clean⟩
  · cases made

end PoseGraph.PrototypeFreshness
