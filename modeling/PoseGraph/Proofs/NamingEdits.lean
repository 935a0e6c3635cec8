import PoseGraph.Proofs.LinkingEdits
import PoseGraph.Proofs.PropertyKeys

/-! Editing properties keeps an editor sound for the local variables that it has
then. A removed variable leaves no node behind, a new name is one that no variable
had, and nodes get another type only after their links are gone. -/
namespace PoseGraph.NamingEdits
open AssetOrder EditOutcomes Editor EditorCoherence EditorSoundness GraphDependencies GraphWiring LinkEdits LinkingEdits NodeCraft
  NodeEdits NodeFrames PlacingEdits PropertyEdits PropertyKeys SheddingEdits

variable {a : Asset} {e f : Editor} {g h : SubGraph} {n m : Node} {owner : NodeId} {except : Option NodeId}
variable {kind : PropertyKind} {name old new category : String} {v : Value} {ids : List NodeId}
variable {groups : List (NodeId × List NodeId)} {names : String → Prop} {change : Properties → Properties}

/-- An editor that is sound for the local variables that it has. -/
def Declared (e : Editor) : Prop := Sound (· ∈ e.asset.localVariables.keys) e

/-- Declaring more variables, or no fewer than are in use. -/
theorem declared_keys (sound : Sound (· ∈ e.asset.localVariables.keys) f)
    (more : ∀ n ∈ allNodes f.asset, ∀ name, n.variableName? = some name → name ∈ e.asset.localVariables.keys →
      name ∈ f.asset.localVariables.keys)
    (fewer : ∀ name ∈ f.asset.localVariables.keys, name ∈ e.asset.localVariables.keys ∨
      name ≠ "Input" ∧ name ≠ "Output" ∧ name ≠ "Event") : Declared f :=
  sound_names sound (fun n member name reads => more n member name reads (sound.declared n member name reads))
    fun name known => (fewer name known).elim (sound.reserved name) fun free => free

theorem declared_same (sound : Sound (· ∈ e.asset.localVariables.keys) f)
    (same : f.asset.properties = e.asset.properties) : Declared f := by
  rw [Declared, show f.asset.localVariables = e.asset.localVariables from congrFun same .localVariable]
  exact sound

theorem sound_modifyProperties (sound : Sound names e) : Sound names (e.modifyProperties kind change) := by
  refine sound_of_graphs sound ?_ (Nat.le_refl _)
  cases kind <;> rfl

theorem declared_addProperty (sound : Declared e) (kind : PropertyKind) (v : Value) :
    Declared (e.addProperty kind v).1 := by
  have keys {key : String} : key ∈ ((e.addProperty kind v).1.asset.properties .localVariable).keys ↔ _ := mem_keys_addProperty v
  refine declared_keys (e := e) (sound_invalidate (sound_modifyProperties sound))
    (fun _ _ key _ known => keys.mpr (.inl known)) fun key known => ?_
  refine (keys.mp known).imp_right ?_
  rintro ⟨rfl, rfl⟩
  exact ⟨uniqueName_free _ (by decide), uniqueName_free _ (by decide), uniqueName_free _ (by decide)⟩

theorem declared_setPropertyValue (sound : Declared e) (kind : PropertyKind) (name : String) (v : Value) :
    Declared (e.setPropertyValue kind name v).1 := by
  have keys {key : String} : key ∈ ((e.setPropertyValue kind name v).1.asset.properties .localVariable).keys ↔ _ :=
    mem_keys_setPropertyValue v
  exact declared_keys (e := e) (sound_sheds sound (sheds_setPropertyValue e kind name v))
    (fun _ _ key _ known => keys.mpr known) fun key known => .inl (keys.mp known)

/-! ## Removing -/

/-- Removing the nodes of several graphs takes nothing else. -/
theorem removeAll_sheds (coherent : Coherent none e) (groups : List (NodeId × List NodeId)) :
    Sheds e (groups.foldl (fun e group => (e.removeNodesIn group.1 group.2).1) e) := by
  induction groups generalizing e with
  | nil => exact sheds_refl e
  | cons group groups ih =>
    exact sheds_trans (sheds_removeNodesIn coherent group.1 group.2) (ih (coherent_removeNodesIn coherent group.1 group.2))

/-- Removing the nodes of several graphs takes them all. -/
theorem removeAll_gone (coherent : Coherent none e) (listed : (owner, ids) ∈ groups) :
    ∀ m ∈ (graphOf (groups.foldl (fun e group => (e.removeNodesIn group.1 group.2).1) e).asset owner).nodes, m.id ∉ ids := by
  induction groups generalizing e with
  | nil => cases listed
  | cons group groups ih =>
    have next := coherent_removeNodesIn coherent group.1 group.2
    rcases List.mem_cons.mp listed with rfl | later
    · intro m inside
      obtain ⟨n, before, same⟩ := (removeAll_sheds next groups).nodes owner m inside
      rw [same.id]
      exact removeNodesIn_gone coherent owner ids n before
    · exact ih next later

/-- The nodes of a graph that stand for a property are listed. -/
theorem propertyNodes_listed (member : n ∈ (graphOf a owner).nodes) (stands : Asset.standsFor kind n name = true) :
    ∃ ids, (owner, ids) ∈ a.propertyNodes kind name ∧ n.id ∈ ids := by
  cases held : a.graph? owner with
  | none =>
    rw [graphOf_missing held] at member
    cases member
  | some g =>
    rw [graphOf_eq held] at member
    have inside : n.id ∈ (g.nodes.filter fun n => Asset.standsFor kind n name).map Node.id :=
      List.mem_map_of_mem (List.mem_filter.mpr ⟨member, stands⟩)
    refine ⟨_, List.mem_filterMap.mpr ⟨(owner, g), get_eq_some_iff.mp held, ?_⟩, inside⟩
    dsimp only
    rw [if_neg]
    rw [Bool.not_eq_true, List.isEmpty_eq_false_iff]
    exact List.ne_nil_of_mem inside

theorem stands_of_reads (reads : n.variableName? = some name) : Asset.standsFor .localVariable n name = true := by
  obtain ⟨isVariable, first⟩ := variableName_eq_some.mp reads
  obtain ⟨p, head, named⟩ := Option.map_eq_some_iff.mp first
  simp [Asset.standsFor, Asset.propertyPin?, isVariable, head, named,
    show n.category = PropertyKind.localVariable.token from variable_category reads]

theorem sheds_removeProperty (coherent : Coherent none e) (kind : PropertyKind) (name : String) :
    Sheds e (e.removeProperty kind name).1 := by
  rw [Editor.removeProperty]
  split
  · have graphs : (e.modifyProperties kind (·.erase name)).asset.graphs = e.asset.graphs := by cases kind <;> rfl
    have erased := sheds_of_graphs graphs (Nat.le_refl _)
    exact sheds_trans erased (sheds_trans (removeAll_sheds (coherent_eraseProperty coherent kind name) _) (sheds_invalidate _))
  · exact sheds_refl e

theorem declared_removeProperty (coherent : Coherent none e) (sound : Declared e) (kind : PropertyKind) (name : String) :
    Declared (e.removeProperty kind name).1 := by
  have keys {key : String} : key ∈ ((e.removeProperty kind name).1.asset.properties .localVariable).keys ↔ _ :=
    mem_keys_removeProperty
  rw [Editor.removeProperty] at keys ⊢
  split at keys
  · rename_i present
    rw [if_pos present]
    have first := coherent_eraseProperty coherent kind name
    have sheds := removeAll_sheds first ((e.modifyProperties kind (·.erase name)).asset.propertyNodes kind name)
    refine declared_keys (e := e) (sound_invalidate (sound_sheds (sound_modifyProperties sound) sheds))
      (fun m member key reads known => keys.mpr ⟨known, ?_⟩) fun key known => .inl (keys.mp known).1
    rintro ⟨rfl, rfl⟩
    -- A node of the removed variable would have been listed, and removed.
    obtain ⟨owner, inside⟩ := mem_graphOf.mp member
    obtain ⟨n, before, frames⟩ := sheds.nodes owner m inside
    have stands := stands_of_reads ((sameFrame_variableName frames).symm.trans reads)
    obtain ⟨ids, listed, named⟩ := propertyNodes_listed before stands
    exact removeAll_gone first listed m inside (frames.id ▸ named)
  · rename_i absent
    rw [if_neg absent]
    exact sound

/-! ## Changing types -/

theorem belongs_sheds (belongs : Belongs category groups e.asset) (sheds : Sheds e f) : Belongs category groups f.asset := by
  intro group listed h found m inside named
  obtain ⟨n, before, same⟩ := sheds.nodes group.1 m (graphOf_eq found ▸ inside)
  cases held : e.asset.graph? group.1 with
  | none =>
    rw [graphOf_missing held] at before
    cases before
  | some g =>
    rw [graphOf_eq held] at before
    exact same.category.trans (belongs group listed g held n before (same.id ▸ named))

/-- Once the links of some nodes are removed, no link touches them. -/
theorem untouched_removeLinksIn (coherent : Coherent except e) (held : e.asset.graph? owner = some g) (ids : List NodeId) :
    ∃ h, (e.removeLinksIn owner (g.linksOfNodes ids)).1.asset.graph? owner = some h ∧ Untouched ids h := by
  obtain ⟨h, found, kept, gone⟩ := kept_removeLinksIn held (g.linksOfNodes ids)
  refine ⟨h, found, fun l link m inside named => ?_⟩
  obtain ⟨n, member, same⟩ := kept_origin kept.nodes inside
  by_contra touched
  rw [not_and_or, Bool.not_eq_false, Bool.not_eq_false, sameFrame_hasPin same, sameFrame_hasPin same] at touched
  exact gone l link (linksOfNodes_all (identified_unique (identified_of_coherent coherent) held)
    (kept.links.subset link) member (same.id ▸ named) touched)

/-- Giving the nodes of one graph another type. -/
def retyped (name : String) (v : Value) (e : Editor) (group : NodeId × List NodeId) : Editor :=
  (e.removeLinksIn group.1 (((e.asset.graph? group.1).map (·.linksOfNodes group.2)).getD [])).1.modifyGraph
    group.1 (·.retagProperty name v group.2)

theorem coherent_retyped (coherent : Coherent except e) (group : NodeId × List NodeId) : Coherent except (retyped name v e group) :=
  coherent_revise (coherent_removeLinksIn coherent group.1 _) fun g _ => revised_retagProperty g

theorem belongs_retyped (belongs : Belongs category groups e.asset) (group : NodeId × List NodeId) :
    Belongs category groups (retyped name v e group).asset :=
  belongs_modifyGraph (belongs_sheds belongs (sheds_removeLinksIn e group.1 _)) fun g _ => revised_retagProperty g

/-- The nodes that get another type belong to the property, and their links are gone. -/
theorem retyped_bare {group : NodeId × List NodeId} (coherent : Coherent except e) (belongs : Belongs category groups e.asset)
    (listed : group ∈ groups) (found : (e.removeLinksIn group.1
      (((e.asset.graph? group.1).map (·.linksOfNodes group.2)).getD [])).1.asset.graph? group.1 = some h) :
    (∀ n ∈ h.nodes, n.id ∈ group.2 → n.category = category) ∧ Untouched group.2 h := by
  refine ⟨belongs_sheds belongs (sheds_removeLinksIn e group.1 _) group listed h found, ?_⟩
  cases held : e.asset.graph? group.1 with
  | none =>
    rw [removeLinksIn, held] at found
    exact absurd (held.symm.trans found) (by simp)
  | some g =>
    rw [held] at found
    obtain ⟨k, also, untouched⟩ := untouched_removeLinksIn coherent held group.2
    cases found.symm.trans also
    exact untouched

theorem sound_retyped {group : NodeId × List NodeId} (coherent : Coherent except e) (sound : Sound names e)
    (belongs : Belongs kind.token groups e.asset) (listed : group ∈ groups) : Sound names (retyped name v e group) := by
  have shed := sound_sheds sound (sheds_removeLinksIn e group.1 (((e.asset.graph? group.1).map (·.linksOfNodes group.2)).getD []))
  refine sound_modifyGraph shed fun h found => ?_
  obtain ⟨category, untouched⟩ := retyped_bare coherent belongs listed found
  exact turns_retag (graph_made shed found) category untouched

theorem declared_changePropertyType (coherent : Coherent none e) (sound : Declared e) (kind : PropertyKind)
    (name : String) (v : Value) : Declared (e.changePropertyType kind name v).1 := by
  have fold (groups : List (NodeId × List NodeId)) (k : Editor) (coherent : Coherent none k)
      (sound : Sound (· ∈ e.asset.localVariables.keys) k) (belongs : Belongs kind.token groups k.asset) :
      Sound (· ∈ e.asset.localVariables.keys) (groups.foldl (retyped name v) k) := by
    induction groups generalizing k with
    | nil => exact sound
    | cons group groups ih =>
      exact ih _ (coherent_retyped coherent group) (sound_retyped coherent sound belongs List.mem_cons_self)
        (belongs_retyped (fun other listed => belongs other (List.mem_cons_of_mem _ listed)) group)
  have keys {key : String} : key ∈ ((e.changePropertyType kind name v).1.asset.properties .localVariable).keys ↔ _ :=
    mem_keys_changePropertyType v
  rcases changePropertyType_cases e kind name v with same | ⟨_, _, found, -, rfl, result⟩
  · rw [same]
    exact sound
  · have first := coherent_insertProperty coherent (get_mem_keys found) v
    have after := fold _ _ first (sound_modifyProperties sound) (propertyNodes_belong (identified_of_coherent first) kind name)
    rw [result] at keys ⊢
    exact declared_keys (e := e) (sound_invalidate after) (fun _ _ key _ known => keys.mpr known)
      fun key known => .inl (keys.mp known)

/-! ## Renaming -/

/-- The graphs after each of some has been changed once. -/
theorem graphOf_foldl (step : List NodeId → SubGraph → SubGraph) (blank : ∀ ids, step ids .empty = .empty)
    (distinct : (groups.map Prod.fst).Nodup) (e : Editor) (owner : NodeId) :
    (∃ ids, (owner, ids) ∈ groups ∧ graphOf (groups.foldl (fun e group => e.modifyGraph group.1 (step group.2)) e).asset owner =
      step ids (graphOf e.asset owner)) ∨
    owner ∉ groups.map Prod.fst ∧ graphOf (groups.foldl (fun e group => e.modifyGraph group.1 (step group.2)) e).asset owner =
      graphOf e.asset owner := by
  have once (e : Editor) (id : NodeId) (ids : List NodeId) : graphOf (e.modifyGraph id (step ids)).asset owner =
      if owner = id then step ids (graphOf e.asset owner) else graphOf e.asset owner := by
    cases held : e.asset.graph? id with
    | some g =>
      change graphOf (e.asset.modifyGraph id (step ids)) owner = _
      rw [graphOf_modifyGraph held]
      split
      · rename_i here
        rw [here, graphOf_eq held]
      · rfl
    | none =>
      have same : (e.modifyGraph id (step ids)).asset = e.asset := modifyGraph_missing held
      rw [same]
      split
      · rename_i here
        rw [here, graphOf_missing held, blank]
      · rfl
  induction groups generalizing e with
  | nil => exact .inr ⟨List.not_mem_nil, rfl⟩
  | cons group groups ih =>
    rw [List.map_cons, List.nodup_cons] at distinct
    rw [List.foldl_cons]
    rcases ih distinct.2 (e.modifyGraph group.1 (step group.2)) with ⟨ids, listed, changed⟩ | ⟨apart, same⟩
    · refine .inl ⟨ids, List.mem_cons_of_mem _ listed, changed.trans ?_⟩
      rw [once, if_neg fun (here : owner = group.1) => distinct.1 (here ▸ List.mem_map_of_mem listed)]
    · by_cases here : owner = group.1
      · refine .inl ⟨group.2, by rw [here]; exact List.mem_cons_self, same.trans ?_⟩
        rw [once, if_pos here]
      · refine .inr ⟨?_, same.trans ?_⟩
        · rw [List.map_cons, List.mem_cons, not_or]
          exact ⟨here, apart⟩
        · rw [once, if_neg here]

theorem propertyNodes_distinct (a : Asset) (kind : PropertyKind) (name : String) :
    ((a.propertyNodes kind name).map Prod.fst).Nodup := by
  refine a.graphs.nodup.sublist ?_
  have owners (entries : List (NodeId × SubGraph)) : ((entries.filterMap fun entry =>
      let ids := (entry.2.nodes.filter fun n => Asset.standsFor kind n name).map Node.id
      if ids.isEmpty then none else some (entry.1, ids)).map Prod.fst).Sublist (entries.map Prod.fst) := by
    induction entries with
    | nil => exact .refl _
    | cons entry entries ih =>
      rw [List.filterMap_cons, List.map_cons]
      dsimp only
      split
      · exact ih.cons _
      · rename_i found
        split at found
        · cases found
        · cases found
          exact ih.cons_cons _
  exact owners a.graphs.entries

/-- Which nodes of a graph are listed as those of a property. -/
theorem propertyNodes_exact (coherent : Coherent except e) (listed : (owner, ids) ∈ e.asset.propertyNodes kind name) :
    ∀ n ∈ (graphOf e.asset owner).nodes, n.id ∈ ids ↔ Asset.standsFor kind n name = true := by
  obtain ⟨⟨id, g⟩, entry, shape⟩ := List.mem_filterMap.mp listed
  dsimp only at shape
  split at shape
  · cases shape
  · cases shape
    have held : e.asset.graph? owner = some g := get_eq_some_iff.mpr entry
    rw [graphOf_eq held]
    intro n member
    constructor
    · intro named
      obtain ⟨m, inside, same⟩ := List.mem_map.mp named
      obtain ⟨inG, stands⟩ := List.mem_filter.mp inside
      rwa [node_eq_of_id (identified_unique (identified_of_coherent coherent) held) inG member same] at stands
    · exact fun stands => List.mem_map_of_mem (List.mem_filter.mpr ⟨member, stands⟩)

/-- Renaming a property renames the nodes that stand for it, in each graph. -/
theorem graphOf_renameProperty (coherent : Coherent except e) (different : old ≠ new) (accepted : (e.renameProperty kind old new).2 = true)
    (owner : NodeId) : ∃ ids, (∀ n ∈ (graphOf e.asset owner).nodes, n.id ∈ ids ↔ Asset.standsFor kind n old = true) ∧
      graphOf (e.renameProperty kind old new).1.asset owner = (graphOf e.asset owner).renameProperty kind old new ids := by
  obtain ⟨v, _, -, -, -, rfl, result⟩ := renaming_of_accepted different accepted
  have graphs : graphOf (e.modifyProperties kind fun ps => Properties.sorted ((ps.erase old).insert new v)).asset owner =
      graphOf e.asset owner := by
    cases kind <;> rfl
  rw [result]
  rcases graphOf_foldl (fun ids g => g.renameProperty kind old new ids) (fun _ => rfl) (propertyNodes_distinct e.asset kind old)
    (e.modifyProperties kind fun ps => Properties.sorted ((ps.erase old).insert new v)) owner with
    ⟨ids, listed, changed⟩ | ⟨apart, unchanged⟩
  · exact ⟨ids, propertyNodes_exact coherent listed, graphs ▸ changed⟩
  · -- A graph that is not listed has no node of the property.
    refine ⟨[], fun n member => iff_of_false List.not_mem_nil fun stands => ?_, ?_⟩
    · obtain ⟨ids, listed, -⟩ := propertyNodes_listed member stands
      exact apart (List.mem_map_of_mem listed)
    · rw [show (graphOf e.asset owner).renameProperty kind old new [] = graphOf e.asset owner by
        simp [SubGraph.renameProperty, SubGraph.mapNodes]]
      exact unchanged.trans graphs

theorem draws_renameProperty (e : Editor) (kind : PropertyKind) (old new : String) : (e.renameProperty kind old new).1.nextId = e.nextId := by
  have fold (groups : List (NodeId × List NodeId)) (k : Editor) :
      (groups.foldl (fun e group => e.modifyGraph group.1 (·.renameProperty kind old new group.2)) k).nextId = k.nextId := by
    induction groups generalizing k with
    | nil => rfl
    | cons group groups ih => exact ih _
  rcases renameProperty_cases e kind old new with same | ⟨v, _, -, -, -, rfl, result⟩
  · rw [same]
  · rw [result]
    exact fold _ _

/-- No variable gets a name that means something. -/
theorem valid_unreserved (valid : e.isPropertyNameValid kind new = true) : new ≠ "Input" ∧ new ≠ "Output" ∧ new ≠ "Event" :=
  ⟨valid_name_free valid (by decide +kernel), valid_name_free valid (by decide +kernel), valid_name_free valid (by decide +kernel)⟩

/-- What becomes of a graph when a property is renamed. -/
theorem turns_renamed (coherent : Coherent except e) (sound : Sound names e) (different : old ≠ new)
    (accepted : (e.renameProperty kind old new).2 = true) (owner : NodeId) :
    Turns (renamedVariable kind old new) (graphOf e.asset owner) (graphOf (e.renameProperty kind old new).1.asset owner) := by
  obtain ⟨valid, -⟩ := (renameProperty_accepted different).mp accepted
  obtain ⟨ids, listed, renamed⟩ := graphOf_renameProperty coherent different accepted owner
  have whole (n : Node) (member : n ∈ (graphOf e.asset owner).nodes) : n ∈ allNodes e.asset := mem_graphOf.mpr ⟨owner, member⟩
  rw [renamed]
  exact turns_renameProperty (fun n member => sound.made n (whole n member)) (fun n member => coherent.crafted n (whole n member)) listed
    fun _ => valid_unreserved valid

/-- No two variables get one name. -/
theorem renamedVariable_inj {x y : String} (untaken : new ∉ (e.asset.properties kind).keys) (inX : x ∈ e.asset.localVariables.keys)
    (inY : y ∈ e.asset.localVariables.keys) (same : renamedVariable kind old new x = renamedVariable kind old new y) : x = y := by
  simp only [renamedVariable] at same
  split at same
  · rename_i isOld
    split at same
    · rename_i also
      exact isOld.2.trans also.2.symm
    · rw [isOld.1] at untaken
      exact absurd (same ▸ inY) untaken
  · split at same
    · rename_i isOld
      rw [isOld.1] at untaken
      exact absurd (same ▸ inX) untaken
    · exact same

theorem declared_renameProperty (coherent : Coherent none e) (sound : Declared e) (kind : PropertyKind)
    (old new : String) : Declared (e.renameProperty kind old new).1 := by
  by_cases different : old = new
  · rw [different, Editor.renameProperty, if_pos rfl]
    exact sound
  cases accepted : (e.renameProperty kind old new).2 with
  | false =>
    rw [renameProperty_refused accepted]
    exact sound
  | true =>
    obtain ⟨valid, -⟩ := (renameProperty_accepted different).mp accepted
    have keys {key : String} : key ∈ ((e.renameProperty kind old new).1.asset.properties .localVariable).keys ↔ _ :=
      mem_keys_renameProperty different accepted
    refine sound_turns (renamedVariable kind old new) sound (draws_renameProperty e kind old new).ge
      (turns_renamed coherent sound different accepted) (fun key known => keys.mpr ?_)
      (fun x y inX inY same => renamedVariable_inj (valid_iff.mp valid).2.1 inX inY same) fun key known => ?_
    · rw [renamedVariable]
      split
      · split
        · exact .inr rfl
        · rename_i relayed other
          exact .inl ⟨known, fun same => other ⟨relayed, same⟩⟩
      · rename_i other
        rw [if_neg fun both => other both.1]
        exact known
    · have origin := keys.mp known
      split at origin
      · rcases origin with old | rfl
        · exact sound.reserved key old.1
        · exact valid_unreserved valid
      · exact sound.reserved key origin

end PoseGraph.NamingEdits
