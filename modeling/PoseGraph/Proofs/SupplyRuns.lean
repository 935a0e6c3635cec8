import PoseGraph.Proofs.EditorSupply

/-! Inputs over whole runs. Callers who ask before they link, who set the literals of
pins that are not linked, and who hand in no void values, find an input void if and only
if a link ends in it. The one exception is the clip of a player in a state that has been
a quick state with a linked clip: the link is gone, and the void that it had brought is
all that the player gets. -/
namespace PoseGraph.SupplyRuns
open AssetOrder EditOutcomes EditRuns Editor EditorCoherence EditorSupply InputSupply LinkInvariant NamingEdits PropertyEdits
  PropertyKeys ReachableEditors StateEdits SupplyEdits

variable {e f : Editor} {g : SubGraph} {n : Node} {p : Pin} {owner : NodeId} {clips : Prop} {edit : Edit}
variable {ps : Properties} {name : String} {v x : Value} {kind : PropertyKind}

/-! ## Values of variables -/

/-- No local variable is void. -/
def Valued (e : Editor) : Prop := ∀ v ∈ e.asset.localVariables.values, v.isVoid = false

theorem mem_values_insert (member : x ∈ (ps.insert name v).values) : x ∈ ps.values ∨ x = v := by
  have each (entries : List (String × Value)) (inside : x ∈ (Entries.insert entries name v).map Prod.snd) :
      x ∈ entries.map Prod.snd ∨ x = v := by
    induction entries with
    | nil => exact .inr (List.mem_singleton.mp inside)
    | cons entry entries ih =>
      rw [Entries.insert] at inside
      split at inside
      · exact (List.mem_cons.mp inside).elim .inr fun later => .inl (List.mem_cons_of_mem _ later)
      · rcases List.mem_cons.mp inside with here | later
        · exact .inl (here ▸ List.mem_cons_self)
        · exact (ih later).imp_left (List.mem_cons_of_mem _)
  exact each ps.entries member

theorem mem_values_sorted : x ∈ (Properties.sorted ps).values ↔ x ∈ ps.values :=
  ((List.mergeSort_perm _ _).map Prod.snd).mem_iff

theorem mem_values_erase (member : x ∈ (ps.erase name).values) : x ∈ ps.values := by
  obtain ⟨entry, inside, rfl⟩ := List.mem_map.mp member
  exact List.mem_map_of_mem (List.mem_filter.mp inside).1

theorem get_mem_values (found : ps.get? name = some v) : v ∈ ps.values :=
  List.mem_map_of_mem (get_eq_some_iff.mp found)

theorem valued_same (valued : Valued e) (same : f.asset.properties = e.asset.properties) : Valued f := by
  rw [Valued, show f.asset.localVariables = e.asset.localVariables from congrFun same .localVariable]
  exact valued

theorem valued_modifyProperties {change : Properties → Properties} (valued : Valued e)
    (keeps : kind = .localVariable → ∀ x ∈ (change e.asset.localVariables).values, x ∈ e.asset.localVariables.values ∨ x.isVoid = false) :
    Valued (e.modifyProperties kind change) := by
  intro x inside
  rw [show (e.modifyProperties kind change).asset.localVariables = _ from
    properties_modifyProperties change .localVariable] at inside
  split at inside
  · rename_i same
    exact (keeps same x inside).elim (valued x) fun literal => literal
  · exact valued x inside

theorem valued_insert (valued : Valued e) (literal : v.isVoid = false) :
    Valued (e.modifyProperties kind (·.insert name v)) := by
  refine valued_modifyProperties valued fun _ x inside => ?_
  rcases mem_values_insert inside with before | rfl
  · exact .inl before
  · exact .inr literal

theorem valued_addProperty (valued : Valued e) (kind : PropertyKind) (literal : v.isVoid = false) :
    Valued (e.addProperty kind v).1 := by
  have added : Valued (e.modifyProperties kind fun ps =>
      Properties.sorted (ps.insert ((e.asset.properties kind).uniqueName kind.defaultName) v)) := by
    refine valued_modifyProperties valued fun _ x inside => ?_
    rcases mem_values_insert (mem_values_sorted.mp inside) with before | rfl
    · exact .inl before
    · exact .inr literal
  exact added

theorem valued_removeProperty (valued : Valued e) (kind : PropertyKind) (name : String) :
    Valued (e.removeProperty kind name).1 := by
  rw [removeProperty]
  split
  · refine valued_same (e := e.modifyProperties kind (·.erase name))
      (valued_modifyProperties valued fun _ _ inside => .inl (mem_values_erase inside)) ?_
    exact properties_foldl _ (fun e _ => removeNodesIn_properties e _ _) _ _
  · exact valued

theorem valued_setPropertyValue (valued : Valued e) (kind : PropertyKind) (name : String) (literal : v.isVoid = false) :
    Valued (e.setPropertyValue kind name v).1 := by
  rw [Editor.setPropertyValue]
  split
  · exact valued_same (e := e.modifyProperties kind (·.insert name v)) (valued_insert valued literal)
      (properties_foldl _ (by exact fun _ _ => rfl) _ _)
  · exact valued

theorem valued_renameProperty (valued : Valued e) (kind : PropertyKind) (old new : String) :
    Valued (e.renameProperty kind old new).1 := by
  rcases renameProperty_cases e kind old new with same | ⟨v, f, -, -, found, moved, result⟩
  · rw [same]
    exact valued
  · rw [result]
    refine valued_same (e := f) ?_ (properties_foldl _ (by exact fun _ _ => rfl) _ _)
    rw [moved]
    refine valued_modifyProperties valued ?_
    rintro rfl x inside
    rcases mem_values_insert (mem_values_sorted.mp inside) with before | rfl
    · exact .inl (mem_values_erase before)
    · exact .inl (get_mem_values found)

theorem valued_changePropertyType (valued : Valued e) (kind : PropertyKind) (name : String) (literal : v.isVoid = false) :
    Valued (e.changePropertyType kind name v).1 := by
  rcases changePropertyType_cases e kind name v with same | ⟨current, f, -, -, moved, result⟩
  · rw [same]
    exact valued
  · rw [result]
    refine valued_same (e := f) ?_ (properties_foldl (retyped name v) (fun e _ => removeLinksIn_properties e _ _) _ _)
    rw [moved]
    exact valued_insert valued literal

/-! ## Prudent runs -/

/-- A link touches a pin of the active graph. -/
def touched (e : Editor) (pin : PinId) : Bool := e.activeGraph?.any (·.isLinked pin)

/-- The input by which a quick state of the active graph takes its clip. -/
def clipPin? (e : Editor) (id : NodeId) : Option PinId :=
  (((e.node? id).filter (·.kind == .quickState)).bind (·.inputNamed? "Animation")).map Pin.id

/-- What callers heed: they ask before they link, set the literals of pins that are not
linked, and hand in values that are not void. Unless it is granted that clips are lost,
they promote no quick state with a linked clip. -/
def Prudent (clips : Prop) (e : Editor) : Edit → Prop
  | .createLink start finish => e.linkVerdict start finish = .canConnect
  | .setPinValue pin v => touched e pin = false ∧ v.isVoid = false
  | .addProperty _ v => v.isVoid = false
  | .setPropertyValue _ _ v => v.isVoid = false
  | .changePropertyType _ _ v => v.isVoid = false
  | .promoteQuickState id => clips ∨ ∀ pin ∈ clipPin? e id, touched e pin = false
  | _ => True

instance [Decidable clips] : Decidable (Prudent clips e edit) := by
  unfold Prudent
  split <;> infer_instance

theorem valued_apply (valued : Valued e) (prudent : Prudent clips e edit) : Valued (edit.apply e) := by
  cases edit with
  | createNode category name => exact valued_same valued (createNode_properties e category name)
  | removeNodes ids => exact valued_same valued (removeNodesIn_properties e _ ids)
  | layNode id layout => exact valued
  | setPinValue pin v => exact valued_same valued (setPinValue_properties e pin v)
  | createLink start finish => exact valued_same valued (createLinkIn_properties e _ start finish)
  | removeLinks ids => exact valued_same valued (removeLinksIn_properties e _ ids)
  | addProperty kind v => exact valued_addProperty valued kind prudent
  | removeProperty kind name => exact valued_removeProperty valued kind name
  | setPropertyValue kind name v => exact valued_setPropertyValue valued kind name prudent
  | renameProperty kind old new => exact valued_renameProperty valued kind old new
  | changePropertyType kind name v => exact valued_changePropertyType valued kind name prudent
  | spawnInput name => exact valued_same valued (spawnInput_properties e name)
  | spawnLocalVariable name getter => exact valued_same valued (spawnLocalVariable_properties e name getter)
  | createTransitionNode => exact valued_same valued (createTransitionNode_properties e)
  | createTransition start finish => exact valued_same valued (createTransition_properties e start finish)
  | promoteQuickState id => exact valued_same valued (promoteQuickState_properties e id)
  | ensureEntry => exact valued
  | ensureEntries => exact valued_same valued (ensureEntries_properties e)
  | ensureSubGraph id => exact valued_same valued (ensureSubGraph_properties e id)
  | enterNode id => exact valued_same valued (ensureSubGraph_properties (e.setPath (some id)) id)
  | setPath target =>
    rw [Edit.apply, setPath.eq_def]
    split <;> exact valued
  | setSkeleton handle => exact valued
  | setSettings settings => exact valued
  | sort => exact valued_same valued (sort_properties e)
  | save => exact valued_same valued (sort_properties e)
  | compile session =>
    have sorted := valued_same valued (sort_properties e)
    rw [Edit.apply, compile]
    dsimp only
    split <;> exact sorted

theorem unfed_of_touched {pin : PinId} (free : touched e pin = false) (active : e.activeGraph? = some g) : ¬Fed g pin := by
  rw [touched, active, Option.any_some] at free
  exact not_fed_of_isLinked free

theorem provided_apply (coherent : Coherent none e) (valued : Valued e) (provided : Provided clips e)
    (prudent : Prudent clips e edit) : Provided clips (edit.apply e) := by
  cases edit with
  | createNode category name => exact provided_createNode coherent provided category name
  | removeNodes ids => exact provided_removeNodesIn coherent provided _ ids
  | layNode id layout =>
    refine provided_editNode provided (f := layout.applyTo) ?_ id
    exact fun _ => ⟨rfl, rfl⟩
  | setPinValue pin v => exact provided_setPinValue provided (fun g active => unfed_of_touched prudent.1 active) prudent.2
  | createLink start finish =>
    refine provided_createLinkIn e.activeOwner start finish coherent provided fun g held p q first second => ?_
    have allowed : e.linkVerdict start finish = .canConnect := prudent
    rw [Editor.linkVerdict, activeGraph?, held] at allowed
    obtain ⟨x, y, sameX, sameY, -, kinds, -⟩ := LinkingEdits.verdict_spec allowed
    cases sameX.symm.trans first
    cases sameY.symm.trans second
    exact kinds
  | removeLinks ids => exact provided_removeLinksIn coherent provided _ ids
  | addProperty kind v => exact provided_addProperty provided kind v
  | removeProperty kind name => exact provided_removeProperty coherent provided kind name
  | setPropertyValue kind name v => exact provided_setPropertyValue provided kind name prudent
  | renameProperty kind old new => exact provided_renameProperty coherent provided kind old new
  | changePropertyType kind name v => exact provided_changePropertyType coherent provided kind name prudent
  | spawnInput name => exact provided_spawnInput coherent provided name
  | spawnLocalVariable name getter =>
    exact provided_spawnLocalVariable coherent provided name getter fun v found => valued v (get_mem_values found)
  | createTransitionNode => exact provided_createTransitionNode coherent provided
  | createTransition start finish => exact provided_createTransition coherent provided start finish
  | promoteQuickState id =>
    refine (provided_promoteQuickState coherent provided id (Or.imp_right ?_ prudent)).1
    intro free g active n found kind p clip
    refine unfed_of_touched (free p.id ?_) active
    simp [clipPin?, node?, active, found, Option.filter, kind, clip]
  | ensureEntry => exact provided_ensureEntryIn provided _
  | ensureEntries => exact provided_ensureEntries provided
  | ensureSubGraph id => exact provided_ensureSubGraph coherent provided id
  | enterNode id =>
    exact provided_ensureSubGraph (e := e.setPath (some id)) (coherent_setPath coherent (some id)) provided id
  | setPath target =>
    rw [Edit.apply, setPath.eq_def]
    split <;> exact provided
  | setSkeleton handle => exact provided
  | setSettings settings => exact provided
  | sort => exact provided_sort provided
  | save => exact provided_sort provided
  | compile session => exact provided_compile provided session

theorem provided_start (clips : Prop) (name : String) (self : NodeId) (catalog : Catalog) (settings : Settings) (drawn : Nat) :
    Provided clips (.ofAsset (.ofName name self) catalog settings (drawn + 1)) := by
  refine provided_ensureEntries fun owner g held => ?_
  have entry : (owner, g) ∈ [(NodeId.root, SubGraph.empty)] := get_eq_some_iff.mp held
  cases List.mem_singleton.mp entry
  exact supplied_empty

theorem valued_start (name : String) (self : NodeId) (catalog : Catalog) (settings : Settings) (drawn : Nat) :
    Valued (.ofAsset (.ofName name self) catalog settings (drawn + 1)) :=
  valued_same (e := { asset := (Asset.ofName name self).ensureGraph .root, catalog, settings, path := [], isDirty := true, nextId := drawn + 1 })
    (fun _ inside => nomatch inside) (ensureEntries_properties _)

theorem provided_reachable (reachable : Reachable (Prudent clips) e) : Valued e ∧ Provided clips e := by
  induction reachable with
  | start name self catalog settings drawn =>
    exact ⟨valued_start name self catalog settings drawn, provided_start clips name self catalog settings drawn⟩
  | step before may ih => exact ⟨valued_apply ih.1 may, provided_apply (coherent_reachable before) ih.1 ih.2 may⟩

/-- Prudent callers find every linked input void, and every void input of a single value
linked. Only the clip of a player may be missing, if quick states with linked clips have
been promoted. Each such promotion loses the clip. -/
theorem void_exactly_linked (reachable : Reachable (Prudent clips) e) :
    (∀ owner g, e.asset.graph? owner = some g → ∀ n ∈ g.nodes, ∀ p ∈ n.inputs, (Fed g p.id → p.value = .void) ∧
      (p.storage = .value → p.value = .void → Fed g p.id ∨ clips ∧ TakesClip n p)) ∧
    ∀ id pin, clipPin? e id = some pin → touched e pin = true → (e.promoteQuickState id).2.isSome = true →
      ∃ h, (e.promoteQuickState id).1.asset.graph? id = some h ∧ Plays h .void := by
  have coherent := coherent_reachable reachable
  have provided := (provided_reachable reachable).2
  have void (owner : NodeId) (g : SubGraph) (held : e.asset.graph? owner = some g) (n : Node) (member : n ∈ g.nodes) (p : Pin)
      (input : p ∈ n.inputs) (fed : Fed g p.id) : p.value = .void :=
    isVoid_iff.mp (((provided owner g held).void n member p input fed).resolve_right fun none => nomatch none)
  refine ⟨fun owner g held n member p input => ⟨void owner g held n member p input, fun single empty => ?_⟩, ?_⟩
  · rcases (provided owner g held).filled n member p input single (isVoid_iff.mpr empty) with fed | granted | none
    · exact .inl fed
    · exact .inr granted
    · cases none
  · intro id pin clip linked promoted
    obtain ⟨p, given, rfl⟩ := Option.map_eq_some_iff.mp clip
    obtain ⟨quick, found, named⟩ := Option.bind_eq_some_iff.mp given
    obtain ⟨held, -⟩ := Option.filter_eq_some_iff.mp found
    obtain ⟨g, active, inside⟩ := Option.bind_eq_some_iff.mp held
    have member : quick ∈ g.nodes := List.mem_of_find?_eq_some inside
    have input : p ∈ quick.inputs := List.mem_of_find?_eq_some named
    rw [touched, active, Option.any_some] at linked
    have unique := identified_unique (identified_of_coherent coherent) active
    have fed := fed_of_isLinked (provided e.activeOwner g active) unique member input linked
    obtain ⟨h, reached, plays⟩ := (provided_promoteQuickState coherent (provided_grant provided) id (.inl trivial)).2 promoted
      g active quick inside p named
    rw [void e.activeOwner g active quick member p input fed] at plays
    exact ⟨h, reached, plays⟩

/-- A quick state is made to take its clip from an input of the asset. -/
def linkedClip : List Edit :=
  [.addProperty .input (.ofHandle .animation 0), .createNode "Animation" "State Machine", .enterNode ⟨2⟩,
    .createNode "StateMachine" "Quick State", .spawnInput "New Input", .createLink ⟨9⟩ ⟨6⟩]

/-- The editor after these edits. -/
def clipEditor : Editor := linkedClip.foldl Edit.apply (.ofAsset (.ofName "Wave" ⟨1⟩) .empty .default 1)

/-- Once the quick state is a state, its player has neither a clip nor a link that
brings one. -/
theorem clip_lost : Reachable (Prudent False) clipEditor ∧
    ∃ h, (clipEditor.promoteQuickState ⟨5⟩).1.asset.graph? ⟨5⟩ = some h ∧ Plays h .void := by
  have run : Run (Prudent False) (.ofAsset (.ofName "Wave" ⟨1⟩) .empty .default 1) linkedClip := by decide +kernel
  have reachable : Reachable (Prudent False) clipEditor := reachable_of_run (.start "Wave" ⟨1⟩ .empty .default 0) run
  have clip : clipPin? clipEditor ⟨5⟩ = some ⟨6⟩ := by decide +kernel
  have linked : touched clipEditor ⟨6⟩ = true := by decide +kernel
  have promoted : (clipEditor.promoteQuickState ⟨5⟩).2.isSome = true := by decide +kernel
  exact ⟨reachable, (void_exactly_linked reachable).2 ⟨5⟩ ⟨6⟩ clip linked promoted⟩

end PoseGraph.SupplyRuns
