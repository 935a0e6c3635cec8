import PoseGraph.Proofs.FreshNames
import PoseGraph.Proofs.PropertyValues
import PoseGraph.Proofs.StandingNodes

/-! The types of the pins by which nodes stand for properties. A node is placed with the
type of the value that its property has, and retyping a property goes along with its
nodes. Setting the value is not checked against them, and a pin that comes with a
transition can bear the name of an input by chance. -/
namespace PoseGraph.PropertyTypes
open AssetOrder EditRuns Editor EditorCoherence EditorSoundness FreshNames GraphDependencies GraphWiring NodeFrames
  PropertyEdits PropertyKeys PropertyNodes PropertyValues ReachableEditors RejectedEdits StandingNodes StateEdits

variable {e f : Editor} {m n new : Node} {p : Pin} {owner start finish : NodeId} {base : Nat} {kind : PropertyKind}
variable {name old fresh : String} {u v : Value} {t : Node → Node} {edit : Edit}

/-- A pin has the type and the storage of a value. -/
def Tagged (v : Value) (p : Pin) : Prop := p.type = .ofValue v ∧ p.storage = .ofValue v

/-- All pins of a node that bear a name have the type and the storage of a value. -/
def Typed (v : Value) (name : String) (n : Node) : Prop := ∀ p ∈ n.pins, p.name = name → Tagged v p

/-- The pins by which nodes stand for properties have the types of the values. -/
def Agree (e : Editor) : Prop := ∀ kind name v, (e.asset.properties kind).get? name = some v →
  ∀ n ∈ allNodes e.asset, Asset.standsFor kind n name = true → Typed v name n

/-- Two values are of one type, as far as pins know. -/
def Alike (u v : Value) : Prop := PinType.ofValue u = .ofValue v ∧ StorageKind.ofValue u = .ofValue v

theorem tagged_alike (tagged : Tagged u p) : Tagged v p ↔ Alike u v := by
  rw [Tagged, Alike, tagged.1, tagged.2]

theorem typed_sameFrame (typed : Typed v name n) (same : SameFrame n m) : Typed v name m := by
  intro p member named
  obtain ⟨q, inside, frames⟩ := pin_counterpart (sameFrame_pins same) member
  have tagged := typed q inside ((congrArg Pin.name frames).trans named)
  exact ⟨(congrArg Pin.type frames).symm.trans tagged.1, (congrArg Pin.storage frames).symm.trans tagged.2⟩

/-- The values of the second editor match the nodes of the first one after a turn. -/
def Fits (t : Node → Node) (e f : Editor) : Prop := ∀ owner, ∀ n ∈ (graphOf e.asset owner).nodes, ∀ kind name v,
  (f.asset.properties kind).get? name = some v → Asset.standsFor kind (t n) name = true → Typed v name (t n)

theorem agree_of_stems (stems : Stems t e f) (fits : Fits t e f) : Agree f := by
  intro kind name v value m member stands
  obtain ⟨owner, inside⟩ := mem_graphOf.mp member
  rcases stems owner m inside with foreign | ⟨n, before, same⟩
  · exact absurd foreign (stands_native stands)
  · exact typed_sameFrame (fits owner n before kind name v value (sameFrame_stands same ▸ stands)) same

theorem agree_iff_fits (stems : Stems t e f) (lasts : Lasts t e f) : Agree f ↔ Fits t e f := by
  refine ⟨fun agree owner n before kind name v value stands => ?_, agree_of_stems stems⟩
  obtain ⟨m, inside, same⟩ := lasts owner n before
  have typed := agree kind name v value m (mem_graphOf.mpr ⟨owner, inside⟩) ((sameFrame_stands same).trans stands)
  exact typed_sameFrame typed (sameFrame_symm same)

/-- Where nodes are left as they are or taken away, it takes a new value to make them disagree. -/
theorem agree_spared (agree : Agree e) (stems : Stems id e f)
    (kept : ∀ kind name v, (f.asset.properties kind).get? name = some v →
      (e.asset.properties kind).get? name = some v ∨ ∀ n ∈ allNodes e.asset, Asset.standsFor kind n name = false) :
    Agree f := by
  refine agree_of_stems stems fun owner n before kind name v value stands => ?_
  have member := mem_graphOf.mpr ⟨owner, before⟩
  rcases kept kind name v value with same | none
  · exact agree kind name v same n member stands
  · rw [id, none n member] at stands
    cases stands

/-! ## Values and names -/

/-- A new value fits the nodes if it is of the same type as the old one, or there are none. -/
theorem agree_setPropertyValue_iff (agree : Agree e) (found : (e.asset.properties kind).get? name = some u) :
    Agree (e.setPropertyValue kind name v).1 ↔
      ∀ n ∈ allNodes e.asset, Asset.standsFor kind n name = true → Alike u v := by
  have values (other : PropertyKind) (key : String) :
      ((e.setPropertyValue kind name v).1.asset.properties other).get? key = _ :=
    value_setPropertyValue (get_mem_keys found) v
  have adds := adds_setPropertyValue e kind name v
  rw [agree_iff_fits adds.stems adds.lasts]
  constructor
  · intro fits n member stands
    obtain ⟨owner, before⟩ := mem_graphOf.mp member
    obtain ⟨p, inside, named⟩ := naming_pin stands
    have typed := fits owner n before kind name v ((values kind name).trans (if_pos ⟨rfl, rfl⟩)) stands
    exact (tagged_alike (agree kind name u found n member stands p inside named)).mp (typed p inside named)
  · intro alike owner n before other key w value stands p inside named
    have member := mem_graphOf.mpr ⟨owner, before⟩
    rw [values] at value
    split at value
    · rename_i here
      obtain ⟨rfl, rfl⟩ := here
      cases value
      exact (tagged_alike (agree kind key u found n member stands p inside named)).mpr (alike n member stands)
    · exact agree other key w value n member stands p inside named

theorem pins_renamed : (renamed kind old fresh n).pins =
    n.pins.map fun p => if p.name = old then { p with name := fresh } else p := by
  rw [renamed]
  split <;> exact pins_mapPins _ n

/-- The pins that bore the old name join those that bear the new one. -/
theorem typed_renamed_iff : Typed v fresh (renamed kind old fresh n) ↔ Typed v old n ∧ Typed v fresh n := by
  have tagged (p : Pin) : Tagged v (if p.name = old then { p with name := fresh } else p) ↔ Tagged v p := by
    split <;> rfl
  have named (p : Pin) :
      (if p.name = old then { p with name := fresh } else p).name = fresh ↔ p.name = old ∨ p.name = fresh := by
    split <;> simp [*]
  simp only [Typed, pins_renamed, List.forall_mem_map, tagged, named]
  constructor
  · intro typed
    exact ⟨fun p inside first => typed p inside (.inl first), fun p inside second => typed p inside (.inr second)⟩
  · rintro ⟨first, second⟩ p inside named
    exact named.elim (first p inside) (second p inside)

/-- A new name fits the nodes if the other pins that bear it, if any, are of the type of the value. -/
theorem agree_renameProperty_iff (coherent : Coherent none e) (registered : Registered e) (agree : Agree e)
    (different : old ≠ fresh) (accepted : (e.renameProperty kind old fresh).2 = true)
    (found : (e.asset.properties kind).get? old = some v) :
    Agree (e.renameProperty kind old fresh).1 ↔
      ∀ n ∈ allNodes e.asset, Asset.standsFor kind n old = true → Typed v fresh n := by
  have values (other : PropertyKind) (key : String) :
      ((e.renameProperty kind old fresh).1.asset.properties other).get? key = _ :=
    value_renameProperty different accepted
  have free : fresh ∉ (e.asset.properties kind).keys :=
    (valid_iff.mp ((renameProperty_accepted different).mp accepted).1).2.1
  have nodes := renamed_renameProperty coherent different accepted
  have stems : Stems (forProperty kind old (renamed kind old fresh)) e (e.renameProperty kind old fresh).1 := by
    intro owner m inside
    obtain ⟨n, member, same⟩ := List.mem_map.mp (nodes owner ▸ inside)
    exact .inr ⟨n, member, same ▸ sameFrame_refl _⟩
  have lasts : Lasts (forProperty kind old (renamed kind old fresh)) e (e.renameProperty kind old fresh).1 :=
    fun owner n member => ⟨_, nodes owner ▸ List.mem_map_of_mem member, sameFrame_refl _⟩
  rw [agree_iff_fits stems lasts]
  constructor
  · intro fits n member stands
    obtain ⟨owner, before⟩ := mem_graphOf.mp member
    have value : ((e.renameProperty kind old fresh).1.asset.properties kind).get? fresh = some v := by
      rw [values, if_pos rfl, if_pos rfl, found]
    have typed := fits owner n before kind fresh v value
    rw [forProperty, if_pos stands] at typed
    exact (typed_renamed_iff.mp (typed (stands_renamed stands))).2
  · intro typed owner n before other key w value stands
    have member := mem_graphOf.mpr ⟨owner, before⟩
    obtain ⟨first, stood, turned⟩ := (heir_renamed (registered.bearing owner n before)).stands other key stands
    rw [forProperty]
    rw [renamedProperty] at turned
    split at turned
    · rename_i here
      obtain ⟨rfl, rfl⟩ := here
      subst turned
      rw [values, if_pos rfl, if_pos rfl, found] at value
      cases value
      rw [if_pos stood]
      exact typed_renamed_iff.mpr ⟨agree other first v found n member stood, typed n member stood⟩
    · rename_i there
      subst turned
      have elsewhere : ¬Asset.standsFor kind n old = true := fun also => there <| by
        obtain rfl := token_injective ((stands_category stood).symm.trans (stands_category also))
        exact ⟨rfl, stands_unique stood also⟩
      rw [if_neg elsewhere]
      refine agree other first w ?_ n member stood
      rw [values] at value
      split at value
      · rename_i same
        subst same
        rw [if_neg fun taken : first = fresh => free (taken ▸ registered.known owner n before kind first stood),
          if_neg fun taken : first = old => there ⟨rfl, taken⟩] at value
        exact value
      · exact value

/-- Another type is passed on to all nodes. -/
theorem agree_changePropertyType (coherent : Coherent none e) (agree : Agree e)
    (accepted : (e.changePropertyType kind name v).2 = true) : Agree (e.changePropertyType kind name v).1 := by
  refine agree_of_stems (stems_changePropertyType coherent accepted) fun owner n before other key w value stands => ?_
  rw [value_changePropertyType accepted] at value
  rw [forProperty] at stands ⊢
  split at stands
  · rename_i stood
    rw [if_pos stood]
    rw [stands_retagged] at stands
    obtain rfl := token_injective ((stands_category stands).symm.trans (stands_category stood))
    obtain rfl := stands_unique stands stood
    rw [if_pos ⟨rfl, rfl⟩] at value
    cases value
    intro p inside named
    obtain ⟨q, -, same⟩ := List.mem_map.mp (pins_mapPins _ n ▸ inside : p ∈ n.pins.map _)
    split at same
    · rw [← same]
      exact ⟨rfl, rfl⟩
    · rename_i apart
      exact absurd (same ▸ named) apart
  · rename_i elsewhere
    rw [if_neg elsewhere]
    rw [if_neg ?_] at value
    · exact agree other key w value n (mem_graphOf.mpr ⟨owner, before⟩) stands
    · rintro ⟨rfl, rfl⟩
      exact elsewhere stands

/-! ## Transitions -/

theorem tagged_transitionPin {k : Nat} {self : NodeId} {side : PinKind} : Tagged .flow (transitionPin k self side) :=
  ⟨rfl, rfl⟩

theorem mem_pins_joined : p ∈ (joined base start finish n).pins ↔
    p ∈ n.pins ∨ n.id = finish ∧ p = transitionPin (base + 3) finish .input ∨
      n.id = start ∧ p = transitionPin base start .output := by
  simp only [joined, attach, Node.pins, List.mem_append]
  split <;> split <;> simp_all <;> tauto

/-- A transition gives the node that it starts from an output called after it. -/
theorem agree_createTransition_iff (coherent : Coherent none e) (registered : Registered e) (agree : Agree e)
    (accepted : (e.createTransition start finish).2.isSome = true) :
    Agree (e.createTransition start finish).1 ↔ ∀ v, e.asset.inputs.get? "Transition" = some v →
      ∀ n ∈ allNodes e.asset, n.id = start → Asset.standsFor .input n "Transition" = true → Alike .flow v := by
  obtain ⟨base, stems, lasts⟩ := joined_createTransition coherent accepted
  obtain ⟨_, _, _, _, _, _, joining⟩ := createTransition_accepted accepted
  have same : (e.createTransition start finish).1.asset.properties = e.asset.properties :=
    createTransition_properties e start finish
  rw [agree_iff_fits stems lasts, Fits, same]
  constructor
  · intro fits v value n member here stands
    obtain ⟨owner, before⟩ := mem_graphOf.mp member
    have stays : Asset.standsFor .input (joined base start finish n) "Transition" = true :=
      (stands_joined_iff (registered.bearing owner n before) joining.differ).mpr
        ⟨stands, fun there => joining.differ (here.symm.trans there), fun _ => rfl⟩
    have inside : transitionPin base start .output ∈ (joined base start finish n).pins :=
      mem_pins_joined.mpr (.inr (.inr ⟨here, rfl⟩))
    exact (tagged_alike tagged_transitionPin).mp (fits owner n before .input "Transition" v value stays _ inside rfl)
  · intro alike owner n before kind name v value stays p inside named
    have member := mem_graphOf.mpr ⟨owner, before⟩
    obtain ⟨stands, there, only⟩ := (stands_joined_iff (registered.bearing owner n before) joining.differ).mp stays
    rcases mem_pins_joined.mp inside with old | ⟨ends, -⟩ | ⟨starts, rfl⟩
    · exact agree kind name v value n member stands p old named
    · exact absurd ends there
    · obtain rfl := only starts
      obtain rfl : "Transition" = name := named
      exact (tagged_alike tagged_transitionPin).mpr (alike v value n member starts stands)

/-! ## All edits -/

/-- A new node of a property has a single pin, with the type of the value. -/
theorem agree_gains (agree : Agree e) {owner : NodeId} (gains : Gains e f owner new) (made : Fresh kind name v new)
    (found : (e.asset.properties kind).get? name = some v) (same : f.asset.properties = e.asset.properties) :
    Agree f := by
  intro other key w value m member stands
  rw [same] at value
  obtain ⟨self, inside⟩ := mem_graphOf.mp member
  rcases gains self m inside with foreign | ⟨n, before, frames⟩ | ⟨-, frames⟩
  · exact absurd foreign (stands_native stands)
  · have member := mem_graphOf.mpr ⟨self, before⟩
    exact typed_sameFrame (agree other key w value n member (sameFrame_stands frames ▸ stands)) frames
  · obtain ⟨own, p, single, -, type, storage⟩ := sameFrame_fresh frames made
    obtain rfl := token_injective ((stands_category stands).symm.trans (stands_category own))
    obtain rfl := stands_unique stands own
    obtain rfl : w = v := Option.some.inj (value.symm.trans found)
    intro q inside _
    rw [single, List.mem_singleton] at inside
    exact inside ▸ ⟨type, storage⟩

/-- An edit gives a property a value of another type than its nodes have, a name that other pins
of its nodes bear, or joins a node of an input that is called as the pins of transitions are. -/
def Mistypes (e : Editor) : Edit → Prop
  | .setPropertyValue kind name v => ∃ u, (e.asset.properties kind).get? name = some u ∧ ¬Alike u v ∧
      ∃ n ∈ allNodes e.asset, Asset.standsFor kind n name = true
  | .renameProperty kind old fresh => old ≠ fresh ∧ (e.renameProperty kind old fresh).2 = true ∧
      ∃ v, (e.asset.properties kind).get? old = some v ∧
        ∃ n ∈ allNodes e.asset, Asset.standsFor kind n old = true ∧ ¬Typed v fresh n
  | .createTransition start finish => (e.createTransition start finish).2.isSome = true ∧
      ∃ v, e.asset.inputs.get? "Transition" = some v ∧ ¬Alike .flow v ∧
        ∃ n ∈ allNodes e.asset, n.id = start ∧ Asset.standsFor .input n "Transition" = true
  | _ => False

theorem agree_apply_iff (coherent : Coherent none e) (registered : Registered e) (agree : Agree e) :
    Agree (edit.apply e) ↔ ¬Mistypes e edit := by
  have unmoved (same : (edit.apply e).asset = e.asset) : Agree (edit.apply e) := by
    rw [Agree, same]
    exact agree
  cases edit with
  | setPropertyValue kind name v =>
    cases found : (e.asset.properties kind).get? name with
    | none =>
      refine iff_of_true (unmoved ?_) ?_
      · rw [Edit.apply, Editor.setPropertyValue, if_neg (mt contains_iff.mp (get_eq_none_iff.mp found))]
      · rintro ⟨_, there, -⟩
        rw [found] at there
        cases there
    | some u =>
      refine (agree_setPropertyValue_iff agree found).trans ⟨fun alike => ?_, fun fits n member stands => ?_⟩
      · rintro ⟨w, there, apart, n, member, stands⟩
        obtain rfl : u = w := Option.some.inj (found.symm.trans there)
        exact apart (alike n member stands)
      · by_contra apart
        exact fits ⟨u, found, apart, n, member, stands⟩
  | renameProperty kind old fresh =>
    by_cases same : old = fresh
    · refine iff_of_true (unmoved ?_) fun mistypes => mistypes.1 same
      rw [Edit.apply, Editor.renameProperty, if_pos same]
    · cases accepted : (e.renameProperty kind old fresh).2 with
      | false =>
        refine iff_of_true (unmoved ?_) ?_
        · rw [Edit.apply, renameProperty_refused accepted]
        · rintro ⟨-, there, -⟩
          rw [accepted] at there
          cases there
      | true =>
        obtain ⟨-, present⟩ := (renameProperty_accepted same).mp accepted
        obtain ⟨v, found⟩ := Option.ne_none_iff_exists'.mp (mt get_eq_none_iff.mp (not_not.mpr present))
        refine (agree_renameProperty_iff coherent registered agree same accepted found).trans
          ⟨fun typed => ?_, fun fits n member stands => ?_⟩
        · rintro ⟨-, -, w, there, n, member, stands, apart⟩
          obtain rfl : v = w := Option.some.inj (found.symm.trans there)
          exact apart (typed n member stands)
        · by_contra apart
          exact fits ⟨same, accepted, v, found, n, member, stands, apart⟩
  | createTransition start finish =>
    cases accepted : (e.createTransition start finish).2.isSome with
    | false =>
      refine iff_of_true (unmoved (rejected_createTransition coherent start finish accepted).1) ?_
      rintro ⟨there, -⟩
      rw [accepted] at there
      cases there
    | true =>
      refine (agree_createTransition_iff coherent registered agree accepted).trans
        ⟨fun alike => ?_, fun fits v found n member here stands => ?_⟩
      · rintro ⟨-, v, found, apart, n, member, here, stands⟩
        exact apart (alike v found n member here stands)
      · by_contra apart
        exact fits ⟨accepted, v, found, apart, n, member, here, stands⟩
  | addProperty kind v =>
    have stems : Stems id e (e.addProperty kind v).1 := stems_apply coherent (.addProperty kind v) rfl
    refine iff_of_true (agree_spared agree stems fun other key w value => ?_) id
    rw [Edit.apply, value_addProperty] at value
    split at value
    · rename_i here
      obtain ⟨rfl, rfl⟩ := here
      refine .inr fun n member => Bool.eq_false_iff.mpr fun stands => ?_
      obtain ⟨owner, before⟩ := mem_graphOf.mp member
      exact uniqueName_fresh _ _ (registered.known owner n before kind _ stands)
    · exact .inl value
  | removeProperty kind name =>
    refine iff_of_true ?_ id
    cases accepted : (e.removeProperty kind name).2 with
    | false => exact unmoved (rejected_removeProperty accepted).1
    | true =>
      have stems : Stems id e (e.removeProperty kind name).1 := stems_apply coherent (.removeProperty kind name) rfl
      refine agree_spared agree stems fun other key w value => ?_
      rw [Edit.apply, value_removeProperty accepted] at value
      split at value
      · cases value
      · exact .inl value
  | changePropertyType kind name v =>
    refine iff_of_true ?_ id
    cases accepted : (e.changePropertyType kind name v).2 with
    | false => exact unmoved (rejected_changePropertyType accepted).1
    | true => exact agree_changePropertyType coherent agree accepted
  | spawnInput name =>
    refine iff_of_true ?_ id
    rcases spawnInput_gains e name with same | ⟨v, new, found, made, gains⟩
    · exact unmoved (by rw [Edit.apply, same])
    · exact agree_gains agree gains made found (spawnInput_properties e name)
  | spawnLocalVariable name getter =>
    refine iff_of_true ?_ id
    rcases spawnLocalVariable_gains e name getter with same | ⟨v, new, found, made, -, gains, -⟩
    · exact unmoved (by rw [Edit.apply, same])
    · exact agree_gains agree gains made found (spawnLocalVariable_properties e name getter)
  | _ =>
    refine iff_of_true (agree_spared agree (stems_apply coherent _ rfl) fun other key w value => .inl ?_) id
    rwa [apply_properties rfl] at value

/-! ## Runs -/

/-- Pins have the types of the properties that they belong to throughout a run exactly if no edit
of it mistypes one. -/
theorem property_types_exact (label : String) (self : NodeId) (catalog : Catalog) (settings : Settings) (drawn : Nat)
    (edits : List Edit) :
    let start := Editor.ofAsset (.ofName label self) catalog settings (drawn + 1)
    (∀ earlier, earlier <+: edits → Agree (earlier.foldl Edit.apply start)) ↔
      Run (fun e edit => ¬Mistypes e edit) start edits := by
  intro start
  have reached : Reached start := .start label self catalog settings drawn
  refine holds_throughout_iff Reached (fun e edit known _ => .step known trivial)
    (fun e edit known _ => agree_apply_iff (coherent_reachable known) (registered_reached known)) reached
    (run_any start edits) ?_
  intro kind name v _ n member
  obtain ⟨owner, inside⟩ := mem_graphOf.mp member
  rw [start_nodes] at inside
  cases inside

/-- An input is given a number after a node of it has been placed with the type of a pose. -/
def revalued : List Edit :=
  [.addProperty .input (.int64 0), .spawnInput "New Input", .setPropertyValue .input "New Input" (.float32 .zero)]

/-- The editor after these edits. -/
def revaluedEditor : Editor := revalued.foldl Edit.apply (.ofAsset (.ofName "Wave" ⟨1⟩) .empty .default 1)

/-- The node still has the old type. -/
theorem revalued_mistyped : ¬Agree revaluedEditor ∧
    ¬Run (fun e edit => ¬Mistypes e edit) (.ofAsset (.ofName "Wave" ⟨1⟩) .empty .default 1) revalued := by
  have stale : ((revaluedEditor.asset.properties .input).get? "New Input").map PinType.ofValue = some .float ∧
      ∃ n ∈ allNodes revaluedEditor.asset, Asset.standsFor .input n "New Input" = true ∧
        ∃ p ∈ n.pins, p.name = "New Input" ∧ p.type = .pose := by decide +kernel
  obtain ⟨float, n, member, stands, p, inside, named, pose⟩ := stale
  obtain ⟨v, value, type⟩ := Option.map_eq_some_iff.mp float
  have mistyped : ¬Agree revaluedEditor := fun agree => by
    have tagged := agree .input "New Input" v value n member stands p inside named
    cases pose.symm.trans (tagged.1.trans type)
  exact ⟨mistyped, fun run => mistyped
    ((property_types_exact "Wave" ⟨1⟩ .empty .default 0 revalued).mpr run revalued (List.prefix_refl _))⟩

end PoseGraph.PropertyTypes
