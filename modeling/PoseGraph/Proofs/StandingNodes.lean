import PoseGraph.Proofs.PropertyNodes
import PoseGraph.Proofs.RejectedEdits

/-! Nodes that stand for properties. Whatever is edited, a node that stands for a property
stands for one that exists, and no graph has two nodes that set a variable. A node ceases
to stand for its property only when pins of a transition are attached to it. -/
namespace PoseGraph.StandingNodes
open AssetOrder EditRuns Editor EditorCoherence EditorSoundness GraphDependencies LinkingEdits NamingEdits NodeCraft
  NodeFrames PropertyEdits PropertyKeys PropertyNodes ReachableEditors RejectedEdits SheddingEdits StateEdits

variable {e f : Editor} {m n new : Node} {owner self start finish : NodeId} {base : Nat} {v : Value}
variable {kind other : PropertyKind} {name old fresh : String} {edit : Edit} {rename : PropertyKind → String → String}

/-! ## Heirs -/

/-- Nodes of properties have pins to name them, and there are none for outputs. -/
structure Bearing (n : Node) : Prop where
  noOutput : n.category ≠ PropertyKind.output.token
  input : n.category = PropertyKind.input.token → n.outputs ≠ []
  relay : n.category = PropertyKind.localVariable.token → n.pins ≠ []

theorem bearing_foreign (foreign : Foreign n) : Bearing n :=
  ⟨foreign .output, fun input => absurd input (foreign .input), fun relay => absurd relay (foreign .localVariable)⟩

theorem token_injective (same : kind.token = other.token) : kind = other := by
  revert same
  cases kind <;> cases other <;> decide

/-- The second node takes the place of the first one, which stood for the same properties,
perhaps by other names. -/
structure Heir (rename : PropertyKind → String → String) (n m : Node) : Prop where
  id : m.id = n.id
  bearing : Bearing m
  stands : ∀ kind name, Asset.standsFor kind m name = true →
    ∃ before, Asset.standsFor kind n before = true ∧ rename kind before = name
  sets : m.isSetter = true → n.isSetter = true

theorem bearing_sameFrame (bearing : Bearing n) (same : SameFrame n m) : Bearing m := by
  refine ⟨same.category ▸ bearing.noOutput, fun input none => ?_, fun relay none => ?_⟩
  · have outputs := same.outputs
    rw [none, List.map_nil] at outputs
    exact bearing.input (same.category ▸ input) (List.map_eq_nil_iff.mp outputs.symm)
  · have pins := sameFrame_pins same
    rw [none, List.map_nil] at pins
    exact bearing.relay (same.category ▸ relay) (List.map_eq_nil_iff.mp pins.symm)

theorem heir_refl (bearing : Bearing n) : Heir (fun _ name => name) n n :=
  ⟨rfl, bearing, fun _ name stands => ⟨name, stands, rfl⟩, fun sets => sets⟩

theorem heir_sameFrame {k : Node} (heir : Heir rename n m) (same : SameFrame m k) : Heir rename n k :=
  ⟨same.id.trans heir.id, bearing_sameFrame heir.bearing same,
    fun kind name stands => heir.stands kind name (sameFrame_stands same ▸ stands),
    fun sets => heir.sets (sameFrame_isSetter same ▸ sets)⟩

theorem length_joined (base : Nat) (differ : start ≠ finish) (more : n.id = start ∨ n.id = finish) :
    (joined base start finish n).pins.length = n.pins.length + 1 := by
  rcases more with here | here
  · simp [joined, GraphWiring.attach, Node.pins, here, differ]
    omega
  · simp [joined, GraphWiring.attach, Node.pins, here, Ne.symm differ]
    omega

/-- A node of a variable has a single pin, and here it gets another one. -/
theorem joined_plain (base : Nat) (some_ : n.category = PropertyKind.localVariable.token → n.pins ≠ [])
    (differ : start ≠ finish) (more : n.id = start ∨ n.id = finish) : (joined base start finish n).isLocalVariable = false := by
  refine Bool.eq_false_iff.mpr fun isVariable => ?_
  rw [Node.isLocalVariable, Bool.and_eq_true, beq_iff_eq, beq_iff_eq, length_joined base differ more] at isVariable
  have short := List.length_pos_iff.mpr (some_ isVariable.1)
  omega

/-- A node that a transition ends at stands for no property, and one that it starts from only for
an input. -/
theorem stands_joined_iff (bearing : Bearing n) (differ : start ≠ finish) :
    Asset.standsFor kind (joined base start finish n) name = true ↔
      Asset.standsFor kind n name = true ∧ n.id ≠ finish ∧ (n.id = start → kind = .input) := by
  by_cases apart : n.id ≠ start ∧ n.id ≠ finish
  · rw [← sameFrame_stands (joined_apart apart.1 apart.2)]
    simp [apart.1, apart.2]
  · cases kind with
    | input =>
      rw [stands_input, stands_input]
      change n.category = _ ∧ n.inputs ++ _ = [] ∧ (n.outputs ++ _).head?.map Pin.name = _ ↔ _
      by_cases category : n.category = PropertyKind.input.token
      · obtain ⟨p, ps, outputs⟩ := List.exists_cons_of_ne_nil (bearing.input category)
        by_cases there : n.id = finish <;> simp [category, outputs, there]
      · simp [category]
    | output =>
      refine iff_of_false (fun stands => ?_) fun stands => bearing.noOutput (stands_category stands.1)
      exact bearing.noOutput (stands_category (n := joined base start finish n) stands)
    | localVariable =>
      refine iff_of_false (fun stands => ?_) fun ⟨_, there, only⟩ => apart ⟨fun here => ?_, there⟩
      · have plain := joined_plain base bearing.relay differ (by tauto)
        rw [(variableName_eq_some.mp (stands_variable.mp stands)).1] at plain
        cases plain
      · cases only here

theorem heir_joined (bearing : Bearing n) (differ : start ≠ finish) :
    Heir (fun _ name => name) n (joined base start finish n) := by
  by_cases apart : n.id ≠ start ∧ n.id ≠ finish
  · exact heir_sameFrame (heir_refl bearing) (sameFrame_symm (joined_apart apart.1 apart.2))
  · have plain := joined_plain base bearing.relay differ (by tauto)
    refine ⟨rfl, ⟨bearing.noOutput, fun input none => ?_, fun relay none => ?_⟩, fun kind name stands => ?_,
      fun sets => ?_⟩
    · exact bearing.input input (List.append_eq_nil_iff.mp none).1
    · have longer := length_joined base differ (by tauto : n.id = start ∨ n.id = finish)
      rw [none] at longer
      cases longer
    · exact ⟨name, ((stands_joined_iff bearing differ).mp stands).1, rfl⟩
    · rw [Node.isSetter, plain] at sets
      cases sets

theorem stands_mapPins {f : Pin → Pin} (names : ∀ p, (f p).name = p.name) :
    Asset.standsFor kind (n.mapPins f) name = Asset.standsFor kind n name := by
  have heads (ps : List Pin) :
      (ps.map f).head?.any (fun p => p.name == name) = ps.head?.any fun p => p.name == name := by
    cases ps with
    | nil => rfl
    | cons p ps => simp [names]
  have bare (ps : List Pin) : (ps.map f).isEmpty = ps.isEmpty := List.isEmpty_map
  have category : (n.mapPins f).category = n.category := rfl
  rw [Asset.standsFor, Asset.standsFor, category]
  congr 1
  cases kind with
  | input =>
    rw [Asset.propertyPin?, Asset.propertyPin?, show (n.mapPins f).inputs.isEmpty = n.inputs.isEmpty from bare _]
    split
    · exact heads n.outputs
    · rfl
  | output =>
    rw [Asset.propertyPin?, Asset.propertyPin?, show (n.mapPins f).outputs.isEmpty = n.outputs.isEmpty from bare _]
    split
    · exact heads n.inputs
    · rfl
  | localVariable =>
    rw [Asset.propertyPin?, Asset.propertyPin?, isLocalVariable_mapPins]
    split
    · rw [pins_mapPins]
      exact heads n.pins
    · rfl

theorem bearing_mapPins {f : Pin → Pin} (bearing : Bearing n) : Bearing (n.mapPins f) := by
  refine ⟨bearing.noOutput, fun input none => ?_, fun relay none => ?_⟩
  · exact bearing.input input (List.map_eq_nil_iff.mp none)
  · rw [pins_mapPins] at none
    exact bearing.relay relay (List.map_eq_nil_iff.mp none)

theorem stands_retagged : Asset.standsFor kind (retagged old v n) name = Asset.standsFor kind n name :=
  stands_mapPins (n := n) (f := fun p => if p.name = old then p.retag v else p) fun p => by split <;> rfl

theorem heir_retagged (bearing : Bearing n) :
    Heir (fun _ name => name) n (forProperty kind old (retagged old v) n) := by
  rw [forProperty]
  split
  · have typed := bearing_mapPins (f := fun p => if p.name = old then p.retag v else p) bearing
    exact ⟨rfl, ⟨typed.noOutput, typed.input, typed.relay⟩, fun _ name stands => ⟨name, stands_retagged ▸ stands, rfl⟩,
      fun sets => (isSetter_mapPins _ n).symm.trans sets⟩
  · exact heir_refl bearing

/-- A node that stands for a property stands for it by the new name. -/
theorem stands_renamed (stands : Asset.standsFor kind n old = true) :
    Asset.standsFor kind (renamed kind old fresh n) fresh = true := by
  cases kind with
  | input =>
    obtain ⟨category, bare, named⟩ := stands_input.mp stands
    refine stands_input.mpr ⟨category, List.map_eq_nil_iff.mpr bare, ?_⟩
    obtain ⟨p, heads, same⟩ := Option.map_eq_some_iff.mp named
    change ((n.outputs.map _).head?.map Pin.name) = some fresh
    rw [List.head?_map, heads, Option.map_some, Option.map_some, if_pos same]
  | output =>
    rw [Asset.standsFor, Bool.and_eq_true] at stands ⊢
    refine ⟨stands.1, ?_⟩
    have bare : (renamed .output old fresh n).outputs.isEmpty = n.outputs.isEmpty := List.isEmpty_map
    rw [Asset.propertyPin?] at stands ⊢
    rw [bare]
    split at stands
    · rename_i none
      obtain ⟨p, heads, same⟩ := (Option.any_eq_true _ _).mp stands.2
      rw [if_pos none]
      change (n.inputs.map _).head?.any _ = true
      rw [List.head?_map, heads, Option.map_some, if_pos (beq_iff_eq.mp same)]
      exact beq_self_eq_true fresh
    · simp at stands
  | localVariable =>
    obtain ⟨isVariable, named⟩ := variableName_eq_some.mp (stands_variable.mp stands)
    refine stands_variable.mpr (variableName_eq_some.mpr ⟨(isLocalVariable_mapPins _ n).trans isVariable, ?_⟩)
    obtain ⟨p, heads, same⟩ := Option.map_eq_some_iff.mp named
    change ((n.mapPins _).pins.head?.map Pin.name) = some fresh
    rw [pins_mapPins, List.head?_map, heads, Option.map_some, Option.map_some, if_pos same]

/-- The names of properties after one of them has got another name. -/
def renamedProperty (kind : PropertyKind) (old fresh : String) (other : PropertyKind) (name : String) : String :=
  if other = kind ∧ name = old then fresh else name

theorem heir_renamed (bearing : Bearing n) :
    Heir (renamedProperty kind old fresh) n (forProperty kind old (renamed kind old fresh) n) := by
  rw [forProperty]
  split
  · rename_i here
    have typed := bearing_mapPins (f := fun p => if p.name = old then { p with name := fresh } else p) bearing
    have category : (renamed kind old fresh n).category = n.category := by
      rw [renamed]
      split <;> rfl
    refine ⟨?_, ?_, fun other name stands => ?_, ?_⟩
    · rw [renamed]
      split <;> rfl
    · rw [renamed]
      split
      · exact ⟨typed.noOutput, typed.input, typed.relay⟩
      · exact typed
    · obtain rfl : other = kind := token_injective
        ((stands_category stands).symm.trans (category.trans (stands_category here)))
      exact ⟨old, here, (if_pos ⟨rfl, rfl⟩).trans (stands_unique (stands_renamed here) stands)⟩
    · rw [renamed]
      split <;> exact fun sets => (isSetter_mapPins _ n).symm.trans sets
  · rename_i there
    refine ⟨rfl, bearing, fun other name stands => ⟨name, stands, if_neg ?_⟩, fun sets => sets⟩
    rintro ⟨rfl, rfl⟩
    exact there stands

/-! ## Registered properties -/

/-- What always holds of the nodes of properties. -/
structure Registered (e : Editor) : Prop where
  bearing : ∀ owner, ∀ n ∈ (graphOf e.asset owner).nodes, Bearing n
  known : ∀ owner, ∀ n ∈ (graphOf e.asset owner).nodes, ∀ kind name, Asset.standsFor kind n name = true →
    name ∈ (e.asset.properties kind).keys
  setters : ∀ owner, OneSetter (graphOf e.asset owner)

theorem setter_name (sets : n.isSetter = true) :
    ∃ name, n.variableName? = some name ∧ Asset.standsFor .localVariable n name = true := by
  obtain ⟨name, named⟩ := setter_named sets
  exact ⟨name, named, stands_variable.mpr named⟩

/-- It stays so if nodes of properties are heirs of others and the names that are left are
those of properties. -/
theorem registered_of_heirs (rename : PropertyKind → String → String) (registered : Registered e)
    (each : ∀ owner, ∀ m ∈ (graphOf f.asset owner).nodes,
      Foreign m ∨ ∃ n ∈ (graphOf e.asset owner).nodes, Heir rename n m)
    (keys : ∀ kind, ∀ before ∈ (e.asset.properties kind).keys,
      (∃ owner, ∃ m ∈ (graphOf f.asset owner).nodes, Asset.standsFor kind m (rename kind before) = true) →
        rename kind before ∈ (f.asset.properties kind).keys)
    (apart : ∀ x ∈ (e.asset.properties .localVariable).keys, ∀ y ∈ (e.asset.properties .localVariable).keys,
      rename .localVariable x = rename .localVariable y → x = y) : Registered f := by
  refine ⟨fun owner m inside => ?_, fun owner m inside kind name stands => ?_,
    fun owner m inM n inN setsM setsN same => ?_⟩
  · rcases each owner m inside with foreign | ⟨n, -, heir⟩
    · exact bearing_foreign foreign
    · exact heir.bearing
  · rcases each owner m inside with foreign | ⟨n, member, heir⟩
    · exact absurd foreign (stands_native stands)
    · obtain ⟨before, stood, rfl⟩ := heir.stands kind name stands
      exact keys kind before (registered.known owner n member kind before stood) ⟨owner, m, inside, stands⟩
  · obtain ⟨name, namedM, standsM⟩ := setter_name setsM
    have standsN : Asset.standsFor .localVariable n name = true := stands_variable.mpr (same ▸ namedM)
    obtain ⟨x, inX, heirX⟩ := (each owner m inM).resolve_left fun foreign => stands_native standsM foreign
    obtain ⟨y, inY, heirY⟩ := (each owner n inN).resolve_left fun foreign => stands_native standsN foreign
    obtain ⟨first, stoodX, toX⟩ := heirX.stands _ _ standsM
    obtain ⟨second, stoodY, toY⟩ := heirY.stands _ _ standsN
    have equal : first = second := apart first (registered.known owner x inX _ _ stoodX) second
      (registered.known owner y inY _ _ stoodY) (toX.trans toY.symm)
    have together := registered.setters owner x inX y inY (heirX.sets setsM) (heirY.sets setsN)
      ((stands_variable.mp stoodX).trans (equal ▸ (stands_variable.mp stoodY).symm))
    exact heirX.id.trans (together.trans heirY.id.symm)

/-- Nodes that are changed one by one, each of them keeping its name, or taken away. -/
theorem registered_turned {turn : Node → Node} (registered : Registered e) (stems : Stems turn e f)
    (heirs : ∀ owner, ∀ n ∈ (graphOf e.asset owner).nodes, Heir (fun _ name => name) n (turn n))
    (keys : ∀ kind, ∀ name ∈ (e.asset.properties kind).keys,
      (∃ owner, ∃ m ∈ (graphOf f.asset owner).nodes, Asset.standsFor kind m name = true) →
        name ∈ (f.asset.properties kind).keys) : Registered f := by
  refine registered_of_heirs (fun _ name => name) registered (fun owner m inside => ?_) keys fun x _ y _ same => same
  exact (stems owner m inside).imp_right fun ⟨n, member, same⟩ => ⟨n, member, heir_sameFrame (heirs owner n member) same⟩

/-- Nodes that are left as they are, or taken away. -/
theorem registered_stems (registered : Registered e) (stems : Stems id e f)
    (keys : ∀ kind, ∀ name ∈ (e.asset.properties kind).keys,
      (∃ owner, ∃ m ∈ (graphOf f.asset owner).nodes, Asset.standsFor kind m name = true) →
        name ∈ (f.asset.properties kind).keys) : Registered f :=
  registered_turned registered stems (fun owner n member => heir_refl (registered.bearing owner n member)) keys

/-- A new node stands for a property that exists, and no other one sets the variable if it does. -/
theorem registered_gains (registered : Registered e) (gains : Gains e f owner new) (made : Fresh kind name v new)
    (some_ : kind ≠ .output) (known : name ∈ (e.asset.properties kind).keys)
    (same : f.asset.properties = e.asset.properties)
    (unset : new.isSetter = true →
      ∀ k ∈ (graphOf e.asset owner).nodes, k.isSetter = true → k.variableName? ≠ some name) : Registered f := by
  have category := stands_category made.stands
  have bearing : Bearing new := by
    obtain ⟨p, single, -⟩ := made.single
    refine ⟨fun output => some_ (token_injective (category.symm.trans output)), fun input none => ?_, fun _ none => ?_⟩
    · obtain rfl := token_injective (category.symm.trans input)
      obtain ⟨-, -, named⟩ := stands_input.mp made.stands
      rw [none] at named
      cases named
    · rw [single] at none
      cases none
  refine ⟨fun self m inside => ?_, fun self m inside other key stands => ?_,
    fun self m inM n inN setsM setsN equal => ?_⟩
  · rcases gains self m inside with foreign | ⟨n, member, frames⟩ | ⟨-, frames⟩
    · exact bearing_foreign foreign
    · exact bearing_sameFrame (registered.bearing self n member) frames
    · exact bearing_sameFrame bearing frames
  · rw [same]
    rcases gains self m inside with foreign | ⟨n, member, frames⟩ | ⟨-, frames⟩
    · exact absurd foreign (stands_native stands)
    · exact registered.known self n member other key (sameFrame_stands frames ▸ stands)
    · have also := sameFrame_fresh frames made
      obtain rfl := token_injective ((stands_category stands).symm.trans (stands_category also.stands))
      rwa [stands_unique stands also.stands]
  · -- Two old setters are one; an old one and the new one set different variables.
    have clash {x y : Node} (old : x ∈ (graphOf e.asset owner).nodes) (setsX : x.isSetter = true)
        (setsY : y.isSetter = true) (framesY : SameFrame new y) (named : x.variableName? = y.variableName?) :
        False := by
      have setsNew : new.isSetter = true := sameFrame_isSetter framesY ▸ setsY
      obtain ⟨key, reads, stands⟩ := setter_name setsNew
      have relay := token_injective (category.symm.trans (stands_category stands))
      subst relay
      have key_ := stands_unique stands made.stands
      refine unset setsNew x old setsX ?_
      rw [named, sameFrame_variableName framesY, reads, key_]
    rcases gains self m inM with foreign | ⟨x, inX, framesX⟩ | ⟨hereM, framesM⟩
    · exact absurd foreign (stands_native (setter_name setsM).choose_spec.2)
    · rcases gains self n inN with foreign | ⟨y, inY, framesY⟩ | ⟨hereN, framesN⟩
      · exact absurd foreign (stands_native (setter_name setsN).choose_spec.2)
      · have together := registered.setters self x inX y inY (sameFrame_isSetter framesX ▸ setsM)
          (sameFrame_isSetter framesY ▸ setsN)
          (by rw [← sameFrame_variableName framesX, equal, sameFrame_variableName framesY])
        exact framesX.id.trans (together.trans framesY.id.symm)
      · exact (clash (hereN ▸ inX) (sameFrame_isSetter framesX ▸ setsM) setsN framesN
          (by rw [← sameFrame_variableName framesX, equal])).elim
    · rcases gains self n inN with foreign | ⟨y, inY, framesY⟩ | ⟨hereN, framesN⟩
      · exact absurd foreign (stands_native (setter_name setsN).choose_spec.2)
      · exact (clash (hereM ▸ inY) (sameFrame_isSetter framesY ▸ setsN) setsM framesM
          (by rw [← sameFrame_variableName framesY, equal])).elim
      · exact framesM.id.trans framesN.id.symm

/-! ## All edits -/

/-- No node is left that stands for a property that is removed. -/
theorem removed_gone (coherent : Coherent none e) (accepted : (e.removeProperty kind name).2 = true)
    (member : m ∈ (graphOf (e.removeProperty kind name).1.asset owner).nodes) :
    Asset.standsFor kind m name = false := by
  rw [removeProperty] at accepted member
  split at accepted
  · rename_i present
    rw [if_pos present] at member
    have firm := coherent_eraseProperty coherent kind name
    refine Bool.eq_false_iff.mpr fun stands => ?_
    obtain ⟨n, before, same⟩ := (removeAll_sheds firm _).nodes owner m member
    have stood : Asset.standsFor kind n name = true := sameFrame_stands same ▸ stands
    obtain ⟨ids, listed, named⟩ := propertyNodes_listed before stood
    exact removeAll_gone firm listed m member (same.id.symm ▸ named)
  · cases accepted

theorem registered_same (registered : Registered e) (same : f.asset = e.asset) : Registered f := by
  refine ⟨?_, ?_, ?_⟩ <;> rw [same]
  · exact registered.bearing
  · exact registered.known
  · exact registered.setters

theorem registered_renameProperty (coherent : Coherent none e) (registered : Registered e) (kind : PropertyKind)
    (old fresh : String) : Registered (e.renameProperty kind old fresh).1 := by
  by_cases same : old = fresh
  · rw [Editor.renameProperty, if_pos same]
    exact registered
  · cases accepted : (e.renameProperty kind old fresh).2 with
    | false =>
      rw [renameProperty_refused accepted]
      exact registered
    | true =>
      have free : fresh ∉ (e.asset.properties kind).keys :=
        (valid_iff.mp ((renameProperty_accepted same).mp accepted).1).2.1
      refine registered_of_heirs (renamedProperty kind old fresh) registered (fun owner m inside => ?_)
        (fun other before known _ => ?_) fun x inX y inY equal => ?_
      · rw [renamed_renameProperty coherent same accepted] at inside
        obtain ⟨n, member, rfl⟩ := List.mem_map.mp inside
        exact .inr ⟨n, member, heir_renamed (registered.bearing owner n member)⟩
      · rw [mem_keys_renameProperty same accepted, renamedProperty]
        by_cases here : kind = other
        · subst here
          by_cases named : before = old
          · simp [named]
          · simp [named, known]
        · rw [if_neg here, if_neg fun both => here both.1.symm]
          exact known
      · simp only [renamedProperty] at equal
        by_cases here : PropertyKind.localVariable = kind
        · subst here
          by_cases first : x = old <;> by_cases second : y = old <;> simp_all
        · simpa [here] using equal

theorem registered_changePropertyType (coherent : Coherent none e) (registered : Registered e) (kind : PropertyKind)
    (name : String) (v : Value) : Registered (e.changePropertyType kind name v).1 := by
  cases accepted : (e.changePropertyType kind name v).2 with
  | false => exact registered_same registered (rejected_changePropertyType accepted).1
  | true =>
    exact registered_turned registered (stems_changePropertyType coherent accepted)
      (fun owner n member => heir_retagged (registered.bearing owner n member))
      fun other key known _ => (mem_keys_changePropertyType v).mpr known

theorem registered_createTransition (coherent : Coherent none e) (registered : Registered e) (start finish : NodeId) :
    Registered (e.createTransition start finish).1 := by
  cases accepted : (e.createTransition start finish).2.isSome with
  | false => exact registered_same registered (rejected_createTransition coherent start finish accepted).1
  | true =>
    obtain ⟨base, stems, -⟩ := joined_createTransition coherent accepted
    obtain ⟨_, _, _, _, _, _, joining⟩ := createTransition_accepted accepted
    refine registered_turned registered stems
      (fun owner n member => heir_joined (registered.bearing owner n member) joining.differ) fun other key known _ => ?_
    rwa [createTransition_properties e start finish]

/-- Whatever is done, nodes stand for properties that exist. -/
theorem registered_apply (coherent : Coherent none e) (registered : Registered e) (edit : Edit) :
    Registered (edit.apply e) := by
  cases edit with
  | renameProperty kind old fresh => exact registered_renameProperty coherent registered kind old fresh
  | changePropertyType kind name v => exact registered_changePropertyType coherent registered kind name v
  | createTransition start finish => exact registered_createTransition coherent registered start finish
  | spawnInput name =>
    rcases spawnInput_gains e name with same | ⟨v, new, found, made, gains⟩
    · rw [Edit.apply, same]
      exact registered
    · refine registered_gains registered gains made (by decide) (get_mem_keys found) (spawnInput_properties e name) ?_
      intro sets
      have relay := stands_category (setter_name sets).choose_spec.2
      exact absurd ((stands_category made.stands).symm.trans relay) (by decide)
  | spawnLocalVariable name getter =>
    rcases spawnLocalVariable_gains e name getter with same | ⟨v, new, found, made, -, gains, unset⟩
    · rw [Edit.apply, same]
      exact registered
    · exact registered_gains registered gains made (by decide) (get_mem_keys found)
        (spawnLocalVariable_properties e name getter) unset
  | removeProperty kind name =>
    refine registered_stems registered (stems_apply coherent _ rfl) fun other key known some_ => ?_
    obtain ⟨owner, m, inside, stands⟩ := some_
    refine mem_keys_removeProperty.mpr ⟨known, ?_⟩
    rintro ⟨rfl, rfl⟩
    cases accepted : (e.removeProperty kind key).2 with
    | true =>
      rw [removed_gone coherent accepted inside] at stands
      cases stands
    | false =>
      rw [removeProperty, if_pos (contains_iff.mpr known)] at accepted
      cases accepted
  | addProperty kind v =>
    exact registered_stems registered (stems_apply coherent _ rfl) fun other key known _ =>
      (mem_keys_addProperty v).mpr (.inl known)
  | setPropertyValue kind name v =>
    exact registered_stems registered (stems_apply coherent _ rfl) fun other key known _ =>
      (mem_keys_setPropertyValue v).mpr known
  | _ =>
    refine registered_stems registered (stems_apply coherent _ rfl) fun other key known _ => ?_
    rw [apply_properties rfl]
    exact known

theorem start_nodes (name : String) (self : NodeId) (catalog : Catalog) (settings : Settings) (drawn : Nat)
    (owner : NodeId) :
    (graphOf (Editor.ofAsset (.ofName name self) catalog settings (drawn + 1)).asset owner).nodes = [] := by
  refine List.eq_nil_iff_forall_not_mem.mpr fun n member => ?_
  obtain ⟨k, inside, -⟩ := (sheds_ensureEntries _).nodes owner n member
  change k ∈ (graphOf ((Asset.ofName name self).ensureGraph .root) owner).nodes at inside
  rw [graphOf_ensureGraph, graphOf_ofName] at inside
  cases inside

theorem registered_start (name : String) (self : NodeId) (catalog : Catalog) (settings : Settings) (drawn : Nat) :
    Registered (.ofAsset (.ofName name self) catalog settings (drawn + 1)) := by
  refine ⟨fun owner n member => ?_, fun owner n member => ?_, fun owner n member => ?_⟩ <;>
  · rw [start_nodes] at member
    cases member

theorem registered_reached (reached : Reached e) : Registered e := by
  induction reached with
  | start name self catalog settings drawn => exact registered_start name self catalog settings drawn
  | step before may ih => exact registered_apply (coherent_reachable before) ih _

end PoseGraph.StandingNodes
