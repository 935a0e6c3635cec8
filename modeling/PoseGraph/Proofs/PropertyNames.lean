import PoseGraph.Proofs.EditRuns
import PoseGraph.Proofs.PropertyKeys
import PoseGraph.Proofs.VariablePlugs

/-! The names of properties at run time. What a new name is checked against are the
other names without their spaces, but the runtime goes by the words that are made
of them, and the names of new properties are not checked at all. Two names that the
runtime takes for one come from there. -/
namespace PoseGraph.PropertyNames
open Editor EditRuns LoweringSemantics PlacingEdits PropertyEdits PropertyKeys VariablePlugs

variable {e f : Editor} {g : SubGraph} {edit : Edit} {edits : List Edit} {kind : PropertyKind} {ps : Properties}
variable {name new : String} {names more : List String} {plug : Endpoint}

/-- The names of the properties of a kind. -/
def namesOf (e : Editor) (kind : PropertyKind) : List String := (e.asset.properties kind).keys

/-! ## Names that the runtime tells apart -/

/-- The runtime has a word for each name, another one for each. -/
structure ToldApart (names : List String) : Prop where
  worded : ∀ name ∈ names, endpointName name ≠ ""
  apart : ∀ name ∈ names, ∀ other ∈ names, endpointName name = endpointName other → name = other

/-- The runtime has no word for a name, or the one of another name. -/
def Clash (names : List String) (name : String) : Prop :=
  endpointName name = "" ∨ ∃ other ∈ names, other ≠ name ∧ endpointName other = endpointName name

theorem toldApart_fewer (told : ToldApart names) (fewer : more ⊆ names) : ToldApart more :=
  ⟨fun name known => told.worded name (fewer known),
    fun name known other also => told.apart name (fewer known) other (fewer also)⟩

theorem toldApart_more (told : ToldApart names) (keys : ∀ key, key ∈ more ↔ key ∈ names ∨ key = new) :
    ToldApart more ↔ ¬Clash names new := by
  have known : new ∈ more := (keys new).mpr (.inr rfl)
  constructor
  · rintro after (empty | ⟨other, before, differs, same⟩)
    · exact after.worded new known empty
    · exact differs (after.apart other ((keys other).mpr (.inl before)) new known same)
  · intro free
    rw [Clash, not_or] at free
    obtain ⟨worded, others⟩ := free
    refine ⟨fun name inside => ?_, fun name inside other also same => ?_⟩
    · rcases (keys name).mp inside with before | rfl
      · exact told.worded name before
      · exact worded
    · rcases (keys name).mp inside with before | rfl
      · rcases (keys other).mp also with before' | rfl
        · exact told.apart name before other before' same
        · by_contra differs
          exact others ⟨name, before, differs, same⟩
      · rcases (keys other).mp also with before | rfl
        · by_contra differs
          exact others ⟨other, before, Ne.symm differs, same.symm⟩
        · rfl

/-- The runtime tells apart the properties of each kind. -/
def Distinguished (e : Editor) : Prop := ∀ kind, ToldApart (namesOf e kind)

/-- An edit gives a property a name that clashes with another one, or that means nothing. -/
def Clashes (e : Editor) : Edit → Prop
  | .addProperty kind _ => Clash (namesOf e kind) ((e.asset.properties kind).uniqueName kind.defaultName)
  | .renameProperty kind old new =>
    old ≠ new ∧ (e.renameProperty kind old new).2 = true ∧ Clash ((namesOf e kind).filter (· != old)) new
  | _ => False

theorem distinguished_same (before : Distinguished e) (same : f.asset.properties = e.asset.properties) : Distinguished f := by
  intro kind
  rw [namesOf, same]
  exact before kind

/-- Where the names of one kind change, it depends on them alone. -/
theorem distinguished_iff (kind : PropertyKind) (before : Distinguished e)
    (others : ∀ other, kind ≠ other → ∀ key, key ∈ namesOf f other ↔ key ∈ namesOf e other) :
    Distinguished f ↔ ToldApart (namesOf f kind) := by
  refine ⟨fun after => after kind, fun told other => ?_⟩
  by_cases same : kind = other
  · exact same ▸ told
  · exact toldApart_fewer (before other) fun key known => (others other same key).mp known

theorem distinguished_addProperty_iff (before : Distinguished e) (kind : PropertyKind) (v : Value) :
    Distinguished (e.addProperty kind v).1 ↔
      ¬Clash (namesOf e kind) ((e.asset.properties kind).uniqueName kind.defaultName) := by
  rw [distinguished_iff kind before fun other differs key => (mem_keys_addProperty v).trans (by simp [differs, namesOf])]
  exact toldApart_more (before kind) fun key => (mem_keys_addProperty v).trans (by simp [namesOf])

theorem distinguished_removeProperty (before : Distinguished e) (kind : PropertyKind) (name : String) :
    Distinguished (e.removeProperty kind name).1 :=
  fun other => toldApart_fewer (before other) fun _ known => (mem_keys_removeProperty.mp known).1

theorem distinguished_renameProperty_iff (before : Distinguished e) (kind : PropertyKind) (old new : String) :
    Distinguished (e.renameProperty kind old new).1 ↔ ¬(old ≠ new ∧ (e.renameProperty kind old new).2 = true ∧
      Clash ((namesOf e kind).filter (· != old)) new) := by
  by_cases different : old = new
  · rw [different, renameProperty, if_pos rfl]
    simpa using before
  · cases accepted : (e.renameProperty kind old new).2 with
    | false =>
      rw [renameProperty_refused accepted]
      simpa using before
    | true =>
      have keys (other : PropertyKind) (key : String) : key ∈ namesOf (e.renameProperty kind old new).1 other ↔
          if kind = other then key ∈ namesOf e other ∧ key ≠ old ∨ key = new else key ∈ namesOf e other :=
        mem_keys_renameProperty different accepted
      have rest : ToldApart ((namesOf e kind).filter (· != old)) :=
        toldApart_fewer (before kind) fun _ known => (List.mem_filter.mp known).1
      have told : ToldApart (namesOf (e.renameProperty kind old new).1 kind) ↔ ¬Clash ((namesOf e kind).filter (· != old)) new :=
        toldApart_more rest fun key => by simp [keys kind key]
      rw [distinguished_iff kind before fun other differs key => (keys other key).trans (by simp [differs]), told]
      simp [different]

/-- What an edit does to distinguished names. -/
theorem distinguished_apply_iff (before : Distinguished e) : Distinguished (edit.apply e) ↔ ¬Clashes e edit := by
  cases edit with
  | addProperty kind v => exact distinguished_addProperty_iff before kind v
  | removeProperty kind name => exact iff_of_true (distinguished_removeProperty before kind name) id
  | setPropertyValue kind name v =>
    exact iff_of_true (fun other => toldApart_fewer (before other) fun _ => (mem_keys_setPropertyValue v).mp) id
  | renameProperty kind old new => exact distinguished_renameProperty_iff before kind old new
  | changePropertyType kind name v =>
    exact iff_of_true (fun other => toldApart_fewer (before other) fun _ => (mem_keys_changePropertyType v).mp) id
  | _ => exact iff_of_true (distinguished_same before (apply_properties rfl)) id

/-- The names stay distinguished over a run exactly if no edit of it clashes. -/
theorem distinguished_run_iff (before : Distinguished e) : (∀ earlier, earlier <+: edits → Distinguished (earlier.foldl Edit.apply e)) ↔
    Run (fun e edit => ¬Clashes e edit) e edits :=
  holds_throughout_iff (fun _ => True) (fun _ _ _ _ => trivial) (fun _ _ _ _ told => distinguished_apply_iff told) trivial
    (run_any e edits) before

/-! ## What new names are checked for -/

/-- A name that new properties of a kind are given. -/
def Stock (kind : PropertyKind) (name : String) : Prop :=
  name = kind.defaultName ∨ ∃ k, name = Properties.suffixed kind.defaultName k

/-- Each name has something but white space, and names differ in more than spaces
unless one of them has been given, not chosen. -/
structure Checked (kind : PropertyKind) (names : List String) : Prop where
  filled : ∀ name ∈ names, Properties.isBlank name = false
  spaced : ∀ name ∈ names, ∀ other ∈ names, withoutSpaces name = withoutSpaces other →
    name = other ∨ Stock kind name ∨ Stock kind other

theorem uniqueName_stock (ps : Properties) (kind : PropertyKind) : Stock kind (ps.uniqueName kind.defaultName) := by
  rw [Properties.uniqueName]
  split
  · split
    · exact .inr ⟨_, rfl⟩
    · exact .inl rfl
  · exact .inl rfl

theorem stock_filled (stock : Stock kind name) : Properties.isBlank name = false := by
  have first : Properties.isBlank kind.defaultName = false := by cases kind <;> decide +kernel
  rcases stock with rfl | ⟨k, rfl⟩
  · exact first
  · rw [Properties.isBlank] at first ⊢
    rw [Properties.suffixed, String.toList_append, String.toList_append, List.all_append, List.all_append, first]
    rfl

theorem checked_fewer (checked : Checked kind names) (fewer : more ⊆ names) : Checked kind more :=
  ⟨fun name known => checked.filled name (fewer known),
    fun name known other also => checked.spaced name (fewer known) other (fewer also)⟩

theorem checked_more (checked : Checked kind names) (keys : ∀ key, key ∈ more → key ∈ names ∨ key = new)
    (filled : Properties.isBlank new = false)
    (spaced : Stock kind new ∨ ∀ other ∈ names, withoutSpaces other ≠ withoutSpaces new) : Checked kind more := by
  refine ⟨fun name inside => ?_, fun name inside other also same => ?_⟩
  · rcases keys name inside with before | rfl
    · exact checked.filled name before
    · exact filled
  · rcases keys name inside with before | rfl
    · rcases keys other also with before' | rfl
      · exact checked.spaced name before other before' same
      · exact spaced.elim (fun stock => .inr (.inr stock)) fun differ => absurd same (differ name before)
    · rcases keys other also with before | rfl
      · exact spaced.elim (fun stock => .inr (.inl stock)) fun differ => absurd same.symm (differ other before)
      · exact .inl rfl

theorem checked_apply (checked : ∀ kind, Checked kind (namesOf e kind)) (edit : Edit) (kind : PropertyKind) :
    Checked kind (namesOf (edit.apply e) kind) := by
  cases edit with
  | addProperty own v =>
    by_cases same : own = kind
    · subst same
      have stock := uniqueName_stock (e.asset.properties own) own
      exact checked_more (checked own) (fun key inside => ((mem_keys_addProperty v).mp inside).imp_right And.right)
        (stock_filled stock) (.inl stock)
    · exact checked_fewer (checked kind) fun key inside =>
        ((mem_keys_addProperty v).mp inside).resolve_right fun new => same new.1
  | removeProperty own name => exact checked_fewer (checked kind) fun _ known => (mem_keys_removeProperty.mp known).1
  | setPropertyValue own name v => exact checked_fewer (checked kind) fun _ => (mem_keys_setPropertyValue v).mp
  | renameProperty own old new =>
    by_cases different : old = new
    · rw [Edit.apply, different, renameProperty, if_pos rfl]
      exact checked kind
    · cases accepted : (e.renameProperty own old new).2 with
      | false =>
        rw [Edit.apply, renameProperty_refused accepted]
        exact checked kind
      | true =>
        have keys (key : String) : key ∈ namesOf (e.renameProperty own old new).1 kind ↔
            if own = kind then key ∈ namesOf e kind ∧ key ≠ old ∨ key = new else key ∈ namesOf e kind :=
          mem_keys_renameProperty different accepted
        by_cases same : own = kind
        · subst same
          obtain ⟨filled, -, differ, -⟩ := valid_iff.mp ((renameProperty_accepted different).mp accepted).1
          refine checked_more (checked own) (fun key inside => ?_) filled (.inr differ)
          exact (by simpa using (keys key).mp inside : _ ∨ _).imp_left And.left
        · exact checked_fewer (checked kind) fun key inside => by simpa [same] using (keys key).mp inside
  | changePropertyType own name v => exact checked_fewer (checked kind) fun _ => (mem_keys_changePropertyType v).mp
  | _ =>
    rw [namesOf, apply_properties rfl]
    exact checked kind

/-- The runtime knows a property by its name, apart from spaces. -/
def Verbatim (name : String) : Prop := endpointName name = withoutSpaces name

theorem filled_spaced (filled : Properties.isBlank name = false) : withoutSpaces name ≠ "" := by
  intro empty
  obtain ⟨c, inside, dark⟩ := List.all_eq_false.mp filled
  have space : c = ' ' := by
    have gone : c ∉ name.toList.filter (· != ' ') := by
      rw [String.ofList_eq_empty_iff.mp empty]
      exact List.not_mem_nil
    simpa [inside] using gone
  subst space
  exact dark (by decide +kernel)

/-- Names that the runtime takes over clash with none that do, given names apart. -/
theorem verbatim_apart (checked : Checked kind names) : ∀ name ∈ names, Verbatim name → endpointName name ≠ "" ∧
    ∀ other ∈ names, Verbatim other → endpointName name = endpointName other →
      name = other ∨ Stock kind name ∨ Stock kind other := by
  intro name known own
  refine ⟨own ▸ filled_spaced (checked.filled name known), fun other also foreign same => ?_⟩
  exact checked.spaced name known other also (own.symm.trans (same.trans foreign))

/-! ## What becomes of the names -/

/-- The hash confuses no two words. -/
def Hashed (names : List String) : Prop :=
  ∀ name ∈ names, ∀ other ∈ names, Identifier.ofProperty name = .ofProperty other → endpointName name = endpointName other

theorem inputs_nodup (told : ToldApart (namesOf e .input)) (hashed : Hashed (namesOf e .input)) :
    (e.lowerInputs.map Endpoint.id).Nodup := by
  have ids : e.lowerInputs.map Endpoint.id = (namesOf e .input).map Identifier.ofProperty := by
    rw [lowerInputs, namesOf, Table.keys, List.map_map, List.map_map]
    rfl
  rw [ids]
  exact List.Nodup.map_on (fun name known other also same => told.apart name known other also (hashed name known other also same))
    e.asset.inputs.nodup

/-- A literal of a graph is that of one of its variables. -/
theorem plug_stems (member : plug ∈ e.lowerVariables g) : ∃ n ∈ g.nodes, ∃ name v, n.variableName? = some name ∧
    e.variableLiteral? g n name = some v ∧ plug = ⟨.ofProperty name, e.toRuntime v⟩ := by
  have fold (literals : List (String × Value)) (plugs : List Endpoint) (inside : plug ∈ literals.foldl (addPlug e) plugs) :
      plug ∈ plugs ∨ ∃ named ∈ literals, plug = ⟨.ofProperty named.1, e.toRuntime named.2⟩ := by
    induction literals generalizing plugs with
    | nil => exact .inl inside
    | cons named literals ih =>
      rcases ih _ inside with added | ⟨later, listed, same⟩
      · rw [addPlug] at added
        split at added
        · exact .inl added
        · rcases List.mem_append.mp added with before | new
          · exact .inl before
          · exact .inr ⟨named, List.mem_cons_self, List.mem_singleton.mp new⟩
      · exact .inr ⟨later, List.mem_cons_of_mem _ listed, same⟩
  rw [lowerVariables_eq] at member
  obtain ⟨⟨name, v⟩, listed, same⟩ := (fold _ _ member).resolve_left List.not_mem_nil
  obtain ⟨n, inside, found⟩ := List.mem_filterMap.mp listed
  obtain ⟨_, named, literal⟩ := Option.bind_eq_some_iff.mp found
  obtain ⟨_, literal, pair⟩ := Option.map_eq_some_iff.mp literal
  cases pair
  exact ⟨n, inside, name, v, named, literal, same⟩

/-- No variable loses its literal to another one. -/
theorem own_plug (told : ToldApart names) (hashed : Hashed names)
    (declared : ∀ n ∈ g.nodes, ∀ name, n.variableName? = some name → name ∈ names) (supplies : Supplies e g name) :
    ∃ n ∈ g.nodes, ∃ v, n.variableName? = some name ∧ e.variableLiteral? g n name = some v ∧
      ⟨.ofProperty name, e.toRuntime v⟩ ∈ e.lowerVariables g := by
  have known : name ∈ names := by
    rcases supplies with ⟨s, member, -, named, -⟩ | ⟨⟨n, member, named⟩, -⟩
    · exact declared s member name named
    · exact declared n member name named
  obtain ⟨plug, member, same⟩ := plug_iff.mpr ⟨name, rfl, supplies⟩
  obtain ⟨n, inside, other, v, named, literal, rfl⟩ := plug_stems member
  have also := declared n inside other named
  obtain rfl := told.apart other also name known (hashed other also name known same)
  exact ⟨n, inside, v, named, literal, member⟩

/-- Properties are told apart at run time throughout a run exactly if no edit of it adds
or renames one to a name that the runtime takes for that of another, or for none. Names
that the runtime takes over, apart from spaces, clash only with those given to new
properties. While all are told apart, and the hash tells their words apart, inputs get
identifiers of their own, and every variable of a graph keeps its own literal. -/
theorem endpoints_distinguished_exact (label : String) (self : NodeId) (catalog : Catalog) (settings : Settings)
    (drawn : Nat) (edits : List Edit) :
    let start := Editor.ofAsset (.ofName label self) catalog settings (drawn + 1)
    let e := edits.foldl Edit.apply start
    ((∀ earlier, earlier <+: edits → Distinguished (earlier.foldl Edit.apply start)) ↔
      Run (fun e edit => ¬Clashes e edit) start edits) ∧
    (∀ kind, ∀ name ∈ namesOf e kind, Verbatim name → endpointName name ≠ "" ∧
      ∀ other ∈ namesOf e kind, Verbatim other → endpointName name = endpointName other →
        name = other ∨ Stock kind name ∨ Stock kind other) ∧
    (Distinguished e → (∀ kind, Hashed (namesOf e kind)) → (e.lowerInputs.map Endpoint.id).Nodup ∧
      ∀ g, (∀ n ∈ g.nodes, ∀ name, n.variableName? = some name → name ∈ namesOf e .localVariable) →
        ∀ name, Supplies e g name → ∃ n ∈ g.nodes, ∃ v, n.variableName? = some name ∧
          e.variableLiteral? g n name = some v ∧ ⟨.ofProperty name, e.toRuntime v⟩ ∈ e.lowerVariables g) := by
  intro start e
  have none (kind : PropertyKind) : namesOf start kind = [] := by
    rw [namesOf, show start.asset.properties = (Asset.ofName label self).properties from
      (ensureEntries_properties _).trans (ensureGraph_properties _ _)]
    cases kind <;> rfl
  have checked (kind : PropertyKind) : Checked kind (namesOf e kind) := by
    have run (edits : List Edit) (e : Editor) (before : ∀ kind, Checked kind (namesOf e kind)) :
        ∀ kind, Checked kind (namesOf (edits.foldl Edit.apply e) kind) := by
      induction edits generalizing e with
      | nil => exact before
      | cons edit edits ih => exact ih _ (checked_apply before edit)
    refine run edits start (fun kind => ?_) kind
    rw [none]
    exact ⟨fun _ known => (nomatch known), fun _ known => (nomatch known)⟩
  refine ⟨distinguished_run_iff fun kind => ?_, fun kind => verbatim_apart (checked kind), fun told hashed => ?_⟩
  · rw [none]
    exact ⟨fun _ known => (nomatch known), fun _ known => (nomatch known)⟩
  · exact ⟨inputs_nodup (told .input) (hashed .input), fun g declared name supplies =>
      own_plug (told .localVariable) (hashed .localVariable) declared supplies⟩

/-- Two inputs are named, the first one with a dot and the second one with a comma. -/
def dotted : List Edit :=
  [.addProperty .input (.int64 0), .renameProperty .input "New Input" "a.b", .addProperty .input (.int64 1),
    .renameProperty .input "New Input" "a,b"]

/-- The runtime takes them for one. -/
theorem dotted_inputs_clash : ∃ earlier, earlier <+: dotted ∧
    ¬Distinguished (earlier.foldl Edit.apply (.ofAsset (.ofName "Wave" ⟨1⟩) .empty .default 1)) := by
  let first := (dotted.take 2).foldl Edit.apply (.ofAsset (.ofName "Wave" ⟨1⟩) .empty .default 1)
  let e := (first.addProperty .input (.int64 1)).1
  have one : namesOf first .input = ["a.b"] := by decide +kernel
  have fresh : (first.asset.properties .input).uniqueName "New Input" = "New Input" := by decide +kernel
  have names (key : String) : key ∈ namesOf e .input ↔ key = "a.b" ∨ key = "New Input" := by
    refine (mem_keys_addProperty _).trans ?_
    rw [← namesOf, one, PropertyKind.defaultName, fresh]
    simp
  have valid : e.isPropertyNameValid .input "a,b" = true := by
    refine valid_iff.mpr ⟨by decide +kernel, ?_, ?_, by decide +kernel⟩
    · rw [← namesOf, names]
      decide
    · intro other known
      rcases (names other).mp known with rfl | rfl <;> decide +kernel
  have accepted := (renameProperty_accepted (e := e) (by decide)).mpr ⟨valid, (names "New Input").mpr (.inr rfl)⟩
  have clashes : Clashes e (.renameProperty .input "New Input" "a,b") := by
    refine ⟨by decide, accepted, .inr ⟨"a.b", ?_, by decide, by decide +kernel⟩⟩
    exact List.mem_filter.mpr ⟨(names "a.b").mpr (.inl rfl), by decide⟩
  by_contra always
  rw [not_exists] at always
  have run := (endpoints_distinguished_exact "Wave" ⟨1⟩ .empty .default 0 dotted).1.mp fun earlier first =>
    not_not.mp fun told => always earlier ⟨first, told⟩
  exact run.2.2.2.1 clashes

end PoseGraph.PropertyNames
