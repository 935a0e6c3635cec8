import PoseGraph.Proofs.LinkInvariant
import PoseGraph.Proofs.Nesting
import PoseGraph.Proofs.SupplyEdits

/-! Operations keep the inputs of all graphs supplied. A link that is made empties the
input that it ends in, and the others into it give way to it. Nodes come with literals in
their inputs, and no link outlasts the nodes at its ends. -/
namespace PoseGraph.EditorSupply
open AssetOrder EditOutcomes Editor EditorCoherence GraphDependencies GraphWiring InputSupply LinkEdits LinkInvariant LinkingEdits
  NamingEdits Nesting NodeCraft NodeEdits NodeFrames PropertyEdits PropertyKeys Rearrangement SheddingEdits StateEdits SupplyEdits Validity

variable {e f k : Editor} {g h : SubGraph} {l : Link} {n m quick state : Node} {p q : Pin} {owner id start finish transition : NodeId}
variable {clips : Prop} {except : Option PinId} {spared : Option NodeId} {dead : List Link} {ids doomed : List NodeId}
variable {first second : PinId} {change : SubGraph → SubGraph} {kind : GraphKind} {category name : String} {v : Value}

/-- The inputs of all graphs are supplied. -/
def Provided (clips : Prop) (e : Editor) : Prop := ∀ owner g, e.asset.graph? owner = some g → Supplied clips none g

theorem provided_grant (provided : Provided clips e) : Provided True e :=
  fun owner g held => supplied_grant (provided owner g held)

theorem provided_of_graphs (provided : Provided clips e) (graphs : f.asset.graphs = e.asset.graphs) : Provided clips f := by
  intro owner g held
  rw [Asset.graph?, graphs] at held
  exact provided owner g held

theorem provided_within (provided : Provided clips e) (within : Within owner e f)
    (here : ∀ h, f.asset.graph? owner = some h → Supplied clips none h) : Provided clips f := by
  intro id h found
  by_cases same : id = owner
  · exact here h (same ▸ found)
  · exact provided id h ((within.others id same).symm.trans found)

theorem provided_modifyGraph (provided : Provided clips e)
    (each : ∀ g, e.asset.graph? owner = some g → Supplied clips none (change g)) : Provided clips (e.modifyGraph owner change) := by
  refine provided_within provided (within_modifyGraph e change) fun h found => ?_
  rw [Editor.modifyGraph, modifyAsset, graph_modifyGraph, if_pos rfl] at found
  obtain ⟨g, held, rfl⟩ := Option.map_eq_some_iff.mp found
  exact each g held

/-! ## Links -/

/-- What becomes of literals when links come or go at some pins: at others they are as before,
unless these are pins of an output, which may be put to rest. -/
def Spared (g : SubGraph) (pins : List PinId) (p q : Pin) : Prop := p.id ∈ pins ∨ AtOutput g p.id ∨ q.value = p.value

theorem traced_spared (g : SubGraph) (pins : List PinId) : Traced (Spared g pins) g g :=
  traced_refl (fun _ => .inr (.inr rfl)) g

theorem supplied_dropLinksIn (coherent : Coherent spared e) (held : e.asset.graph? owner = some g)
    (supplied : Supplied clips except g) (listed : ∀ d ∈ dead, d ∈ g.links) :
    ∃ h, (e.dropLinksIn owner g dead).asset.graph? owner = some h ∧ Supplied clips except h ∧
      (∀ l, l ∈ h.links ↔ l ∈ g.links ∧ l ∉ dead) ∧ Traced (Spared g (dead.map Link.target)) g h := by
  have unique := identified_unique (identified_of_coherent coherent) held
  obtain ⟨dropped, left, reset⟩ := supplied_dropLinks (e.graphKind owner) supplied unique (links_distinct coherent held) listed
  have there (count : Nat) : ((e.spend count).modifyGraph owner fun g => g.dropLinks (e.palette owner) dead).asset.graph? owner =
      some (g.dropLinks (e.palette owner) dead) := graph_modifyGraph_self (e := e.spend count) held
  have spared : Traced (Spared g (dead.map Link.target)) g (g.dropLinks (e.palette owner) dead) :=
    traced_imp reset fun p q _ related => or_iff_not_imp_left.mpr fun other => .inr (related.1 other)
  rw [dropLinksIn, afterUnlink]
  split
  · refine ⟨_, graph_modifyGraph_self (e := Editor.invalidate _) (there _), supplied_restPose dropped, fun l => ?_, ?_⟩
    · rw [restPose_links]
      exact left l
    · refine traced_imp (traced_trans spared (traced_restPose _)) fun p q _ related => ?_
      obtain ⟨r, frames, before, after⟩ := related
      rcases before with doomed | out | same
      · exact .inl doomed
      · exact .inr (.inl out)
      · have ids : p.id = r.id := (congrArg Pin.id frames :)
        refine .inr (after.imp (fun out => ?_) fun still => still.trans same)
        rw [ids]
        exact atOutput_kept (kept_dropLinks g dead) out
  · exact ⟨_, there _, dropped, left, spared⟩

theorem supplied_removeLinksIn (coherent : Coherent spared e) (held : e.asset.graph? owner = some g)
    (supplied : Supplied clips except g) (ids : List LinkId) :
    ∃ h, (e.removeLinksIn owner ids).1.asset.graph? owner = some h ∧ Supplied clips except h ∧
      (∀ l, l ∈ h.links ↔ l ∈ g.links ∧ l.id ∉ ids) ∧
      Traced (Spared g ((g.links.filter fun l => ids.contains l.id).map Link.target)) g h := by
  have doomed (l : Link) : l ∈ g.links.filter (fun l => ids.contains l.id) ↔ l ∈ g.links ∧ l.id ∈ ids := by
    rw [List.mem_filter, List.contains_iff_mem]
  rw [removeLinksIn, held]
  dsimp only
  split
  · rename_i none
    refine ⟨g, held, supplied, fun l => ⟨fun link => ⟨link, fun listed => ?_⟩, And.left⟩, traced_spared g _⟩
    have gone := (doomed l).mpr ⟨link, listed⟩
    rw [List.isEmpty_iff.mp none] at gone
    cases gone
  · obtain ⟨h, found, after, left, spared⟩ := supplied_dropLinksIn coherent held supplied fun d dead => (List.mem_filter.mp dead).1
    refine ⟨h, found, after, fun l => (left l).trans (and_congr_right fun link => not_congr ((doomed l).trans ?_)), spared⟩
    exact and_iff_right link

theorem provided_removeLinksIn (coherent : Coherent spared e) (provided : Provided clips e) (owner : NodeId) (ids : List LinkId) :
    Provided clips (e.removeLinksIn owner ids).1 := by
  refine provided_within provided (within_removeLinksIn e owner ids) fun h found => ?_
  cases held : e.asset.graph? owner with
  | none =>
    rw [removeLinksIn, held] at found
    exact provided owner h found
  | some g =>
    obtain ⟨k, also, supplied, -, -⟩ := supplied_removeLinksIn coherent held (provided owner g held) ids
    cases also.symm.trans found
    exact supplied

/-- Where links give way to another one, that link stays, and its end stays void. -/
theorem supplied_displaceLinks (coherent : Coherent spared e) (held : e.asset.graph? owner = some g)
    (supplied : Supplied clips (some l.target) g) (link : l ∈ g.links)
    (void : ∀ n ∈ g.nodes, ∀ p ∈ n.inputs, p.id = l.target → p.value = .void) :
    ∃ h, (e.displaceLinks owner l.target l.id).asset.graph? owner = some h ∧ Supplied clips (some l.target) h ∧ l ∈ h.links ∧
      (∀ n ∈ h.nodes, ∀ p ∈ n.inputs, p.id = l.target → p.value = .void) ∧ Traced (Spared g [l.target]) g h := by
  rw [displaceLinks, held]
  dsimp only
  split
  · exact ⟨g, held, supplied, link, void, traced_spared g _⟩
  · obtain ⟨h, found, after, left, spared⟩ := supplied_removeLinksIn coherent held supplied
      ((g.links.filter fun x => x.target == l.target && x.id != l.id).map Link.id)
    have unique := identified_unique (identified_of_coherent (coherent_removeLinksIn coherent owner _)) found
    refine ⟨_, graph_modifyGraph_self found, supplied_withValue after (.inr rfl) (.inr rfl), (left l).mpr ⟨link, fun gone => ?_⟩,
      value_set unique l.target .void, ?_⟩
    · obtain ⟨x, displaced, same⟩ := List.mem_map.mp gone
      simp [same] at displaced
    · refine traced_imp (traced_trans spared (traced_withValue h l.target .void)) fun p q _ related => ?_
      obtain ⟨r, frames, before, after⟩ := related
      have ids : p.id = r.id := (congrArg Pin.id frames :)
      rcases after with same | ⟨here, -⟩
      · rcases before with doomed | rest
        · -- All links that give way end in the pin.
          obtain ⟨x, dead, ends⟩ := List.mem_map.mp doomed
          obtain ⟨inG, listed⟩ := List.mem_filter.mp dead
          obtain ⟨y, displaced, twin⟩ := List.mem_map.mp (List.contains_iff_mem.mp listed)
          obtain ⟨also, passes⟩ := List.mem_filter.mp displaced
          obtain rfl := List.inj_on_of_nodup_map (links_distinct coherent held) also inG twin
          rw [Bool.and_eq_true, beq_iff_eq] at passes
          exact .inl (List.mem_singleton.mpr (ends.symm.trans passes.1))
        · exact .inr (rest.imp_right same.trans)
      · exact .inl (List.mem_singleton.mpr (ids.trans here))

/-- Pins of different directions may be linked. Links that are new end in one of them. -/
theorem supplied_createLinkIn (coherent : Coherent spared e) (held : e.asset.graph? owner = some g) (supplied : Supplied clips none g)
    (kinds : ∀ p q, g.pin? first = some p → g.pin? second = some q → p.kind ≠ q.kind) :
    ∃ h, (e.createLinkIn owner first second).1.asset.graph? owner = some h ∧ Supplied clips none h ∧
      (∀ l ∈ h.links, l ∈ g.links ∨ l.target ∈ [first, second]) ∧ Traced (Spared g [first, second]) g h := by
  cases oriented : orientLink g first second with
  | none =>
    rw [createLinkIn, held, Option.bind_some, oriented]
    exact ⟨g, held, supplied, fun _ link => .inl link, traced_spared g _⟩
  | some ends =>
    obtain ⟨source, target, type⟩ := ends
    obtain ⟨p, q, start, finish⟩ := orient_pins oriented
    obtain ⟨x, y, -, ⟨m, inM, output⟩, outlet, ⟨n, inN, input⟩, inlet⟩ :=
      orient_sides (fun n member => (supplied.neat n member).bound) start finish (kinds p q start finish) oriented
    let l : Link := { id := ⟨e.nextId⟩, source, target, color := type.color }
    have added : Supplied clips (some l.target) (g.addLink l) :=
      supplied_addLink (supplied_exempt supplied _) ⟨m, inM, x, output, outlet⟩ ⟨n, inN, y, input, inlet⟩
    have there : (({ e with nextId := e.nextId + 1 } : Editor).modifyGraph owner fun g =>
        (g.modifyPin target (·.withValue .void)).addLink l).asset.graph? owner =
          some ((g.addLink l).modifyPin target (·.withValue .void)) :=
      graph_modifyGraph_self (e := { e with nextId := e.nextId + 1 }) held
    obtain ⟨h, found, after, stays, void, spared⟩ := supplied_displaceLinks (l := l)
      (coherent_addLink coherent owner source target type.color) there (supplied_withValue added (.inr rfl) (.inr rfl))
      (List.mem_append_right _ List.mem_cons_self)
      (value_set (identified_unique (identified_of_coherent coherent) held) target .void)
    -- All other links into the pin are gone.
    obtain ⟨only, k, -, arrives, also, linked⟩ := linked_createLinkIn coherent held oriented
    have same : (e.createLinkIn owner first second).1.asset.graph? owner = some h := by
      rw [createLinkIn, held, Option.bind_some, oriented]
      exact found
    cases same.symm.trans also
    have ends := orient_arrives oriented
    refine ⟨h, same, supplied_unexempt after ⟨l, stays, rfl⟩ (fun x link y other ends meets => ?_) fun n member p inside ends => ?_,
      fun x link => ?_, ?_⟩
    · exact (linked.apart x link (ends.trans arrives.symm)).trans (linked.apart y other (meets.trans arrives.symm)).symm
    · rw [void n member p inside ends]
      rfl
    · refine (List.mem_append.mp (linked.links.subset link)).imp_right fun new => ?_
      rw [List.mem_singleton.mp new, arrives]
      exact ends
    · refine traced_imp (traced_trans (traced_withValue g target .void) spared) fun p q _ related => ?_
      obtain ⟨r, frames, before, after⟩ := related
      have ids : p.id = r.id := (congrArg Pin.id frames :)
      rcases before with kept | ⟨here, -⟩
      · rcases after with here | out | still
        · exact .inl (ids ▸ List.mem_singleton.mp here ▸ ends)
        · exact .inr (.inl (ids ▸ atOutput_kept (kept_withValue g target .void) out))
        · exact .inr (.inr (still.trans kept))
      · exact .inl (here ▸ ends)

theorem provided_createLinkIn (owner : NodeId) (first second : PinId) (coherent : Coherent spared e) (provided : Provided clips e)
    (kinds : ∀ g, e.asset.graph? owner = some g → ∀ p q, g.pin? first = some p → g.pin? second = some q → p.kind ≠ q.kind) :
    Provided clips (e.createLinkIn owner first second).1 := by
  refine provided_within provided (within_createLinkIn e owner first second) fun h found => ?_
  cases held : e.asset.graph? owner with
  | none =>
    rw [createLinkIn, held] at found
    exact provided owner h found
  | some g =>
    obtain ⟨k, also, supplied, -, -⟩ := supplied_createLinkIn coherent held (provided owner g held) (kinds g held)
    cases also.symm.trans found
    exact supplied

/-! ## New nodes -/

/-- A node that may be placed: its inputs hold literals, though a player may lack its clip. -/
structure Outfitted (clips : Prop) (n : Node) : Prop where
  neat : Neat n
  filled : ∀ p ∈ n.inputs, p.storage = .value → p.value.isVoid = true → clips ∧ TakesClip n p

/-- Nodes from a palette may be placed. A player takes its clip by its first input. -/
theorem spawn_outfitted (clips : Prop) (spawned : e.spawn (.ofKind kind) category name = some (n, f)) :
    Outfitted clips n ∧
      (n.name = "Animation Player" → ∃ p, n.inputs.head? = some p ∧ TakesClip n p ∧ p.storage = .value) := by
  obtain ⟨template, found, rfl, -⟩ := template_of_spawn spawned
  obtain ⟨filled, rests, -, quick, player⟩ := template_furnished found
  refine ⟨⟨⟨bound_withFreshIds _ _, fun array p inside single => ?_, fun isQuick => ⟨fun p inside => ?_, fun p inside => ?_⟩⟩,
    fun p inside single void => ?_⟩, fun isPlayer => ?_⟩
  · obtain ⟨-, -, q, member, names, -, storages, -⟩ := mem_bindFrom inside
    rw [names]
    exact rests array q member (storages.symm.trans single)
  · obtain ⟨-, -, q, member, -, types, -⟩ := mem_bindFrom inside
    rw [Pin.isFlow, types]
    exact (quick isQuick).1 q member
  · obtain ⟨-, -, q, member, -, -, storages, -⟩ := mem_bindFrom inside
    exact storages.trans ((quick isQuick).2 q member)
  · obtain ⟨-, -, q, member, -, -, storages, values⟩ := mem_bindFrom inside
    rw [values, filled q member (storages.symm.trans single)] at void
    cases void
  · obtain ⟨animation, clip⟩ := player isPlayer
    obtain ⟨q, first, clipName⟩ := (Option.any_eq_true _ _).mp clip
    rw [Bool.and_eq_true, beq_iff_eq, beq_iff_eq] at clipName
    obtain ⟨qs, shape⟩ := List.head?_eq_some_iff.mp first
    let next := e.nextId + template.pins.length
    refine ⟨{ q with id := ⟨next + 1⟩, node := ⟨next⟩, kind := .input }, ?_, ⟨animation, isPlayer, clipName.1⟩, clipName.2⟩
    change (Pin.bindFrom _ _ _ template.inputs).head? = _
    rw [shape]
    rfl

/-- No link ends in a pin that has just been made. -/
theorem unfed_fresh {pin : PinId} (held : e.asset.graph? owner = some g) (directed : Directed g)
    (fresh : pin.value ∉ allIdentities e.asset) : ¬Fed g pin := by
  rintro ⟨l, link, rfl⟩
  obtain ⟨-, n, member, p, input, same⟩ := directed l link
  refine fresh ((identities_sublist held).subset ((pins_sublist g).subset ?_))
  rw [← same]
  exact List.mem_map_of_mem (List.mem_flatMap.mpr ⟨n, member, List.mem_append_left _ input⟩)

theorem provided_newcomer (provided : Provided clips e) (newcomer : Newcomer e n) (outfitted : Outfitted clips n) :
    Provided clips (e.modifyGraph owner (·.addNode n)) := by
  refine provided_modifyGraph provided fun g held => supplied_addNode (provided owner g held) outfitted.neat (fun p input => ?_)
    outfitted.filled
  refine unfed_fresh held (provided owner g held).directed (newcomer.identities.untaken _ (List.mem_cons_of_mem _ ?_))
  exact List.mem_map_of_mem (List.mem_append_left _ input)

theorem provided_ensureGraph (provided : Provided clips e) (id : NodeId) : Provided clips (e.modifyAsset (·.ensureGraph id)) := by
  intro owner g found
  rcases origin_ensureGraph found with before | rfl
  · exact provided owner g before
  · exact supplied_empty

theorem provided_spawn {palette : Palette} (provided : Provided clips e) (spawn : e.spawn palette category name = some (n, f)) :
    Provided clips f :=
  provided_of_graphs provided (congrArg Asset.graphs (spawn_asset spawn))

theorem provided_ensureSubGraph (coherent : Coherent spared e) (provided : Provided clips e) (id : NodeId) :
    Provided clips (e.ensureSubGraph id) := by
  rcases ensureSubGraph_cases e id with same | ⟨n, -, ⟨-, same⟩ | ⟨output, graph, category, f, seeding⟩⟩
  · rw [same]
    exact provided
  · rw [same]
    exact provided_ensureGraph provided id
  · rw [seeding.result]
    exact provided_newcomer (provided_ensureGraph (provided_spawn provided seeding.spawn) id)
      (newcomer_ensureGraph (spawn_spec coherent seeding.spawn).newcomer id) (spawn_outfitted clips seeding.spawn).1

theorem provided_ensureEntryIn (provided : Provided clips e) (owner : NodeId) : Provided clips (e.ensureEntryIn owner) :=
  provided_modifyGraph provided fun g held => supplied_ensureEntry (provided owner g held)

theorem provided_ensureEntryOfMachine (provided : Provided clips e) (owner : NodeId) :
    Provided clips (e.ensureEntryOfMachine owner) := by
  rw [ensureEntryOfMachine]
  split
  · exact provided_ensureEntryIn provided owner
  · exact provided

theorem provided_addNode (coherent : Coherent none e) (provided : Provided clips e) (newcomer : Newcomer e n)
    (joined : owner.value < e.nextId ∨ n.kind ≠ .transition) (outfitted : Outfitted clips n) :
    Provided clips (e.addNode owner n) := by
  have placed : Provided clips (e.modifyAsset fun a => (a.ensureGraph owner).modifyGraph owner (·.addNode n)) :=
    provided_newcomer (provided_ensureGraph provided owner) (newcomer_ensureGraph newcomer owner) outfitted
  rw [addNode]
  refine provided_ensureEntryOfMachine ?_ owner
  split
  · exact provided_ensureSubGraph (coherent_invalidate (coherent_placed coherent newcomer joined)) placed n.id
  · exact placed

theorem provided_createNode (coherent : Coherent none e) (provided : Provided clips e) (category name : String) :
    Provided clips (e.createNode category name).1 := by
  rcases createNode_cases e category name with same | ⟨n, f, spawn, same⟩
  · rw [same]
    exact provided
  · have spawned := spawn_spec coherent spawn
    rw [same]
    exact provided_addNode (coherent_spawned coherent spawned) (provided_spawn provided spawn) spawned.newcomer
      (.inr spawned.plain) (spawn_outfitted clips spawn).1

/-- Nodes built by hand may be placed, too. -/
theorem provided_adopt (coherent : Coherent none e) (provided : Provided clips e) (crafted : Crafted n)
    (joined : owner.value < e.nextId ∨ n.kind ≠ .transition)
    (outfitted : Outfitted clips (n.withFreshIds (e.nextId + n.pins.length)).1) :
    Provided clips ((e.adopt n).2.addNode owner (e.adopt n).1) := by
  have more : e.nextId ≤ (n.withFreshIds (e.nextId + n.pins.length)).2 := by
    change e.nextId ≤ e.nextId + n.pins.length + 1 + n.pins.length
    omega
  exact provided_addNode (coherent_drawn coherent more) provided
    (newcomer_withFreshIds coherent (Nat.le_add_right _ _) crafted)
    (joined.imp_left fun before => Nat.lt_of_lt_of_le before more) outfitted

theorem provided_propertyNode (property : PropertyKind) (coherent : Coherent none e) (provided : Provided clips e)
    (category : n.category = property.token) (simple : n.type = .simple) (named : n.name ≠ "Output")
    (literals : ∀ p ∈ n.inputs, p.value.isVoid = false) (owner : NodeId) :
    Provided clips ((e.adopt n).2.addNode owner (e.adopt n).1) := by
  obtain ⟨crafted, plain⟩ := crafted_property property category simple named
  refine provided_adopt coherent provided crafted (.inr plain)
    ⟨neat_property property (bound_withFreshIds _ _) category, fun p inside _ void => ?_⟩
  obtain ⟨-, -, q, member, -, -, -, values⟩ := mem_bindFrom inside
  rw [values, literals q member] at void
  cases void

theorem provided_spawnInput (coherent : Coherent none e) (provided : Provided clips e) (name : String) :
    Provided clips (e.spawnInput name).1 := by
  rw [spawnInput]
  split
  · exact provided
  · exact provided_propertyNode .input coherent provided rfl rfl
      (show PropertyKind.input.token ≠ "Output" by decide) (by exact List.forall_mem_nil _) _

theorem provided_spawnLocalVariable (coherent : Coherent none e) (provided : Provided clips e) (name : String) (getter : Bool)
    (literals : ∀ v, e.asset.localVariables.get? name = some v → v.isVoid = false) :
    Provided clips (e.spawnLocalVariable name getter).1 := by
  rcases spawnLocalVariable_cases e name getter with same | ⟨v, inputs, outputs, n, found, pins, rfl, result⟩
  · rw [same]
    exact provided
  have named : name ≠ "Output" := by
    rintro rfl
    exact coherent.named (get_mem_keys found)
  rw [result]
  refine provided_propertyNode .localVariable coherent provided rfl rfl named (fun p inside => ?_) _
  change p ∈ inputs at inside
  rcases pins with ⟨-, rfl, -⟩ | ⟨-, rfl, -⟩
  · cases inside
  · rw [List.mem_singleton.mp inside]
    exact literals v found

/-! ## Literals, layout and order -/

theorem provided_setPinValue {pin : PinId} (provided : Provided clips e) (unfed : ∀ g, e.activeGraph? = some g → ¬Fed g pin)
    (literal : v.isVoid = false) : Provided clips (e.setPinValue pin v).1 := by
  have set : Provided clips (e.modifyGraph e.activeOwner (·.modifyPin pin (·.withValue v))).invalidate :=
    provided_modifyGraph provided fun g held => supplied_withValue (provided _ g held) (.inl (unfed g held)) (.inl literal)
  rcases setPinValue_cases e pin v with same | ⟨_, rfl, same | ⟨id, label, same⟩⟩ <;> rw [same]
  · exact provided
  · exact set
  · refine provided_modifyGraph set fun g held => supplied_modifyNode (set _ g held) ?_ _
    exact fun _ => ⟨rfl, rfl⟩

theorem provided_editNode {f : Node → Node} (provided : Provided clips e) (keeps : ∀ n, frame (f n) = frame n ∧ (f n).inputs = n.inputs)
    (id : NodeId) : Provided clips (e.editNode id f) :=
  provided_modifyGraph provided fun g held => supplied_modifyNode (provided _ g held) keeps id

theorem provided_ensureEntries (provided : Provided clips e) : Provided clips e.ensureEntries := by
  have fold (owners : List NodeId) (e : Editor) (provided : Provided clips e) : Provided clips (owners.foldl ensureEntryIn e) := by
    induction owners generalizing e with
    | nil => exact provided
    | cons owner owners ih => exact ih _ (provided_ensureEntryIn provided owner)
  exact fold _ e provided

theorem provided_sort (provided : Provided clips e) : Provided clips e.sort := by
  intro owner h found
  obtain ⟨g, held, alike⟩ := rearranged_graph (rearranged_symm (rearranged_sorted e.asset)) found
  exact supplied_alike (provided owner g held) (alike_symm alike)

theorem provided_compile (provided : Provided clips e) (session : CompileSession) : Provided clips (e.compile session).1 := by
  have sorted := provided_sort provided
  rw [compile]
  dsimp only
  split
  · exact provided_of_graphs sorted rfl
  · exact sorted

/-! ## Removing nodes -/

theorem provided_removeDeadLinks (coherent : Coherent spared e) (provided : Provided clips e) (owner id : NodeId) :
    Provided clips (e.removeDeadLinks owner id) := by
  rcases removeDeadLinks_cases e owner id with same | ⟨g, held, same⟩
  · rw [same]
    exact provided
  · rw [same]
    refine provided_within provided (within_dropLinksIn e owner _ _) fun h found => ?_
    obtain ⟨k, also, supplied, -, -⟩ := supplied_dropLinksIn coherent held (provided owner g held) fun d dead =>
      (List.mem_filter.mp dead).1
    cases also.symm.trans found
    exact supplied

theorem provided_dropNodes (coherent : Coherent spared e) (provided : Provided clips e) (owner : NodeId) (doomed : List NodeId) :
    Provided clips (e.dropNodes owner doomed) := by
  have fold (ids : List NodeId) (e : Editor) (coherent : Coherent spared e) (provided : Provided clips e) :
      Provided clips (ids.foldl (fun e id => e.removeDeadLinks owner id) e) := by
    induction ids generalizing e with
    | nil => exact provided
    | cons id ids ih =>
      exact ih _ (coherent_removeDeadLinks coherent owner id) (provided_removeDeadLinks coherent provided owner id)
  have unlinked := fold doomed e coherent provided
  exact provided_modifyGraph unlinked fun g held => supplied_without (unlinked owner g held) (untouched_unlinked coherent held)

theorem provided_removeNodesIn (coherent : Coherent none e) (provided : Provided clips e) (owner : NodeId) (ids : List NodeId) :
    Provided clips (e.removeNodesIn owner ids).1 := by
  have drop (f : Editor) (doomed : List NodeId) (before : Coherent (some owner) f ∧ Provided clips f) :
      Coherent (some owner) (f.dropNodes owner doomed).invalidate ∧ Provided clips (f.dropNodes owner doomed).invalidate :=
    ⟨coherent_invalidate (coherent_dropNodes before.1 doomed), provided_dropNodes before.1 before.2 owner doomed⟩
  rcases removeNodesIn_ends drop ⟨coherent_exempt coherent _, provided⟩ ids with same | ⟨f, ⟨-, after⟩, same⟩
  · rw [same]
    exact provided
  · rw [same]
    exact provided_ensureEntryOfMachine (fun id g found => after id g ((collected_collectOrphans f.asset).graphs id g found)) owner

/-! ## State machines -/

theorem provided_createTransitionNode (coherent : Coherent none e) (provided : Provided clips e) :
    Provided clips e.createTransitionNode.1 := by
  rw [createTransitionNode]
  split
  · exact provided
  · rename_i owner active
    refine provided_adopt coherent provided (by decide) (.inl (owner_drawn coherent (activeMachine_spec active)))
      ⟨⟨bound_withFreshIds _ _, fun array => ?_, fun quick => ?_⟩, List.forall_mem_nil _⟩
    · exact absurd (show Template.transition.category = "Array" from array) (by decide)
    · exact absurd (show Template.transition.kind = .quickState from quick) (by decide)

/-- The pins that a transition has brought to a graph are outputs and inputs by turns. -/
def SidedIn (base : Nat) (owner : NodeId) (e : Editor) : Prop :=
  ∀ g, e.asset.graph? owner = some g → ∀ n ∈ g.nodes, ∀ p ∈ n.pins, Sided base p

theorem sidedIn_withTransition {middle : Point} (coherent : Coherent spared e) :
    SidedIn e.nextId owner ((drawn e (e.nextId + 4)).modifyGraph owner (withTransition e.nextId start finish transition middle)) := by
  intro h found
  rw [Editor.modifyGraph, modifyAsset, graph_modifyGraph, if_pos rfl] at found
  obtain ⟨g, held, rfl⟩ := Option.map_eq_some_iff.mp found
  refine sided_withTransition fun n member p inside => (coherent.drawn _ ?_).2
  exact (identities_sublist held).subset ((pins_sublist g).subset
    (List.mem_map_of_mem (List.mem_flatMap.mpr ⟨n, member, inside⟩)))

/-- A link leaves the directions of all pins. -/
theorem sidedIn_createLinkIn {base : Nat} (coherent : Coherent spared e) (sided : SidedIn base owner e) (first second : PinId) :
    SidedIn base owner (e.createLinkIn owner first second).1 := by
  intro h found
  cases held : e.asset.graph? owner with
  | none =>
    rw [createLinkIn, held] at found
    exact sided h found
  | some g =>
    obtain ⟨k, also, frames⟩ := frames_createLinkIn coherent held first second
    cases also.symm.trans found
    exact sided_frames frames (sided g held)

/-- The links of a transition join outputs to inputs. -/
theorem sidedIn_kinds {base i j : Nat} (sided : SidedIn base owner e) (leaves : i = base ∨ i = base + 2)
    (enters : j = base + 1 ∨ j = base + 3) (g : SubGraph) (held : e.asset.graph? owner = some g) :
    ∀ p q, g.pin? ⟨i⟩ = some p → g.pin? ⟨j⟩ = some q → p.kind ≠ q.kind := by
  intro p q first second
  obtain ⟨m, inM, pinM, sameP⟩ := pin_spec first
  obtain ⟨n, inN, pinN, sameQ⟩ := pin_spec second
  have output : p.kind = .output := (sided g held m inM p pinM).1 (by simpa [sameP] using leaves)
  have input : q.kind = .input := (sided g held n inN q pinN).2 (by simpa [sameQ] using enters)
  rw [output, input]
  decide

theorem provided_joinTransition {middle : Point} (coherent : Coherent spared e) (provided : Provided clips e)
    (voiced : ∀ g, e.asset.graph? owner = some g → Voiced g start ∧ Voiced g finish ∧ Voiced g transition) :
    Provided clips (e.joinTransition owner transition start finish middle).1 := by
  have attached := coherent_withTransition middle coherent voiced
  have sided : SidedIn e.nextId owner
      ((drawn e (e.nextId + 4)).modifyGraph owner (withTransition e.nextId start finish transition middle)) :=
    sidedIn_withTransition coherent
  have unfed (i : Nat) (more : e.nextId ≤ i) (g : SubGraph) (held : e.asset.graph? owner = some g) : ¬Fed g ⟨i⟩ :=
    unfed_fresh held (provided owner g held).directed fun taken => Nat.not_lt.mpr more (coherent.drawn i taken).2
  have pinned : Provided clips ((drawn e (e.nextId + 4)).modifyGraph owner (withTransition e.nextId start finish transition middle)) :=
    provided_modifyGraph (e := drawn e (e.nextId + 4)) provided fun g held => supplied_withTransition (provided owner g held)
      ⟨unfed _ (Nat.le_add_right _ 3) g held, unfed _ (Nat.le_add_right _ 1) g held⟩
  have once := provided_createLinkIn owner ⟨e.nextId⟩ ⟨e.nextId + 1⟩ attached pinned
    (sidedIn_kinds sided (.inl rfl) (.inl rfl))
  have firm := coherent_createLinkIn attached owner ⟨e.nextId⟩ ⟨e.nextId + 1⟩
  have still := sidedIn_createLinkIn attached sided ⟨e.nextId⟩ ⟨e.nextId + 1⟩
  obtain ⟨f, rfl, same | same⟩ := joinTransition_cases e owner transition start finish middle
  · rw [same]
    exact once
  · rw [same]
    exact provided_createLinkIn owner ⟨e.nextId + 2⟩ ⟨e.nextId + 3⟩ firm once (sidedIn_kinds still (.inr rfl) (.inr rfl))

theorem provided_createTransition (coherent : Coherent none e) (provided : Provided clips e) (start finish : NodeId) :
    Provided clips (e.createTransition start finish).1 := by
  rcases createTransition_cases e start finish with same | ⟨owner, g, a, b, f, transition, joining⟩
  · rw [same]
    exact provided
  · have made := provided_createTransitionNode coherent provided
    have firm := coherent_createTransitionNode coherent
    rw [joining.created] at made firm
    rw [joining.result]
    exact provided_joinTransition (coherent_ensureSubGraph firm transition) (provided_ensureSubGraph firm made transition)
      (voiced_joining coherent joining)

theorem outfitted_loaded {clip : Option Value} {player : Node} (outfitted : Outfitted clips player)
    (takes : ∀ p ∈ player.inputs.head?, TakesClip player p) (may : ∀ v ∈ clip, v.isVoid = true → clips) :
    Outfitted clips (loaded clip player) := by
  refine ⟨sameFrame_neat (sameFrame_loaded clip player) outfitted.neat, ?_⟩
  rw [loaded.eq_def]
  split
  · rename_i v p ps inputs
    intro q inside single void
    rcases List.mem_cons.mp inside with rfl | later
    · exact ⟨may v rfl void, takes p (by rw [inputs]; rfl)⟩
    · exact outfitted.filled q (inputs ▸ List.mem_cons_of_mem _ later) single void
  · exact outfitted.filled

/-- A player of the graph has a value for its clip, and no link ends there. -/
def Plays (g : SubGraph) (v : Value) : Prop :=
  ∃ n ∈ g.nodes, ∃ p ∈ n.inputs, TakesClip n p ∧ p.storage = .value ∧ p.value = v ∧ ¬Fed g p.id

theorem loaded_takes {player : Node} (first : player.inputs.head? = some p) (takes : TakesClip player p)
    (single : p.storage = .value) (v : Value) :
    ∃ q ∈ (loaded (some v) player).inputs, TakesClip (loaded (some v) player) q ∧ q.storage = .value ∧ q.value = v := by
  obtain ⟨ps, inputs⟩ := List.head?_eq_some_iff.mp first
  refine ⟨p.withValue v, ?_, ?_, single, rfl⟩
  · rw [loaded.eq_def, inputs]
    exact List.mem_cons_self
  · exact takesClip_frames (sameFrame_loaded (some v) player) (show pinFrame p = pinFrame (p.withValue v) from rfl) takes

/-- The pose of a player is linked to an input. -/
theorem player_kinds {player : Node} {pose : Pin} {sink : PinId} (unique : UniqueIds (g.addNode player))
    (bound : ∀ n ∈ (g.addNode player).nodes, Bound n) (output : pose ∈ player.outputs) (ends : g.outputPin? = some sink) :
    ∀ p q, (g.addNode player).pin? pose.id = some p → (g.addNode player).pin? sink = some q → p.kind ≠ q.kind := by
  intro p q first second
  have placed : player ∈ (g.addNode player).nodes := List.mem_append_right _ List.mem_cons_self
  obtain ⟨r, found, rfl⟩ := Option.map_eq_some_iff.mp ends
  obtain ⟨n, named, head⟩ := Option.bind_eq_some_iff.mp found
  have member : n ∈ (g.addNode player).nodes := List.mem_append_left _ (List.mem_of_find?_eq_some named)
  have input : r ∈ n.inputs := List.mem_of_mem_head? head
  have start : pose = p := Option.some.inj ((pin_of_member unique placed (List.mem_append_right _ output)).symm.trans first)
  have finish : r = q := Option.some.inj ((pin_of_member unique member (List.mem_append_left _ input)).symm.trans second)
  rw [← start, ← finish, ((bound player placed).outputs pose output).2, ((bound n member).inputs r input).2]
  decide

/-- The link from a player to the output leaves the clip of the player alone. -/
theorem plays_linked {player : Node} {pose : Pin} {sink : PinId} (unique : UniqueIds (g.addNode player))
    (bound : Bound player) (output : pose ∈ player.outputs) (ends : g.outputPin? = some sink) (clip : p ∈ player.inputs)
    (takes : TakesClip player p) (single : p.storage = .value) (unfed : ¬Fed g p.id)
    (nodes : (h.nodes.map frame).Perm ((g.addNode player).nodes.map frame))
    (links : ∀ l ∈ h.links, l ∈ (g.addNode player).links ∨ l.target ∈ [pose.id, sink])
    (spared : Traced (Spared (g.addNode player) [pose.id, sink]) (g.addNode player) h) : Plays h p.value := by
  have placed : player ∈ (g.addNode player).nodes := List.mem_append_right _ List.mem_cons_self
  have apart : ¬AtOutput (g.addNode player) p.id := by
    rintro ⟨n, inside, named, has⟩
    rw [node_eq_of_pin unique inside placed has (hasPin_iff.mpr ⟨p, List.mem_append_left _ clip, rfl⟩), takes.2.1] at named
    exact absurd named (by decide)
  have away : p.id ∉ [pose.id, sink] := by
    rintro here
    rcases List.mem_cons.mp here with here | there
    · have input := (bound.inputs p clip).2
      rw [pin_eq_of_id unique placed placed (List.mem_append_left _ clip) (List.mem_append_right _ output) here,
        (bound.outputs pose output).2] at input
      cases input
    · obtain ⟨r, found, same⟩ := Option.map_eq_some_iff.mp ends
      obtain ⟨n, named, head⟩ := Option.bind_eq_some_iff.mp found
      refine apart ⟨n, List.mem_append_left _ (List.mem_of_find?_eq_some named), by simpa using List.find?_some named, ?_⟩
      exact hasPin_iff.mpr ⟨r, List.mem_append_left _ (List.mem_of_mem_head? head), same.trans (List.mem_singleton.mp there).symm⟩
  obtain ⟨m, survives, same, q, also, frames, related⟩ := traced_survivor unique nodes spared placed clip
  have ids : p.id = q.id := (congrArg Pin.id frames :)
  refine ⟨m, survives, q, also, takesClip_frames same frames takes, (congrArg Pin.storage frames).symm.trans single,
    (related.resolve_left away).resolve_left apart, ?_⟩
  rintro ⟨l, link, arrives⟩
  rcases links l link with before | new
  · exact unfed ⟨l, before, arrives.trans ids.symm⟩
  · rw [arrives, ← ids] at new
    exact away new

/-- A clip that is played is played as it was given, void or not. -/
theorem provided_playClip (clip : Option Value) (coherent : Coherent none e) (provided : Provided clips e)
    (member : n ∈ allNodes e.asset) (may : ∀ v ∈ clip, v.isVoid = true → clips) :
    Provided clips (e.playClip n.id clip).1 ∧ ((e.playClip n.id clip).2.isSome = true →
      ∀ v ∈ clip, ∃ h, (e.playClip n.id clip).1.asset.graph? n.id = some h ∧ Plays h v) := by
  rcases playClip_cases e n.id clip with same | ⟨player, f, spawn, outcome⟩
  · rw [same]
    exact ⟨provided, (absurd · Bool.false_ne_true)⟩
  have spawned := spawn_spec coherent spawn
  have after := coherent_spawned coherent spawned
  have still : f.asset = e.asset := spawn_asset spawn
  have drew := provided_spawn provided spawn
  rcases outcome with same | ⟨pose, sink, playing⟩
  · rw [same]
    exact ⟨drew, (absurd · Bool.false_ne_true)⟩
  obtain ⟨g, held, ends⟩ := Option.bind_eq_some_iff.mp playing.input
  obtain ⟨outfitted, equipped⟩ := spawn_outfitted clips spawn
  obtain ⟨p, first, takes, single⟩ := equipped spawned.named
  have newcomer := newcomer_edited spawned.newcomer (edited_loaded clip player)
  have full : Coherent (some n.id) (f.modifyGraph n.id (·.addNode (loaded clip player))) :=
    coherent_addNode (coherent_exempt after _) newcomer (.inl rfl) (.inl (node_drawn after (still ▸ member)).2)
  have ready := outfitted_loaded outfitted (fun q head => Option.some.inj (first.symm.trans head) ▸ takes) may
  have placed : Provided clips (f.modifyGraph n.id (·.addNode (loaded clip player))) :=
    provided_newcomer drew newcomer ready
  have there : (f.modifyGraph n.id (·.addNode (loaded clip player))).asset.graph? n.id =
      some (g.addNode (loaded clip player)) := graph_modifyGraph_self held
  have unique := identified_unique (identified_of_coherent full) there
  have output := List.mem_of_find?_eq_some playing.output
  have kinds := player_kinds unique (fun m inside => ((placed n.id _ there).neat m inside).bound) output ends
  have linked := provided_createLinkIn n.id pose.id sink full placed fun h found => by
    cases there.symm.trans found
    exact kinds
  obtain ⟨_, rfl, same | ⟨same, -⟩⟩ := playing.result
  · obtain ⟨h, reached, -, links, spared⟩ := supplied_createLinkIn full there (placed n.id _ there) kinds
    obtain ⟨k, also, nodes⟩ := frames_createLinkIn full there pose.id sink
    cases reached.symm.trans also
    rw [same]
    refine ⟨linked, fun _ v given => ⟨h, reached, ?_⟩⟩
    obtain rfl : clip = some v := given
    obtain ⟨q, input, taken, one, rfl⟩ := loaded_takes first takes single v
    refine plays_linked unique ready.neat.bound output ends input taken one ?_ nodes links spared
    refine unfed_fresh held (drew n.id g held).directed (newcomer.identities.untaken _ (List.mem_cons_of_mem _ ?_))
    exact List.mem_map_of_mem (List.mem_append_left _ input)
  · rw [same]
    exact ⟨linked, (absurd · Bool.false_ne_true)⟩

theorem provided_promoted (coherent : Coherent none e) (provided : Provided clips e)
    (spawned : Spawned e f stateMachineCategory "State" state) (found : (e.asset.graph? owner).bind (·.node? id) = some quick)
    (kind : quick.kind = .quickState) : Provided clips (f.modifyGraph owner (promoted · id state quick)) := by
  have same : f.asset = e.asset := by rw [spawned.rest]; rfl
  obtain ⟨g, held, inside⟩ := Option.bind_eq_some_iff.mp found
  refine provided_modifyGraph (provided_of_graphs provided (congrArg Asset.graphs same)) fun h there => ?_
  cases held.symm.trans (same ▸ there)
  exact supplied_promoted (provided owner g held) (identified_unique (identified_of_coherent coherent) held)
    (links_distinct coherent held) inside kind ⟨spawned.under, spawned.named⟩

/-- The inputs of a quick state hold literals unless they are linked. -/
theorem quick_filled (supplied : Supplied clips none g) (member : quick ∈ g.nodes) (kind : quick.kind = .quickState)
    (input : p ∈ quick.inputs) (void : p.value.isVoid = true) : Fed g p.id ∨ clips := by
  rcases supplied.filled quick member p input (((supplied.neat quick member).quick kind).2 p input) void with fed | lost | none
  · exact .inl fed
  · exact .inr lost.1
  · cases none

/-- The player in the new state gets what the quick state had for its clip, which is void
if it was linked. -/
theorem provided_promoteQuickState (coherent : Coherent none e) (provided : Provided clips e) (id : NodeId)
    (may : clips ∨ ∀ g, e.activeGraph? = some g → ∀ n, g.node? id = some n → n.kind = .quickState →
      ∀ p, n.inputNamed? "Animation" = some p → ¬Fed g p.id) :
    Provided clips (e.promoteQuickState id).1 ∧ ((e.promoteQuickState id).2.isSome = true →
      ∀ g, e.activeGraph? = some g → ∀ n, g.node? id = some n → ∀ p, n.inputNamed? "Animation" = some p →
        ∃ h, (e.promoteQuickState id).1.asset.graph? id = some h ∧ Plays h p.value) := by
  rcases promoteQuickState_cases e id with same | ⟨owner, quick, state, f, promotion⟩
  · rw [same]
    exact ⟨provided, (absurd · Bool.false_ne_true)⟩
  have spawned := spawn_spec coherent promotion.spawn
  have firm := coherent_promoted coherent spawned promotion.found promotion.kind
  have replaced := provided_promoted coherent provided spawned promotion.found promotion.kind
  obtain ⟨g, held, inside⟩ := Option.bind_eq_some_iff.mp promotion.found
  have supplied := provided owner g held
  obtain ⟨m, survives, named, -⟩ := promotion.stands coherent
  rw [activeMachine_active promotion.active] at held
  have granted : ∀ v ∈ (quick.inputNamed? "Animation").map Pin.value, v.isVoid = true → clips := by
    intro v given void
    obtain ⟨p, clip, rfl⟩ := Option.map_eq_some_iff.mp given
    refine may.elim (fun lost => lost) fun unlinked => ?_
    exact (quick_filled supplied (List.mem_of_find?_eq_some inside) promotion.kind (List.mem_of_find?_eq_some clip)
      void).resolve_left (unlinked g held quick inside promotion.kind p clip)
  obtain ⟨kept, plays⟩ := provided_playClip _ (coherent_ensureSubGraph firm id) (provided_ensureSubGraph firm replaced id)
    survives granted
  rw [named] at kept plays
  rw [promotion.result]
  refine ⟨kept, fun done k active n holds p clip => plays done p.value ?_⟩
  cases held.symm.trans active
  cases inside.symm.trans holds
  exact Option.map_eq_some_iff.mpr ⟨p, clip, rfl⟩

/-! ## Properties -/

section Properties
variable {property : PropertyKind} {old new : String} {groups : List (NodeId × List NodeId)}

theorem provided_modifyProperties {change : Properties → Properties} (provided : Provided clips e) :
    Provided clips (e.modifyProperties property change) := by
  refine provided_of_graphs provided ?_
  cases property <;> rfl

theorem provided_addProperty (provided : Provided clips e) (property : PropertyKind) (v : Value) :
    Provided clips (e.addProperty property v).1 := by
  refine provided_of_graphs provided ?_
  cases property <;> rfl

theorem provided_setPropertyValue (provided : Provided clips e) (property : PropertyKind) (name : String) (literal : v.isVoid = false) :
    Provided clips (e.setPropertyValue property name v).1 := by
  have fold (groups : List (NodeId × List NodeId)) (e : Editor) (provided : Provided clips e) :
      Provided clips (groups.foldl (fun e group => e.modifyGraph group.1 (·.setPropertyValue name v group.2)) e) := by
    induction groups generalizing e with
    | nil => exact provided
    | cons group groups ih =>
      exact ih _ (provided_modifyGraph provided fun g held => supplied_setPropertyValue (provided group.1 g held) literal)
  rw [Editor.setPropertyValue]
  split
  · exact fold _ _ (provided_modifyProperties provided)
  · exact provided

theorem provided_renameProperty (coherent : Coherent spared e) (provided : Provided clips e) (property : PropertyKind)
    (old new : String) : Provided clips (e.renameProperty property old new).1 := by
  have fold (groups : List (NodeId × List NodeId)) (free : property = .localVariable → new ≠ "Output") (e : Editor)
      (provided : Provided clips e) (belongs : Belongs property.token groups e.asset) :
      Provided clips (groups.foldl (fun e group => e.modifyGraph group.1 (·.renameProperty property old new group.2)) e) := by
    induction groups generalizing e with
    | nil => exact provided
    | cons group groups ih =>
      have category (g : SubGraph) (held : e.asset.graph? group.1 = some g) := belongs group List.mem_cons_self g held
      exact ih _ (provided_modifyGraph provided fun g held => supplied_renameProperty (provided group.1 g held) (category g held))
        (belongs_modifyGraph (fun other listed => belongs other (List.mem_cons_of_mem _ listed))
          fun g held => revised_renameProperty free (category g held))
  rcases renameProperty_cases e property old new with same | ⟨v, _, renames⟩
  · rw [same]
    exact provided
  · obtain ⟨-, valid, -, rfl, result⟩ := renames
    have belongs := propertyNodes_belong (identified_of_coherent coherent) property old
    rw [result]
    refine fold _ (fun _ => valid_name_free valid (by decide +kernel)) _ (provided_modifyProperties provided) ?_
    cases property <;> exact belongs

theorem provided_retyped {group : NodeId × List NodeId} (coherent : Coherent spared e) (provided : Provided clips e)
    (belongs : Belongs property.token groups e.asset) (listed : group ∈ groups) (literal : v.isVoid = false) :
    Provided clips (retyped name v e group) := by
  have unlinked := provided_removeLinksIn coherent provided group.1
    (((e.asset.graph? group.1).map (·.linksOfNodes group.2)).getD [])
  refine provided_modifyGraph unlinked fun h found => ?_
  obtain ⟨category, untouched⟩ := retyped_bare coherent belongs listed found
  exact supplied_retag (unlinked group.1 h found) category untouched literal

theorem provided_changePropertyType (coherent : Coherent none e) (provided : Provided clips e) (property : PropertyKind)
    (name : String) (literal : v.isVoid = false) : Provided clips (e.changePropertyType property name v).1 := by
  have fold (groups : List (NodeId × List NodeId)) (e : Editor) (coherent : Coherent none e) (provided : Provided clips e)
      (belongs : Belongs property.token groups e.asset) : Provided clips (groups.foldl (retyped name v) e) := by
    induction groups generalizing e with
    | nil => exact provided
    | cons group groups ih =>
      exact ih _ (coherent_retyped coherent group) (provided_retyped coherent provided belongs List.mem_cons_self literal)
        (belongs_retyped (fun other listed => belongs other (List.mem_cons_of_mem _ listed)) group)
  rcases changePropertyType_cases e property name v with same | ⟨current, _, found, -, rfl, result⟩
  · rw [same]
    exact provided
  · have inserted := coherent_insertProperty coherent (get_mem_keys found) v
    rw [result]
    exact fold _ _ inserted (provided_modifyProperties provided)
      (propertyNodes_belong (identified_of_coherent inserted) property name)

theorem provided_removeProperty (coherent : Coherent none e) (provided : Provided clips e) (property : PropertyKind)
    (name : String) : Provided clips (e.removeProperty property name).1 := by
  have fold (groups : List (NodeId × List NodeId)) (e : Editor) (coherent : Coherent none e) (provided : Provided clips e) :
      Provided clips (groups.foldl (fun e group => (e.removeNodesIn group.1 group.2).1) e) := by
    induction groups generalizing e with
    | nil => exact provided
    | cons group groups ih =>
      exact ih _ (coherent_removeNodesIn coherent group.1 group.2) (provided_removeNodesIn coherent provided group.1 group.2)
  rw [removeProperty]
  split
  · exact fold _ _ (coherent_eraseProperty coherent property name) (provided_modifyProperties provided)
  · exact provided

end Properties

end PoseGraph.EditorSupply
