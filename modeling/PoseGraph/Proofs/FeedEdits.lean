import PoseGraph.Proofs.LinkInvariant
import PoseGraph.Proofs.VariableFeeds

/-! Which edits feed no variable from another one. Nodes of variables stem from others
or are not linked yet, and the links that the editor makes by itself, between
transitions and states or from a player, have an end at a pin of their own. -/
namespace PoseGraph.FeedEdits
open AssetOrder EditOutcomes EditRuns Editor EditorCoherence EditorSoundness GraphDependencies GraphWiring LinkEdits LinkingEdits
  NamingEdits NodeCraft NodeEdits NodeFrames PlacingEdits PropertyEdits PropertyKeys SheddingEdits StateEdits VariableFeeds

variable {e f k : Editor} {g : SubGraph} {n quick state : Node} {owner self : NodeId} {start finish pin : PinId} {next : Nat}
variable {category name before : String} {kind : GraphKind} {except : Option NodeId} {names : String → Prop}
variable {change : SubGraph → SubGraph} {edit : Edit}

/-! ## Calm edits -/

/-- The second editor has no node of a variable that was not there, and each of its new
links has an end at a pin of a number from the given one on. -/
structure Calm (next : Nat) (e f : Editor) : Prop where
  rooted : ∀ owner, Rooted id (graphOf e.asset owner) (graphOf f.asset owner)
  links : ∀ owner, ∀ l ∈ (graphOf f.asset owner).links,
    l ∈ (graphOf e.asset owner).links ∨ next ≤ l.source.value ∨ next ≤ l.target.value

/-- A variable that is fed from another one was so before. -/
def NoneFed (e f : Editor) : Prop :=
  ∀ owner name before, DrawsOn (graphOf f.asset owner) name before → DrawsOn (graphOf e.asset owner) name before

theorem pin_drawn (coherent : Coherent except e) (member : n ∈ (graphOf e.asset owner).nodes) (has : n.hasPin pin = true) :
    pin.value < e.nextId := by
  obtain ⟨p, inside, rfl⟩ := hasPin_iff.mp has
  cases held : e.asset.graph? owner with
  | none =>
    rw [graphOf_missing held] at member
    cases member
  | some g =>
    rw [graphOf_eq held] at member
    refine (coherent.drawn _ ((identities_sublist held).subset (List.mem_append_left _ ?_))).2
    exact List.mem_flatMap.mpr ⟨n, member, List.mem_cons_of_mem _ (List.mem_map_of_mem inside)⟩

/-- New links lead to or from new pins, and no variable has one of these. -/
theorem noneFed_calm (coherent : Coherent except e) (calm : Calm e.nextId e f) : NoneFed e f := by
  rintro owner name before ⟨l, link, after⟩
  obtain ⟨x, y, joint, rfl, rfl⟩ := joint_rooted (calm.rooted owner) after
  refine ⟨l, ?_, joint⟩
  obtain ⟨⟨n, inN, -, -, ends⟩, m, inM, -, starts⟩ := joint
  rcases calm.links owner l link with old | source | target
  · exact old
  · exact absurd (pin_drawn coherent inM starts) (Nat.not_lt.mpr source)
  · exact absurd (pin_drawn coherent inN ends) (Nat.not_lt.mpr target)

/-- No matter which pins are new, if no link is. -/
theorem noneFed_of_calm (calm : ∀ next, Calm next e f) : NoneFed e f := by
  intro owner name before draws
  have links : (graphOf f.asset owner).links ⊆ (graphOf e.asset owner).links := by
    intro l link
    rcases (calm (l.source.value + l.target.value + 1)).links owner l link with old | source | target
    · exact old
    · omega
    · omega
  obtain ⟨x, y, earlier, rfl, rfl⟩ := drawsOn_rooted ((calm 0).rooted owner) links draws
  exact earlier

theorem noneFed_trans (first : NoneFed e f) (second : NoneFed f k) : NoneFed e k :=
  fun owner name before draws => first owner name before (second owner name before draws)

theorem calm_sheds (sheds : Sheds e f) : Calm next e f :=
  ⟨fun owner => rooted_same fun m inside _ => sheds.nodes owner m inside, fun owner _ link => .inl (sheds.links owner link)⟩

theorem calm_same (same : ∀ owner, graphOf f.asset owner = graphOf e.asset owner) : Calm next e f := by
  constructor <;> intro owner <;> rw [same]
  · exact rooted_refl _
  · exact fun _ link => .inl link

theorem calm_of_graphs (graphs : f.asset.graphs = e.asset.graphs) : Calm next e f :=
  calm_same fun owner => by rw [graphOf, graphOf, Asset.graph?, Asset.graph?, graphs]

theorem calm_trans (first : Calm next e f) (second : Calm next f k) : Calm next e k := by
  refine ⟨fun owner => rooted_trans (first.rooted owner) (second.rooted owner), fun owner l link => ?_⟩
  rcases second.links owner l link with between | new
  · exact first.links owner l between
  · exact .inr new

theorem calm_modifyGraph (rooted : ∀ g, e.asset.graph? owner = some g → Rooted id g (change g))
    (links : ∀ g, e.asset.graph? owner = some g → ∀ l ∈ (change g).links,
      l ∈ g.links ∨ next ≤ l.source.value ∨ next ≤ l.target.value) :
    Calm next e (e.modifyGraph owner change) := by
  cases held : e.asset.graph? owner with
  | none =>
    have same : (e.modifyGraph owner change).asset = e.asset := modifyGraph_missing held
    exact calm_of_graphs (congrArg Asset.graphs same)
  | some g =>
    have look (self : NodeId) : graphOf (e.modifyGraph owner change).asset self =
        if self = owner then change g else graphOf e.asset self := graphOf_modifyGraph held
    constructor <;> intro self <;> rw [look] <;> split
    · rename_i here
      rw [here, graphOf_eq held]
      exact rooted g held
    · exact rooted_refl _
    · rename_i here
      rw [here, graphOf_eq held]
      exact links g held
    · exact fun _ link => .inl link

/-! ## New nodes -/

theorem calm_ensureGraph (e : Editor) (owner : NodeId) : Calm next e (e.modifyAsset (·.ensureGraph owner)) :=
  calm_same fun _ => graphOf_ensureGraph

/-- A new node that stands for no variable. -/
theorem calm_placed (plain : n.isLocalVariable = false) (e : Editor) (owner : NodeId) :
    Calm next e (e.modifyGraph owner (·.addNode n)) := by
  refine calm_modifyGraph (fun g _ m inside relay => ?_) fun _ _ _ link => .inl link
  rcases List.mem_append.mp inside with old | new
  · exact ⟨m, old, stems_refl m⟩
  · rw [List.mem_singleton.mp new, plain] at relay
    cases relay

theorem foreign_plain (foreign : n.category ≠ localVariableCategory) : n.isLocalVariable = false := by
  rw [Node.isLocalVariable, beq_eq_false_iff_ne.mpr foreign, Bool.false_and]

theorem spawn_plain (spawned : e.spawn (.ofKind kind) category name = some (n, f)) : n.isLocalVariable = false :=
  foreign_plain ((spawn_shaped spawned).1.foreign .localVariable)

theorem calm_spawn {palette : Palette} (spawned : e.spawn palette category name = some (n, f)) : Calm next e f :=
  calm_of_graphs (by rw [spawn_asset spawned])

theorem calm_ensureSubGraph (e : Editor) (id : NodeId) : Calm next e (e.ensureSubGraph id) := by
  rcases ensureSubGraph_cases e id with same | ⟨n, -, ⟨-, same⟩ | ⟨output, graph, category, f, seeding⟩⟩
  · rw [same]
    exact calm_of_graphs rfl
  · rw [same]
    exact calm_ensureGraph e id
  · rw [seeding.result]
    exact calm_trans (calm_spawn seeding.spawn) (calm_trans (calm_ensureGraph f id) (calm_placed (spawn_plain seeding.spawn) _ id))

/-- What follows the placing of a node. -/
theorem calm_settled (e : Editor) (owner : NodeId) (n : Node) :
    Calm next (e.modifyAsset fun a => (a.ensureGraph owner).modifyGraph owner (·.addNode n)) (e.addNode owner n) := by
  rw [addNode]
  refine calm_trans ?_ (calm_sheds (sheds_ensureEntryOfMachine _ owner))
  split
  · exact calm_trans (calm_sheds (sheds_invalidate _)) (calm_ensureSubGraph _ n.id)
  · exact calm_sheds (sheds_invalidate _)

theorem calm_addNode (plain : n.isLocalVariable = false) (e : Editor) (owner : NodeId) : Calm next e (e.addNode owner n) :=
  calm_trans (calm_trans (calm_ensureGraph e owner) (calm_placed plain _ owner)) (calm_settled e owner n)

theorem calm_createNode (e : Editor) (category name : String) : Calm next e (e.createNode category name).1 := by
  rcases createNode_cases e category name with same | ⟨n, f, spawn, same⟩
  · rw [same]
    exact calm_of_graphs rfl
  · rw [same]
    exact calm_trans (calm_spawn spawn) (calm_addNode (spawn_plain spawn) f _)

theorem calm_adopt (foreign : n.category ≠ localVariableCategory) (e : Editor) (owner : NodeId) :
    Calm next e ((e.adopt n).2.addNode owner (e.adopt n).1) :=
  calm_trans (f := (e.adopt n).2) (calm_of_graphs rfl)
    (calm_addNode (n := (e.adopt n).1) (foreign_plain (n := (e.adopt n).1) foreign) _ owner)

theorem calm_spawnInput (e : Editor) (name : String) : Calm next e (e.spawnInput name).1 := by
  rw [spawnInput]
  split
  · exact calm_of_graphs rfl
  · exact calm_adopt (show PropertyKind.input.token ≠ localVariableCategory by decide) e _

theorem calm_createTransitionNode (e : Editor) : Calm next e e.createTransitionNode.1 := by
  rw [createTransitionNode]
  split
  · exact calm_of_graphs rfl
  · exact calm_adopt (show Template.transition.category ≠ localVariableCategory by decide) e _

theorem fresh_pin (has : (n.withFreshIds next).1.hasPin pin = true) : next ≤ pin.value := by
  obtain ⟨p, inside, rfl⟩ := hasPin_iff.mp has
  have drawn : p.id.value ∈ nodeIdentities (n.withFreshIds next).1 := List.mem_cons_of_mem _ (List.mem_map_of_mem inside)
  rw [withFreshIds_identities, List.mem_range'_1] at drawn
  exact drawn.1

/-- No link leads to or from a node that is just placed. -/
theorem drawsOn_placed (wired : Wired g) (drawn : ∀ m ∈ g.nodes, ∀ pin, m.hasPin pin = true → pin.value < next)
    (fresh : ∀ pin, n.hasPin pin = true → next ≤ pin.value) (draws : DrawsOn (g.addNode n) name before) : DrawsOn g name before := by
  obtain ⟨l, link, ⟨s, inS, sets, reads, ends⟩, m, inM, named, starts⟩ := draws
  obtain ⟨x, inX, p, output, y, inY, q, input, source, target, -⟩ := wired.joins l link
  have old {k : Node} {pin : PinId} (inside : k ∈ (g.addNode n).nodes) (has : k.hasPin pin = true)
      (before : pin.value < next) : k ∈ g.nodes := by
    rcases List.mem_append.mp inside with old | new
    · exact old
    · rw [List.mem_singleton.mp new] at has
      exact absurd before (Nat.not_lt.mpr (fresh pin has))
  have left := drawn x inX l.source (hasPin_iff.mpr ⟨p, List.mem_append_right _ output, source⟩)
  have right := drawn y inY l.target (hasPin_iff.mpr ⟨q, List.mem_append_left _ input, target⟩)
  exact ⟨l, link, ⟨s, old inS ends right, sets, reads, ends⟩, m, old inM starts left, named, starts⟩

/-- A new node of a variable is not linked yet. -/
theorem noneFed_adopt (coherent : Coherent except e) (wired : ∀ owner, Wired (graphOf e.asset owner)) (n : Node) (owner : NodeId) :
    NoneFed e ((e.adopt n).2.addNode owner (e.adopt n).1) := by
  refine noneFed_trans (f := (e.adopt n).2.modifyAsset fun a => (a.ensureGraph owner).modifyGraph owner (·.addNode (e.adopt n).1))
    (fun self name before draws => ?_) (noneFed_of_calm fun next => calm_settled _ owner _)
  have held : ((e.adopt n).2.asset.ensureGraph owner).graph? owner = some (graphOf e.asset owner) := by
    rw [graph_ensureGraph, if_pos rfl]
    rfl
  change DrawsOn (graphOf (((e.adopt n).2.asset.ensureGraph owner).modifyGraph owner (·.addNode (e.adopt n).1)) self)
    name before at draws
  rw [graphOf_modifyGraph held, graphOf_ensureGraph] at draws
  split at draws
  · rename_i here
    rw [here]
    exact drawsOn_placed (wired owner) (fun m member pin has => pin_drawn coherent member has)
      (fun pin has => Nat.le_trans (Nat.le_add_right _ _) (fresh_pin has)) draws
  · exact draws

theorem noneFed_spawnLocalVariable (coherent : Coherent except e) (wired : ∀ owner, Wired (graphOf e.asset owner)) (name : String)
    (getter : Bool) : NoneFed e (e.spawnLocalVariable name getter).1 := by
  rcases spawnLocalVariable_cases e name getter with same | ⟨v, inputs, outputs, n, placing⟩
  · rw [same]
    exact fun _ _ _ draws => draws
  · rw [placing.result]
    exact noneFed_adopt coherent wired n e.activeOwner

/-! ## Links of the editor's own -/

theorem calm_createLinkIn (e : Editor) (owner : NodeId) (start finish : PinId) (fresh : next ≤ start.value ∨ next ≤ finish.value) :
    Calm next e (e.createLinkIn owner start finish).1 := by
  rw [createLinkIn]
  split
  · exact calm_of_graphs rfl
  · rename_i source target type oriented
    obtain ⟨g, held, turned⟩ := Option.bind_eq_some_iff.mp oriented
    refine calm_trans (f := { e with nextId := e.nextId + 1 }) (calm_of_graphs rfl) ?_
    refine calm_trans ?_ (calm_sheds (sheds_trans (sheds_displaceLinks _ owner target _) (sheds_invalidate _)))
    refine calm_modifyGraph (fun h _ => ?_) fun h _ l link => ?_
    · exact rooted_same fun m inside _ => kept_origin (kept_withValue h target .void).nodes inside
    · rcases List.mem_append.mp link with old | new
      · exact .inl ((kept_withValue h target .void).links.subset old)
      · rw [List.mem_singleton.mp new]
        rcases orient_ends turned with ⟨rfl, rfl⟩ | ⟨rfl, rfl⟩
        · exact .inr fresh
        · exact .inr fresh.symm

theorem draws_createTransitionNode (e : Editor) : e.nextId ≤ e.createTransitionNode.1.nextId := by
  rw [createTransitionNode]
  split
  · exact Nat.le_refl _
  · rename_i owner active
    refine Nat.le_trans ?_ (draws_addNode (e.adopt Template.transition).2 owner _)
    change e.nextId ≤ e.nextId + _ + 1 + _
    omega

/-- The links of a transition lead to and from its own pins. -/
theorem calm_joinTransition (made : ∀ n ∈ allNodes e.asset, Made n) (owner transition start finish : NodeId) (middle : Point) :
    Calm e.nextId e (e.joinTransition owner transition start finish middle).1 := by
  have pinned : Calm e.nextId e ((drawn e (e.nextId + 4)).modifyGraph owner (withTransition e.nextId start finish transition middle)) := by
    refine calm_trans (f := drawn e (e.nextId + 4)) (calm_of_graphs rfl) ?_
    refine calm_modifyGraph (fun g held m inside _ => ?_) fun _ _ _ link => .inl link
    obtain ⟨n, member, spread⟩ := LoweringSemantics.origin_of_mem
      (spread_withTransition fun n member => made n (mem_allNodes.mpr ⟨owner, g, held, member⟩)) inside
    exact ⟨n, member, stems_spread spread⟩
  have once := calm_trans pinned (calm_createLinkIn _ owner ⟨e.nextId⟩ ⟨e.nextId + 1⟩ (.inl (Nat.le_refl _)))
  obtain ⟨f, rfl, same | same⟩ := joinTransition_cases e owner transition start finish middle
  · rw [same]
    exact once
  · rw [same]
    exact calm_trans once (calm_createLinkIn _ owner ⟨e.nextId + 2⟩ ⟨e.nextId + 3⟩ (.inl (Nat.le_add_right _ 2)))

theorem calm_mono {least : Nat} (calm : Calm next e f) (less : least ≤ next) : Calm least e f :=
  ⟨calm.rooted, fun owner l link => (calm.links owner l link).imp_right (.imp (Nat.le_trans less) (Nat.le_trans less))⟩

theorem calm_createTransition (coherent : Coherent none e) (sound : Sound names e) (start finish : NodeId) :
    Calm e.nextId e (e.createTransition start finish).1 := by
  rcases createTransition_cases e start finish with same | ⟨owner, g, a, b, f, transition, joining⟩
  · rw [same]
    exact calm_of_graphs rfl
  · have placed : Calm e.nextId e e.createTransitionNode.1 := calm_createTransitionNode e
    have whole := coherent_createTransitionNode coherent
    have made := sound_createTransitionNode coherent sound
    have drawn := draws_createTransitionNode e
    rw [joining.created] at placed whole made drawn
    have seeded := sound_ensureSubGraph whole made transition
    rw [joining.result]
    exact calm_trans (calm_trans placed (calm_ensureSubGraph f transition))
      (calm_mono (calm_joinTransition seeded.made _ transition start finish _)
        (Nat.le_trans drawn (draws_ensureSubGraph f transition)))

/-! ## States from quick states -/

theorem spawn_fresh (spawned : e.spawn (.ofKind kind) category name = some (n, f)) (has : n.hasPin pin = true) :
    e.nextId ≤ pin.value := by
  obtain ⟨template, -, rfl, -⟩ := template_of_spawn spawned
  exact Nat.le_trans (Nat.le_add_right _ _) (fresh_pin has)

/-- The link of a player leads from its own pin. -/
theorem calm_playClip (e : Editor) (owner : NodeId) (clip : Option Value) : Calm e.nextId e (e.playClip owner clip).1 := by
  rcases playClip_cases e owner clip with same | ⟨player, f, spawn, outcome⟩
  · rw [same]
    exact calm_of_graphs rfl
  have drew : Calm e.nextId e f := calm_spawn spawn
  rcases outcome with same | ⟨pose, sink, playing⟩
  · rw [same]
    exact drew
  have edited := edited_loaded clip player
  have plain : (loaded clip player).isLocalVariable = false :=
    foreign_plain (edited.category ▸ (spawn_shaped spawn).1.foreign .localVariable)
  have fresh : e.nextId ≤ pose.id.value := by
    have output : pose ∈ (loaded clip player).pins := List.mem_append_right _ (List.mem_of_find?_eq_some playing.output)
    obtain ⟨p, inside, id⟩ := List.mem_map.mp (edited_pins edited ▸ List.mem_map_of_mem (f := Pin.id) output)
    exact spawn_fresh spawn (hasPin_iff.mpr ⟨p, inside, id⟩)
  have linked := calm_trans drew (calm_trans (calm_placed plain f owner) (calm_createLinkIn _ owner _ sink (.inl fresh)))
  obtain ⟨_, rfl, same | ⟨same, -⟩⟩ := playing.result
  · rw [same]
    exact calm_trans linked (calm_sheds (sheds_invalidate _))
  · rw [same]
    exact linked

theorem calm_promoted (found : (e.asset.graph? owner).bind (·.node? self) = some quick) (shape : StateNode state) :
    Calm next e (e.modifyGraph owner (promoted · self state quick)) := by
  refine calm_modifyGraph (fun g held m inside relay => ?_) fun g held l link => .inl (promoted_links link).1
  rw [held, Option.bind_some] at found
  rcases promoted_origin found inside with old | rfl
  · exact ⟨m, old, stems_refl m⟩
  · have foreign : (stateFromQuick state quick).category ≠ localVariableCategory := by
      rw [(stateNode_stateFromQuick quick shape).category]
      decide
    rw [foreign_plain foreign] at relay
    cases relay

theorem calm_promoteQuickState (coherent : Coherent none e) (id : NodeId) : Calm e.nextId e (e.promoteQuickState id).1 := by
  rcases promoteQuickState_cases e id with same | ⟨owner, quick, state, f, promotion⟩
  · rw [same]
    exact calm_of_graphs rfl
  · have spawned := spawn_spec coherent promotion.spawn
    have replaced : Calm e.nextId e (f.modifyGraph owner (promoted · id state quick)) :=
      calm_trans (calm_spawn promotion.spawn) (calm_promoted (by rw [spawn_asset promotion.spawn]; exact promotion.found)
        ⟨spawned.under, spawned.named⟩)
    have drawn : e.nextId ≤ ((f.modifyGraph owner (promoted · id state quick)).ensureSubGraph id).nextId :=
      Nat.le_trans spawned.more (draws_ensureSubGraph (f.modifyGraph owner (promoted · id state quick)) id)
    rw [promotion.result]
    exact calm_trans (calm_trans replaced (calm_ensureSubGraph _ id)) (calm_mono (calm_playClip _ id _) drawn)

/-! ## Types -/

theorem calm_retyped {kind : PropertyKind} {v : Value} {groups : List (NodeId × List NodeId)} {group : NodeId × List NodeId}
    (coherent : Coherent except e) (sound : Sound names e) (belongs : Belongs kind.token groups e.asset) (listed : group ∈ groups) :
    Calm next e (retyped name v e group) := by
  have unlinked := sheds_removeLinksIn e group.1 (((e.asset.graph? group.1).map (·.linksOfNodes group.2)).getD [])
  refine calm_trans (calm_sheds unlinked) (calm_modifyGraph (fun h found => ?_) fun _ _ _ link => .inl link)
  obtain ⟨category, untouched⟩ := retyped_bare coherent belongs listed found
  exact rooted_revised (identified_unique (identified_of_coherent (coherent_removeLinksIn coherent group.1 _)) found)
    (turns_retag (graph_made (sound_sheds sound unlinked) found) category untouched) (revised_retagProperty h)

theorem calm_changePropertyType (coherent : Coherent none e) (sound : Sound names e) (kind : PropertyKind) (name : String) (v : Value) :
    Calm next e (e.changePropertyType kind name v).1 := by
  have fold (groups : List (NodeId × List NodeId)) (k : Editor) (coherent : Coherent none k) (sound : Sound names k)
      (belongs : Belongs kind.token groups k.asset) : Calm next k (groups.foldl (retyped name v) k) := by
    induction groups generalizing k with
    | nil => exact calm_of_graphs rfl
    | cons group groups ih =>
      exact calm_trans (calm_retyped coherent sound belongs List.mem_cons_self)
        (ih _ (coherent_retyped coherent group) (sound_retyped coherent sound belongs List.mem_cons_self)
          (belongs_retyped (fun other listed => belongs other (List.mem_cons_of_mem _ listed)) group))
  rcases changePropertyType_cases e kind name v with same | ⟨current, _, found, -, rfl, result⟩
  · rw [same]
    exact calm_of_graphs rfl
  · have first := coherent_insertProperty coherent (get_mem_keys found) v
    have graphs : (e.modifyProperties kind (·.insert name v)).asset.graphs = e.asset.graphs := by cases kind <;> rfl
    rw [result]
    refine calm_trans (calm_of_graphs graphs) (calm_trans ?_ (calm_sheds (sheds_invalidate _)))
    exact fold _ _ first (sound_modifyProperties sound) (propertyNodes_belong (identified_of_coherent first) kind name)

/-! ## All edits -/

/-- Edits that neither link pins nor rename properties. -/
def quiet : Edit → Bool
  | .createLink _ _ | .renameProperty _ _ _ => false
  | _ => true

/-- They feed no variable from another one. -/
theorem noneFed_apply (coherent : Coherent none e) (sound : Declared e) (other : quiet edit = true) : NoneFed e (edit.apply e) := by
  cases edit with
  | createNode category name => exact noneFed_of_calm fun _ => calm_createNode e category name
  | removeNodes ids => exact noneFed_of_calm fun _ => calm_sheds (sheds_removeNodesIn coherent _ ids)
  | layNode id layout => exact noneFed_of_calm fun _ => calm_sheds (sheds_editNode (f := layout.applyTo) e id fun _ => rfl)
  | setPinValue pin v => exact noneFed_of_calm fun _ => calm_sheds (sheds_setPinValue e pin v)
  | createLink start finish => cases other
  | removeLinks ids => exact noneFed_of_calm fun _ => calm_sheds (sheds_removeLinksIn e _ ids)
  | addProperty kind v =>
    refine noneFed_of_calm fun _ => calm_of_graphs ?_
    cases kind <;> rfl
  | removeProperty kind name => exact noneFed_of_calm fun _ => calm_sheds (sheds_removeProperty coherent kind name)
  | setPropertyValue kind name v => exact noneFed_of_calm fun _ => calm_sheds (sheds_setPropertyValue e kind name v)
  | renameProperty kind old new => cases other
  | changePropertyType kind name v => exact noneFed_of_calm fun _ => calm_changePropertyType coherent sound kind name v
  | spawnInput name => exact noneFed_of_calm fun _ => calm_spawnInput e name
  | spawnLocalVariable name getter => exact noneFed_spawnLocalVariable coherent sound.wired name getter
  | createTransitionNode => exact noneFed_of_calm fun _ => calm_createTransitionNode e
  | createTransition start finish => exact noneFed_calm coherent (calm_createTransition coherent sound start finish)
  | promoteQuickState id => exact noneFed_calm coherent (calm_promoteQuickState coherent id)
  | ensureEntry => exact noneFed_of_calm fun _ => calm_sheds (sheds_ensureEntryIn e _)
  | ensureEntries => exact noneFed_of_calm fun _ => calm_sheds (sheds_ensureEntries e)
  | ensureSubGraph id => exact noneFed_of_calm fun _ => calm_ensureSubGraph e id
  | enterNode id =>
    refine noneFed_of_calm fun _ => calm_trans (f := e.setPath (some id)) (calm_of_graphs rfl) ?_
    exact calm_trans (calm_ensureSubGraph _ id) (calm_sheds (sheds_invalidate _))
  | setPath target =>
    refine noneFed_of_calm fun _ => calm_of_graphs ?_
    rw [Edit.apply, setPath.eq_def]
    split <;> rfl
  | setSkeleton handle => exact noneFed_of_calm fun _ => calm_of_graphs rfl
  | setSettings settings => exact noneFed_of_calm fun _ => calm_of_graphs rfl
  | sort => exact noneFed_of_calm fun _ => calm_sheds (sheds_sort e)
  | save => exact noneFed_of_calm fun _ => calm_sheds (sheds_sort e)
  | compile session =>
    refine noneFed_of_calm fun _ => calm_trans (calm_sheds (sheds_sort e)) (calm_of_graphs ?_)
    rw [Edit.apply, compile]
    dsimp only
    split <;> rfl

end PoseGraph.FeedEdits
