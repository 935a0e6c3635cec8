import PoseGraph.Proofs.CleanRemoval
import PoseGraph.Proofs.RenamedVariables
import PoseGraph.Proofs.StatePromotion

/-! What becomes of a state machine when a quick state of it is promoted: a state stands in the place of the quick
state, of whose pins those stay that carry triggers, and the graph of the state plays the clip of the quick state. -/
namespace PoseGraph.PromotedStates
open AssetOrder CleanRemoval EditRuns Editor EditorCoherence GraphDependencies GraphWiring GroundedGraphs LinkEdits
  NodeCascades NodeFrames RenamedVariables StateEdits Unlinking Validity

variable {a : Asset} {e : Editor} {g : SubGraph} {n state quick : Node} {p : Pin} {l : Link}
variable {owner id : NodeId} {pin start finish : PinId} {clip : Value}

/-! ## The machine -/

/-- The pins of a quick state that carry no triggers go. -/
def drops (quick : Node) (pin : PinId) : Bool := quick.pins.any fun p => !p.isFlow && p.id == pin

theorem drops_iff : drops quick pin = true ↔ ∃ p ∈ quick.pins, p.isFlow = false ∧ p.id = pin := by simp [drops]

/-- A link ends at a pin that goes. -/
def losesEnd (quick : Node) (l : Link) : Bool := drops quick l.source || drops quick l.target

/-- A state has the pins of a quick state that do not go. -/
theorem hasPin_stateFromQuick (state : Node) (spared : drops quick pin = false) :
    (stateFromQuick state quick).hasPin pin = quick.hasPin pin := by
  have carry (p : Pin) (held : p ∈ quick.pins) (same : p.id = pin) : p.isFlow = true := by
    by_contra plain
    have gone : drops quick pin = true := drops_iff.mpr ⟨p, held, by simpa using plain, same⟩
    rw [spared] at gone
    cases gone
  rw [Bool.eq_iff_iff, hasPin_iff, hasPin_iff, stateFromQuick, Node.withId, pins_mapPins]
  simp only [Node.pins, List.map_append, List.mem_append, List.mem_map, List.mem_filter]
  constructor
  · rintro ⟨p, ⟨q, ⟨inside, -⟩, rfl⟩ | ⟨q, ⟨inside, -⟩, rfl⟩, same⟩
    · exact ⟨q, .inl inside, same⟩
    · exact ⟨q, .inr inside, same⟩
  · rintro ⟨p, inside | inside, same⟩
    · exact ⟨_, .inl ⟨p, ⟨inside, carry p (List.mem_append_left _ inside) same⟩, rfl⟩, same⟩
    · exact ⟨_, .inr ⟨p, ⟨inside, carry p (List.mem_append_right _ inside) same⟩, rfl⟩, same⟩

/-- A pin that does not go stays with its node. -/
theorem promoted_nodeOfPin (state : Node) (found : g.node? quick.id = some quick) (spared : drops quick pin = false) :
    ((promoted g quick.id state quick).nodeOfPin? pin).map Node.id = (g.nodeOfPin? pin).map Node.id := by
  obtain ⟨before, after, split, replaced⟩ := promoted_nodes state found
  have has := hasPin_stateFromQuick state spared
  simp only [SubGraph.nodeOfPin?, split, replaced, List.find?_append, List.find?_cons, has]
  cases before.find? (·.hasPin pin) <;> cases quick.hasPin pin <;> rfl

/-- Of the pins that there were, those are missing that went. -/
theorem promoted_pin_isSome (state : Node) (unique : UniqueIds g) (found : g.node? quick.id = some quick)
    (there : (g.pin? pin).isSome = true) :
    ((promoted g quick.id state quick).pin? pin).isSome = !drops quick pin := by
  cases gone : drops quick pin with
  | true =>
    obtain ⟨p, held, plain, rfl⟩ := drops_iff.mp gone
    by_contra still
    have flow := promoted_pin unique found held ((Bool.not_eq_false _).mp still)
    rw [plain] at flow
    cases flow
  | false =>
    have same := congrArg Option.isSome (promoted_nodeOfPin state found gone)
    rwa [Option.isSome_map, Option.isSome_map, nodeOfPin_isSome, nodeOfPin_isSome, there] at same

/-- The links are what they were, without those at a pin that went. -/
theorem promoted_links_eq (state : Node) (unique : UniqueIds g) (found : g.node? quick.id = some quick)
    (distinct : (g.links.map Link.id).Nodup)
    (joined : ∀ l ∈ g.links, (g.pin? l.source).isSome = true ∧ (g.pin? l.target).isSome = true) :
    (promoted g quick.id state quick).links = g.links.filter fun l => !losesEnd quick l := by
  refine List.filter_congr fun l link => congrArg _ ?_
  have stale (l : Link) (link : l ∈ g.links) :
      (((promoted g quick.id state quick).pin? l.source).isNone ||
        ((promoted g quick.id state quick).pin? l.target).isNone) = losesEnd quick l := by
    obtain ⟨source, target⟩ := joined l link
    rw [← Option.not_isSome, ← Option.not_isSome, promoted_pin_isSome state unique found source,
      promoted_pin_isSome state unique found target, Bool.not_not, Bool.not_not, losesEnd]
  -- Links are told apart, so that a stale one takes no other one with it.
  rw [Bool.eq_iff_iff, List.contains_iff_mem, List.mem_map]
  constructor
  · rintro ⟨x, lost, same⟩
    obtain ⟨inside, loses⟩ := List.mem_filter.mp lost
    obtain rfl := List.inj_on_of_nodup_map distinct inside link same
    exact (stale x inside).symm.trans loses
  · exact fun loses => ⟨l, List.mem_filter.mpr ⟨link, (stale l link).trans loses⟩, rfl⟩

/-- The nodes that a link joins. -/
def linkEnds (g : SubGraph) (l : Link) : Option NodeId × Option NodeId :=
  ((g.nodeOfPin? l.source).map Node.id, (g.nodeOfPin? l.target).map Node.id)

theorem promoted_linkEnds (state : Node) (found : g.node? quick.id = some quick) (keeps : losesEnd quick l = false) :
    linkEnds (promoted g quick.id state quick) l = linkEnds g l := by
  obtain ⟨source, target⟩ := Bool.or_eq_false_iff.mp keeps
  exact Prod.ext (promoted_nodeOfPin state found source) (promoted_nodeOfPin state found target)

/-- A link that joins two trigger pins. -/
def CarriesTriggers (g : SubGraph) (l : Link) : Prop :=
  (∃ p, g.pin? l.source = some p ∧ p.isFlow = true) ∧ ∃ p, g.pin? l.target = some p ∧ p.isFlow = true

theorem triggers_keeps (unique : UniqueIds g) (member : quick ∈ g.nodes) (triggers : CarriesTriggers g l) :
    losesEnd quick l = false := by
  have spared {pin : PinId} (flow : ∃ p, g.pin? pin = some p ∧ p.isFlow = true) : drops quick pin = false := by
    obtain ⟨p, found, flow⟩ := flow
    by_contra gone
    obtain ⟨q, held, plain, rfl⟩ := drops_iff.mp (by simpa using gone)
    obtain rfl := Option.some.inj ((pin_of_member unique member held).symm.trans found)
    rw [plain] at flow
    cases flow
  rw [losesEnd, spared triggers.1, spared triggers.2]
  rfl

/-! ## Nodes from templates -/

theorem spawn_template {kind : GraphKind} {category name : String} {template : Node} (e : Editor)
    (found : (Palette.ofKind kind).template? category name = some template) :
    e.spawn (.ofKind kind) category name =
      some (({ template with category }.withFreshIds (e.nextId + template.pins.length)).1,
        { e with nextId := e.nextId + template.pins.length + 1 + template.pins.length }) := by
  rw [Editor.spawn, Palette.spawn, found]
  rfl

/-- The state that takes the place of a quick state. -/
def stateOf (quick : Node) : Node :=
  { Template.state with
    id := quick.id
    category := stateMachineCategory
    position := quick.position
    isEntry := quick.isEntry
    inputs := (quick.inputs.filter Pin.isFlow).map fun p => { p with node := quick.id }
    outputs := (quick.outputs.filter Pin.isFlow).map fun p => { p with node := quick.id } }

theorem stateOf_kind (quick : Node) : (stateOf quick).kind = .state := stateNode_kind ⟨rfl, rfl⟩

theorem spawn_state (e : Editor) (quick : Node) : ∃ state,
    e.spawn (.ofKind .stateMachine) stateMachineCategory "State" = some (state, { e with nextId := e.nextId + 1 }) ∧
      stateFromQuick state quick = stateOf quick := by
  have stocked : (Palette.ofKind .stateMachine).template? stateMachineCategory "State" = some Template.state := rfl
  exact ⟨_, spawn_template e stocked, rfl⟩

/-- The output of a graph of poses, with its pin. -/
def outputAt (next : Nat) (v : Value) : Node :=
  { Template.poseOutput with
    id := ⟨next⟩
    category := "Animation"
    inputs := [{ Pin.input "Pose" .pose with id := ⟨next + 1⟩, node := ⟨next⟩, value := v }] }

theorem spawn_output (e : Editor) : e.spawn (.ofKind .animation) "Animation" "Output" =
    some (outputAt (e.nextId + 1) (.int64 0), { e with nextId := e.nextId + 3 }) := by
  have stocked : (Palette.ofKind .animation).template? "Animation" "Output" = some Template.poseOutput := rfl
  rw [spawn_template e stocked]
  rfl

/-- The player of a clip, with its pins. -/
def playerAt (next : Nat) (clip : Value) : Node :=
  loaded (some clip) ({ Template.animationPlayer with category := "Animation" }.withFreshIds next).1

/-- The pin at which a player gives its pose. -/
def poseAt (player : Nat) : Pin := { Pin.output "Pose" .pose with id := ⟨player + 5⟩, node := ⟨player⟩ }

theorem spawn_player (e : Editor) (clip : Value) : ∃ player,
    e.spawn (.ofKind .animation) "Animation" "Animation Player" = some (player, { e with nextId := e.nextId + 15 }) ∧
      loaded (some clip) player = playerAt (e.nextId + 7) clip := by
  have stocked : (Palette.ofKind .animation).template? "Animation" "Animation Player" =
    some Template.animationPlayer := rfl
  exact ⟨_, spawn_template e stocked, rfl⟩

theorem playerAt_pose (player : Nat) (clip : Value) :
    (playerAt player clip).outputNamed? "Pose" = some (poseAt player) := rfl

/-! ## The graph of the state -/

theorem hasGraph_of_missing (missing : a.graph? id = none) : a.hasGraph id = false := by
  by_contra present
  obtain ⟨g, held⟩ := hasGraph_iff.mp (by simpa using present)
  rw [missing] at held
  cases held

/-- The asset with one more graph. -/
def withGraph (a : Asset) (id : NodeId) (k : SubGraph) : Asset := { a with graphs := a.graphs.insert id k }

theorem withGraph_modifyGraph (missing : a.graph? id = none) (k : SubGraph) (change : SubGraph → SubGraph) :
    (withGraph a id k).modifyGraph id change = withGraph a id (change k) := by
  have absent := hasGraph_of_missing missing
  have entries : ((a.graphs.insert id k).modify id change).entries = (a.graphs.insert id (change k)).entries := by
    have still (entry : NodeId × SubGraph) (inside : entry ∈ a.graphs.entries) :
        (entry.1, if entry.1 = id then change entry.2 else entry.2) = entry := by
      rw [if_neg]
      rintro rfl
      rw [Asset.graph?, get_eq_some_iff.mpr inside] at missing
      cases missing
    change (a.graphs.insert id k).entries.map
      (fun entry => (entry.1, if entry.1 = id then change entry.2 else entry.2)) = _
    rw [graph_insert absent, graph_insert absent, List.map_append, List.map_congr_left still, List.map_id',
      List.map_singleton, if_pos rfl]
  have graphs : (a.graphs.insert id k).modify id change = a.graphs.insert id (change k) :=
    table_ext (congrArg (List.map Prod.fst) entries) fun x => congrArg (Entries.get? · x) entries
  exact congrArg (fun graphs => { a with graphs }) graphs

theorem ensureGraph_missing (missing : a.graph? id = none) : a.ensureGraph id = withGraph a id .empty := by
  rw [Asset.ensureGraph, hasGraph_of_missing missing]
  rfl

theorem graph_withGraph (missing : a.graph? id = none) (k : SubGraph) (x : NodeId) :
    (withGraph a id k).graph? x = if x = id then some k else a.graph? x := by
  rw [← withGraph_modifyGraph missing .empty fun _ => k, graph_modifyGraph, ← ensureGraph_missing missing,
    graph_ensureGraph]
  split <;> rfl

theorem owners_withGraph (missing : a.graph? id = none) (k : SubGraph) :
    (withGraph a id k).owners = a.owners ++ [id] := by
  change (a.graphs.insert id k).entries.map Prod.fst = _
  rw [graph_insert (hasGraph_of_missing missing), List.map_append]
  rfl

/-- A state that owns no graph gets one with an output. -/
theorem ensureSubGraph_state (nested : id ≠ .root) (missing : e.asset.graph? id = none)
    (found : e.asset.findNode? id = some n) (owns : n.isSubroutine = true) (state : n.kind = .state) :
    e.ensureSubGraph id =
      { e with
        asset := withGraph e.asset id ⟨[outputAt (e.nextId + 1) (.int64 0)], []⟩
        nextId := e.nextId + 3 } := by
  have absent : (id.isRoot || e.asset.hasGraph id) = false :=
    Bool.or_eq_false_iff.mpr ⟨by simpa [NodeId.isRoot] using nested, hasGraph_of_missing missing⟩
  have seeded : e.seed? n.kind = some (outputAt (e.nextId + 1) (.int64 0), { e with nextId := e.nextId + 3 }) := by
    rw [state]
    exact spawn_output e
  rw [ensureSubGraph, absent, found]
  simp only [Bool.false_eq_true, ↓reduceIte, owns, seeded]
  rw [modifyAsset, ensureGraph_missing missing, withGraph_modifyGraph missing]
  rfl

/-- A link from an output into an input that has none is added, and the input becomes void. -/
theorem createLinkIn_free (held : e.asset.graph? owner = some g) (starts : g.pin? start = some p)
    (output : p.kind = .output) (ends : (g.pin? finish).isSome = true) (free : ∀ l ∈ g.links, l.target ≠ finish) :
    e.createLinkIn owner start finish =
      ({ e with
          asset := e.asset.modifyGraph owner fun g =>
            (g.modifyPin finish (·.withValue .void)).addLink ⟨⟨e.nextId⟩, start, finish, p.type.color⟩
          isDirty := true
          nextId := e.nextId + 1 }, some ⟨e.nextId⟩) := by
  obtain ⟨q, ends⟩ := Option.isSome_iff_exists.mp ends
  have oriented : orientLink g start finish = some (start, finish, p.type) := by
    simp [orientLink, starts, output, ends]
  have idle (f : Editor) {h : SubGraph} (there : f.asset.graph? owner = some h)
      (only : ∀ l ∈ h.links, l.target = finish → l.id = ⟨e.nextId⟩) : f.displaceLinks owner finish ⟨e.nextId⟩ = f := by
    have none : (h.links.filter fun l => l.target == finish && l.id != ⟨e.nextId⟩) = [] := by
      refine List.filter_eq_nil_iff.mpr fun l link passes => ?_
      obtain ⟨here, other⟩ : l.target = finish ∧ l.id ≠ ⟨e.nextId⟩ := by simpa using passes
      exact other (only l link here)
    rw [displaceLinks, there]
    simp only [none, List.isEmpty_nil, ↓reduceIte]
  rw [createLinkIn, held, Option.bind_some, oriented]
  refine Prod.ext ?_ rfl
  dsimp only
  have here : ({ e with nextId := e.nextId + 1 } : Editor).asset.graph? owner = some g := held
  rw [idle _ (graph_modifyGraph_self here)]
  · rfl
  · intro l link here
    rcases List.mem_append.mp link with old | new
    · exact absurd here (free l old)
    · rw [List.mem_singleton.mp new]

/-- An output and a player. -/
def unplayed (clip v : Value) (output player : Nat) (links : List Link) : SubGraph :=
  ⟨[outputAt output v, playerAt player clip], links⟩

theorem unplayed_unique {v : Value} {output player : Nat} {links : List Link} (older : output + 1 < player) :
    UniqueIds (unplayed clip v output player links) := by
  constructor
  · change List.Nodup [(⟨output⟩ : NodeId), ⟨player⟩]
    simp
    omega
  · change List.Nodup [(⟨output + 1⟩ : PinId), ⟨player + 1⟩, ⟨player + 2⟩, ⟨player + 3⟩, ⟨player + 4⟩, ⟨player + 5⟩,
      ⟨player + 6⟩, ⟨player + 7⟩]
    simp
    omega

theorem unplayed_pose {v : Value} {output player : Nat} {links : List Link} (older : output + 1 < player) :
    (unplayed clip v output player links).pin? (poseAt player).id = some (poseAt player) :=
  pin_of_member (n := playerAt player clip) (unplayed_unique older) (List.mem_cons_of_mem _ List.mem_cons_self)
    (List.mem_append_right _ (List.mem_of_find?_eq_some (playerAt_pose player clip)))

/-- The graph of a state in which a player feeds the output. -/
def playing (clip : Value) (output player : Nat) : SubGraph :=
  unplayed clip .void output player [⟨⟨player + 8⟩, ⟨player + 5⟩, ⟨output + 1⟩, PinType.pose.color⟩]

theorem unplayed_linked (clip v : Value) (output player : Nat) :
    ((unplayed clip v output player []).modifyPin ⟨output + 1⟩ (·.withValue .void)).addLink
      ⟨⟨player + 8⟩, ⟨player + 5⟩, ⟨output + 1⟩, PinType.pose.color⟩ = playing clip output player := by
  have first : (outputAt output v).inputs.any (·.id == ⟨output + 1⟩) = true := by simp [outputAt]
  have has : (outputAt output v).hasPin ⟨output + 1⟩ = true := by simp [Node.hasPin, Node.pins, outputAt]
  have held : (outputAt output v).modifyPin ⟨output + 1⟩ (·.withValue .void) = outputAt output .void := by
    rw [Node.modifyPin, if_pos first]
    simp [outputAt, Node.modifyFirst, Pin.withValue]
  rw [SubGraph.modifyPin, unplayed, Node.modifyFirst, if_pos has, held]
  rfl

theorem playClip_playing {output : Nat} (clip : Value) (older : output + 1 < e.nextId + 7)
    (held : e.asset.graph? id = some ⟨[outputAt output (.int64 0)], []⟩) : e.playClip id (some clip) =
      ({ e with
          asset := e.asset.modifyGraph id fun _ => playing clip output (e.nextId + 7)
          isDirty := true
          nextId := e.nextId + 16 }, some id) := by
  obtain ⟨player, spawned, same⟩ := spawn_player e clip
  let placed : Editor :=
    ({ e with nextId := e.nextId + 15 } : Editor).modifyGraph id (·.addNode (playerAt (e.nextId + 7) clip))
  have there : placed.asset.graph? id = some (unplayed clip (.int64 0) output (e.nextId + 7) []) :=
    graph_modifyGraph_self held
  have ends : ((unplayed clip (.int64 0) output (e.nextId + 7) []).pin? ⟨output + 1⟩).isSome = true :=
    pin_isSome (n := outputAt output (.int64 0)) List.mem_cons_self List.mem_cons_self
  have linked := createLinkIn_free there (unplayed_pose older) rfl ends (fun l none => nomatch none)
  have sink : (e.asset.graph? id).bind (·.outputPin?) = some ⟨output + 1⟩ := by
    rw [held]
    rfl
  have whole : (placed.asset.modifyGraph id fun g => (g.modifyPin ⟨output + 1⟩ (·.withValue .void)).addLink
      ⟨⟨e.nextId + 7 + 8⟩, ⟨e.nextId + 7 + 5⟩, ⟨output + 1⟩, PinType.pose.color⟩) =
        e.asset.modifyGraph id fun _ => playing clip output (e.nextId + 7) := by
    refine (modifyGraph_modifyGraph _ _ _ _).trans (modifyGraph_congr fun g also => ?_)
    obtain rfl := Option.some.inj (held.symm.trans also)
    exact unplayed_linked clip (.int64 0) output (e.nextId + 7)
  rw [playClip_eq, spawned]
  dsimp only
  rw [same, playerAt_pose, sink]
  dsimp only
  rw [linked]
  exact Prod.ext (congrArg (fun asset => { e with asset, isDirty := true, nextId := e.nextId + 16 }) whole) rfl

/-- In a graph of two nodes, the player of a clip feeds the output, and that is all. -/
structure Plays (clip : Value) (body : SubGraph) (output player : Node) (sink pose : Pin) (l : Link) : Prop where
  nodes : body.nodes = [output, player]
  links : body.links = [l]
  fed : output.name = "Output" ∧ output.inputs = [sink]
  blank : sink.name = "Pose" ∧ sink.value = .void
  feeds : player.name = "Animation Player" ∧ player.outputNamed? "Pose" = some pose
  plays : ∃ p, player.inputNamed? "Animation" = some p ∧ p.value = clip
  source : body.pin? l.source = some pose
  target : body.pin? l.target = some sink

/-- A graph in which a clip is played. -/
def PlaysClip (clip : Value) (body : SubGraph) : Prop :=
  ∃ output player sink pose l, Plays clip body output player sink pose l

theorem playing_plays {output player : Nat} (clip : Value) (older : output + 1 < player) :
    PlaysClip clip (playing clip output player) := by
  refine ⟨_, _, _, _, _, rfl, rfl, ⟨rfl, rfl⟩, ⟨rfl, rfl⟩, ⟨rfl, rfl⟩, ⟨_, rfl, rfl⟩, unplayed_pose older, ?_⟩
  exact pin_of_member (n := outputAt output .void) (unplayed_unique older) List.mem_cons_self List.mem_cons_self

/-! ## Promotion -/

/-- A state in place of a quick state: what joined it to transitions still does. -/
structure TakesPlace (g : SubGraph) (quick : Node) (h : SubGraph) : Prop where
  nodes : ∃ before after, g.nodes = before ++ quick :: after ∧ h.nodes = before ++ stateOf quick :: after
  links : h.links = g.links.filter fun l => !losesEnd quick l
  ends : ∀ l ∈ h.links, linkEnds h l = linkEnds g l
  transitions : ∀ l ∈ g.links, CarriesTriggers g l → l ∈ h.links

/-- What promoting a quick state of the active machine changes. -/
structure Promotes (e f : Editor) (g : SubGraph) (quick : Node) (clip : Value) : Prop where
  machine : ∃ h, f.asset.graph? e.activeOwner = some h ∧ TakesPlace g quick h
  body : ∃ k, f.asset.graph? quick.id = some k ∧ PlaysClip clip k
  others : ∀ x, x ≠ e.activeOwner → x ≠ quick.id → f.asset.graph? x = e.asset.graph? x
  owners : f.asset.owners = e.asset.owners ++ [quick.id]
  rest : f = { e with asset := { e.asset with graphs := f.asset.graphs }, isDirty := true, nextId := f.nextId }

theorem takesPlace_promoted (unique : UniqueIds g) (member : quick ∈ g.nodes) (found : g.node? quick.id = some quick)
    (distinct : (g.links.map Link.id).Nodup)
    (joined : ∀ l ∈ g.links, (g.pin? l.source).isSome = true ∧ (g.pin? l.target).isSome = true)
    (shape : stateFromQuick state quick = stateOf quick) : TakesPlace g quick (promoted g quick.id state quick) := by
  have links := promoted_links_eq state unique found distinct joined
  refine ⟨?_, links, fun l link => ?_, fun l link triggers => ?_⟩
  · rw [← shape]
    exact promoted_nodes state found
  · rw [links, List.mem_filter, Bool.not_eq_true'] at link
    exact promoted_linkEnds state found link.2
  · rw [links, List.mem_filter, Bool.not_eq_true']
    exact ⟨link, triggers_keeps unique member triggers⟩

/-- The state is found by the identity of the quick state. -/
theorem findNode_promoted (identified : Identified a) (held : a.graph? owner = some g) (member : quick ∈ g.nodes)
    (found : g.node? quick.id = some quick) (shape : stateFromQuick state quick = stateOf quick) :
    (a.modifyGraph owner (promoted · quick.id state quick)).findNode? quick.id = some (stateOf quick) := by
  obtain ⟨before, after, split, replaced⟩ := promoted_nodes state found
  rw [shape] at replaced
  have changed : (a.modifyGraph owner (promoted · quick.id state quick)).graph? owner =
      some (promoted g quick.id state quick) := by
    rw [graph_modifyGraph, if_pos rfl, held]
    rfl
  have there : stateOf quick ∈ allNodes (a.modifyGraph owner (promoted · quick.id state quick)) :=
    mem_allNodes.mpr ⟨owner, _, changed, by simp [replaced]⟩
  obtain ⟨m, look⟩ := findNode_isSome there
  obtain ⟨inside, same⟩ := findNode_spec look
  obtain ⟨place, k, holds, inK⟩ := mem_allNodes.mp inside
  refine (show _ = some m from look).trans (congrArg some ?_)
  by_cases here : place = owner
  · subst here
    obtain rfl := Option.some.inj (changed.symm.trans holds)
    have distinct := (identified_unique identified held).nodes
    rw [split, List.map_append, List.map_cons, List.nodup_middle, List.nodup_cons, ← List.map_append] at distinct
    rw [replaced, List.mem_append, List.mem_cons, or_left_comm, ← List.mem_append] at inK
    refine inK.resolve_right fun other => distinct.1 (List.mem_map.mpr ⟨m, other, same⟩)
  · rw [graph_modifyGraph, if_neg here] at holds
    have lies : Lies a place quick.id := ⟨k, holds, hasNode_iff.mpr ⟨m, inK, same⟩⟩
    exact absurd (lies_unique identified lies ⟨g, held, hasNode_iff.mpr ⟨quick, member, rfl⟩⟩) here

/-- A state that owns no graph gets one in which a clip is played. -/
theorem playClip_state (clip : Value) (nested : id ≠ .root) (missing : e.asset.graph? id = none)
    (found : e.asset.findNode? id = some n) (owns : n.isSubroutine = true) (state : n.kind = .state) :
    (e.ensureSubGraph id).playClip id (some clip) =
      ({ e with
          asset := withGraph e.asset id (playing clip (e.nextId + 1) (e.nextId + 10))
          isDirty := true
          nextId := e.nextId + 19 }, some id) := by
  rw [ensureSubGraph_state nested missing found owns state]
  have there := graph_withGraph missing ⟨[outputAt (e.nextId + 1) (.int64 0)], []⟩ id
  rw [if_pos rfl] at there
  rw [playClip_playing clip (by dsimp only; omega) there]
  dsimp only
  rw [withGraph_modifyGraph missing]

/-- The owner of a graph is no node that owns none. -/
theorem owner_apart (held : a.graph? owner = some g) (missing : a.graph? id = none) : owner ≠ id := by
  rintro rfl
  cases missing.symm.trans held

theorem node_of_member (unique : UniqueIds g) (member : n ∈ g.nodes) : g.node? n.id = some n :=
  find_unique member (by simp) fun m inside same => node_eq_of_id unique inside member (by simpa using same)

section Editors
variable (identified : Identified e.asset) (held : e.activeGraph? = some g) (member : quick ∈ g.nodes)
variable (missing : e.asset.graph? quick.id = none)
include identified held member missing

/-- The editor after a promotion: a state is in the machine, and its graph comes after all others. -/
theorem promoteQuickState_eq (rooted : e.asset.hasGraph .root = true)
    (machine : e.asset.ownerKind? e.activeOwner = some .stateMachine) (kind : quick.kind = .quickState)
    (carries : quick.inputNamed? "Animation" = some p) : ∃ state, stateFromQuick state quick = stateOf quick ∧
      e.promoteQuickState quick.id =
        ({ e with
            asset := withGraph (e.asset.modifyGraph e.activeOwner (promoted · quick.id state quick)) quick.id
              (playing p.value (e.nextId + 2) (e.nextId + 11))
            isDirty := true
            nextId := e.nextId + 20 }, some quick.id) := by
  have found : g.node? quick.id = some quick := node_of_member (identified_unique identified held) member
  obtain ⟨k, top⟩ := hasGraph_iff.mp rooted
  have nested : quick.id ≠ .root := (owner_apart top missing).symm
  have apart : quick.id ≠ e.activeOwner := (owner_apart held missing).symm
  obtain ⟨state, spawned, shape⟩ := spawn_state e quick
  refine ⟨state, shape, ?_⟩
  let turned : Editor :=
    ({ e with nextId := e.nextId + 1 } : Editor).modifyGraph e.activeOwner (promoted · quick.id state quick)
  have bare : turned.asset.graph? quick.id = none := by
    change (e.asset.modifyGraph _ _).graph? _ = none
    rw [graph_modifyGraph, if_neg apart, missing]
  have played := playClip_state p.value nested bare (findNode_promoted identified held member found shape) rfl
    (stateOf_kind quick)
  rw [promoteQuickState, activeMachine?, if_pos machine]
  dsimp only
  rw [show e.asset.graph? e.activeOwner = some g from held, Option.bind_some, found]
  dsimp only
  rw [if_neg (by simp [kind]), show e.spawn .stateMachine stateMachineCategory "State" = _ from spawned, carries]
  exact played

/-- Promoting a quick state that has a clip but no graph gives back its identity. In the machine a state has its
place, identity, entry mark and trigger pins, so that no transition loses an end. Its graph is new and plays the
clip. The top level has a graph (`rooted`) in every editor, so that the quick state does not have its identity. -/
theorem promoteQuickState_promotes (rooted : e.asset.hasGraph .root = true)
    (machine : e.asset.ownerKind? e.activeOwner = some .stateMachine) (distinct : (g.links.map Link.id).Nodup)
    (joined : ∀ l ∈ g.links, (g.pin? l.source).isSome = true ∧ (g.pin? l.target).isSome = true)
    (kind : quick.kind = .quickState) (carries : quick.inputNamed? "Animation" = some p) :
    (e.promoteQuickState quick.id).2 = some quick.id ∧ Promotes e (e.promoteQuickState quick.id).1 g quick p.value := by
  have unique := identified_unique identified held
  have apart : e.activeOwner ≠ quick.id := owner_apart held missing
  obtain ⟨state, shape, result⟩ := promoteQuickState_eq identified held member missing rooted machine kind carries
  have bare : (e.asset.modifyGraph e.activeOwner (promoted · quick.id state quick)).graph? quick.id = none := by
    rw [graph_modifyGraph, if_neg apart.symm, missing]
  have graphs := graph_withGraph bare (playing p.value (e.nextId + 2) (e.nextId + 11))
  rw [result]
  refine ⟨rfl, ⟨promoted g quick.id state quick, ?_, ?_⟩, ⟨_, (graphs quick.id).trans (if_pos rfl), ?_⟩,
    fun x notOwner notSelf => ?_, ?_, rfl⟩
  · refine (graphs e.activeOwner).trans ?_
    rw [if_neg apart, graph_modifyGraph, if_pos rfl, show e.asset.graph? e.activeOwner = some g from held]
    rfl
  · exact takesPlace_promoted unique member (node_of_member unique member) distinct joined shape
  · exact playing_plays p.value (by omega)
  · rw [graphs x, if_neg notSelf, graph_modifyGraph, if_neg notOwner]
  · exact (owners_withGraph bare _).trans (congrArg (· ++ [quick.id]) (owners_modifyGraph _ _))

end Editors

/-- A state, and a quick state that transitions join to it, with a link that will go: from the start to the clip. -/
def loopedEditor : Editor := [Edit.createNode "Animation" "State Machine", .enterNode ⟨2⟩,
    .createNode stateMachineCategory "State", .createNode stateMachineCategory "Quick State", .createTransition ⟨4⟩ ⟨9⟩,
    .createTransition ⟨9⟩ ⟨4⟩, .createLink ⟨19⟩ ⟨10⟩, .setPinValue ⟨10⟩ (.ofHandle .animation 7)].foldl Edit.apply
  (.ofAsset (.ofName "Wave" ⟨1⟩) .empty .default 1)

/-- The transitions keep their links, and only the link to the clip goes. -/
theorem looped_promotes : (loopedEditor.promoteQuickState ⟨9⟩).2 = some ⟨9⟩ ∧
    (∃ g quick clip, loopedEditor.activeGraph? = some g ∧ g.node? ⟨9⟩ = some quick ∧ clip.asHandle? = some 7 ∧
      Promotes loopedEditor (loopedEditor.promoteQuickState ⟨9⟩).1 g quick clip) ∧
    (loopedEditor.activeGraph?.map fun g => g.links.map Link.id) = some [⟨23⟩, ⟨24⟩, ⟨37⟩, ⟨38⟩, ⟨39⟩] ∧
    ((loopedEditor.promoteQuickState ⟨9⟩).1.activeGraph?.map fun g => g.links.map Link.id) =
      some [⟨23⟩, ⟨24⟩, ⟨37⟩, ⟨38⟩] := by
  have identified : Identified loopedEditor.asset := ⟨by decide +kernel, by decide +kernel⟩
  have missing : loopedEditor.asset.graph? ⟨9⟩ = none := Option.isNone_iff_eq_none.mp (by decide +kernel)
  obtain ⟨g, held⟩ : ∃ g, loopedEditor.activeGraph? = some g := Option.isSome_iff_exists.mp (by decide +kernel)
  have stands : ∀ g ∈ loopedEditor.activeGraph?, ((g.node? ⟨9⟩).map Node.kind) = some .quickState := by decide +kernel
  have links : ∀ g ∈ loopedEditor.activeGraph?, (g.links.map Link.id).Nodup ∧
      ∀ l ∈ g.links, (g.pin? l.source).isSome = true ∧ (g.pin? l.target).isSome = true := by decide +kernel
  have clip : (loopedEditor.activeGraph?.bind fun g => (g.node? ⟨9⟩).bind fun quick =>
      (quick.inputNamed? "Animation").bind (·.value.asHandle?)) = some 7 := by decide +kernel
  obtain ⟨quick, found, kind⟩ := Option.map_eq_some_iff.mp (stands g held)
  rw [held, Option.bind_some, found, Option.bind_some] at clip
  obtain ⟨p, carries, handle⟩ := Option.bind_eq_some_iff.mp clip
  have named : quick.id = ⟨9⟩ := by simpa using List.find?_some found
  have whole := promoteQuickState_promotes identified held (List.mem_of_find?_eq_some found) (named ▸ missing)
    (by decide +kernel) (by decide +kernel) (links g held).1 (links g held).2 kind carries
  rw [named] at whole
  exact ⟨whole.1, ⟨g, quick, p.value, held, found, handle, whole.2⟩, by decide +kernel, by decide +kernel⟩

end PoseGraph.PromotedStates
