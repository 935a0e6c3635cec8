import PoseGraph.Proofs.Navigation
import PoseGraph.Proofs.NodeCascades
import PoseGraph.Proofs.PropertyValues
import PoseGraph.Proofs.StandingNodes

/-! What becomes of the graphs when a property gets another type. In each of them the nodes that
stand for the property are cut loose before they take on the new type. What they were linked to
falls back on its own literals, and so do their other inputs. -/
namespace PoseGraph.PropertyRetyping
open AssetOrder EditOutcomes EditRuns Editor EditorSoundness GraphDependencies NamingEdits Navigation NodeCascades NodeFrames PropertyNodes
  PropertyValues StandingNodes Unlinking

variable {a : Asset} {e f : Editor} {g h : SubGraph} {m n : Node} {p : Pin} {l : Link} {v : Value}
variable {owner id : NodeId} {ids : List NodeId} {groups : List (NodeId × List NodeId)} {palette : Palette} {rests : Bool}
variable {kind : PropertyKind} {name : String} {literal : Node → Pin → Value}

/-- Whether a link has an end at a node that stands for a property. -/
def touching (kind : PropertyKind) (name : String) (g : SubGraph) (l : Link) : Bool :=
  g.nodes.any fun n => Asset.standsFor kind n name && (n.hasPin l.source || n.hasPin l.target)

/-- A graph after the property has got another type. -/
def retypedGraph (palette : Palette) (rests : Bool) (kind : PropertyKind) (name : String) (v : Value) (g : SubGraph) : SubGraph :=
  let k := unlinked palette rests (touching kind name g) g
  { k with nodes := k.nodes.map (forProperty kind name (retagged name v)) }

/-- The literal of a pin once the links of the property's nodes are gone. -/
def looseValue (e : Editor) (owner : NodeId) (kind : PropertyKind) (name : String) (g h : SubGraph) (n : Node) (p : Pin) : Value :=
  if (∃ l ∈ g.links, touching kind name g l = true) ∧ Resting e.asset owner h p.id then .int64 0
  else if p.kind = .input ∧ ∃ l ∈ g.links, touching kind name g l = true ∧ l.target = p.id then
    SubGraph.restValue (e.palette owner) n p
  else p.value

/-- What another type of a property makes of the graph of an owner. -/
structure RetypedGraph (e : Editor) (owner : NodeId) (kind : PropertyKind) (name : String) (v : Value) (g h : SubGraph) :
    Prop where
  links : h.links = g.links.filter fun l => !touching kind name g l
  nodes : h.nodes = g.nodes.map fun n =>
    forProperty kind name (retagged name v) (resettled (looseValue e owner kind name g h) n)
  standing : ∀ n ∈ g.nodes, Asset.standsFor kind n name = true → ∃ m ∈ h.nodes, m.id = n.id ∧
    m.pins.map Pin.id = n.pins.map Pin.id ∧ Asset.standsFor kind m name = true ∧
    ∀ p ∈ m.pins, p.name = name → p.type = .ofValue v ∧ p.storage = .ofValue v ∧ p.value = v
  bare : ∀ m ∈ h.nodes, Asset.standsFor kind m name = true → ∀ l ∈ h.links, m.hasPin l.source = false ∧ m.hasPin l.target = false

/-- What another type of a property makes of an asset. -/
structure Retyped (e : Editor) (kind : PropertyKind) (name : String) (v : Value) (f : Editor) : Prop where
  path : f.path = e.path
  value : (f.asset.properties kind).get? name = some v
  rest : f.asset = { e.asset.withProperties kind ((e.asset.properties kind).insert name v) with graphs := f.asset.graphs }
  owners : f.asset.owners = e.asset.owners
  graphs : ∀ owner g, e.asset.graph? owner = some g →
    ∃ h, f.asset.graph? owner = some h ∧ RetypedGraph e owner kind name v g h

/-! ## One graph -/

theorem stands_resettled (n : Node) : Asset.standsFor kind (resettled literal n) name = Asset.standsFor kind n name :=
  stands_mapPins fun _ => rfl

theorem stands_forRetagged (n : Node) :
    Asset.standsFor kind (forProperty kind name (retagged name v) n) name = Asset.standsFor kind n name := by
  rw [forProperty]
  split
  · exact stands_retagged
  · rfl

theorem pins_retagged (n : Node) : (retagged name v n).pins = n.pins.map fun p => if p.name = name then p.retag v else p :=
  pins_mapPins _ n

theorem pinIds_forRetagged (n : Node) : (forProperty kind name (retagged name v) n).pins.map Pin.id = n.pins.map Pin.id := by
  rw [forProperty]
  split
  · rw [pins_retagged, List.map_map]
    refine List.map_congr_left fun p _ => ?_
    rw [Function.comp_apply]
    split <;> rfl
  · rfl

theorem hasPin_of_pinIds (same : m.pins.map Pin.id = n.pins.map Pin.id) (pin : PinId) : m.hasPin pin = n.hasPin pin := by
  rw [Bool.eq_iff_iff, hasPin_iff, hasPin_iff, ← List.mem_map, ← List.mem_map, same]

/-- The nodes of a property among those of a graph. -/
def standing (kind : PropertyKind) (name : String) (g : SubGraph) : List NodeId :=
  (g.nodes.filter fun n => Asset.standsFor kind n name).map Node.id

theorem mem_standing (unique : UniqueIds g) (member : n ∈ g.nodes) :
    n.id ∈ standing kind name g ↔ Asset.standsFor kind n name = true := by
  constructor
  · intro listed
    obtain ⟨m, inside, same⟩ := List.mem_map.mp listed
    obtain ⟨also, stands⟩ := List.mem_filter.mp inside
    rwa [node_eq_of_id unique also member same] at stands
  · exact fun stands => List.mem_map_of_mem (List.mem_filter.mpr ⟨member, stands⟩)

theorem touching_iff : touching kind name g l = true ↔
    ∃ n ∈ g.nodes, Asset.standsFor kind n name = true ∧ (n.hasPin l.source = true ∨ n.hasPin l.target = true) := by
  simp only [touching, List.any_eq_true, Bool.and_eq_true, Bool.or_eq_true]

theorem adjoins_standing (unique : UniqueIds g) (l : Link) : adjoins (standing kind name g) g l = touching kind name g l := by
  have found (pin : PinId) (n : Node) : g.nodeOfPin? pin = some n ↔ n ∈ g.nodes ∧ n.hasPin pin = true :=
    ⟨nodeOfPin_spec, fun has => nodeOfPin_eq unique has.1 has.2⟩
  rw [Bool.eq_iff_iff, adjoins_iff, touching_iff]
  refine exists_congr fun n => ?_
  rw [found, found, ← and_or_left, and_assoc]
  refine and_congr_right fun member => ?_
  rw [mem_standing unique member, and_comm]

theorem retagProperty_standing (unique : UniqueIds g) :
    (unlinked palette rests (touching kind name g) g).retagProperty name v (standing kind name g) =
      retypedGraph palette rests kind name v g := by
  have nodes : (unlinked palette rests (touching kind name g) g).nodes.map (retaggedIn name v (standing kind name g)) =
      (unlinked palette rests (touching kind name g) g).nodes.map (forProperty kind name (retagged name v)) := by
    refine List.map_congr_left fun m inside => ?_
    obtain ⟨n, member, rfl⟩ := List.mem_map.mp inside
    have listed : n.id ∈ standing kind name g ↔ Asset.standsFor kind n name = true := mem_standing unique member
    rw [retaggedIn, forProperty, stands_resettled]
    simp only [List.contains_iff_mem]
    exact if_congr listed rfl rfl
  exact congrArg₂ SubGraph.mk nodes rfl

/-- A graph without nodes of the property stays as it is. -/
theorem retypedGraph_idle (none : ∀ n ∈ g.nodes, Asset.standsFor kind n name = false) :
    retypedGraph palette rests kind name v g = g := by
  have loose (l : Link) (_ : l ∈ g.links) : touching kind name g l = false := by
    rw [Bool.eq_false_iff, Ne, touching_iff]
    rintro ⟨n, member, stands, -⟩
    rw [none n member] at stands
    cases stands
  have nodes : g.nodes.map (forProperty kind name (retagged name v)) = g.nodes := by
    refine (List.map_congr_left fun n member => ?_).trans (List.map_id' _)
    rw [forProperty, none n member]
    rfl
  rw [retypedGraph, unlinked_idle loose]
  exact congrArg₂ SubGraph.mk nodes rfl

theorem outputPin_retypedGraph : (retypedGraph palette rests kind name v g).outputPin? =
    (unlinked palette rests (touching kind name g) g).outputPin? := by
  have same : (fun n : Node => n.name == "Output") ∘ forProperty kind name (retagged name v) = fun n => n.name == "Output" := by
    funext n
    rw [Function.comp_apply, forProperty]
    split <;> rfl
  rw [SubGraph.outputPin?, SubGraph.outputPin?, SubGraph.nodeNamed?, retypedGraph, List.find?_map, same]
  change (Option.bind (Option.map _ ((unlinked palette rests _ g).nodeNamed? "Output")) _).map _ = _
  cases (unlinked palette rests (touching kind name g) g).nodeNamed? "Output" with
  | none => rfl
  | some n =>
    rw [Option.map_some, Option.bind_some, Option.bind_some, forProperty]
    split
    · change ((n.inputs.map _).head?).map Pin.id = _
      rw [List.head?_map, Option.map_map]
      refine congrArg (n.inputs.head?.map ·) (funext fun p => ?_)
      rw [Function.comp_apply]
      split <;> rfl
    · rfl

/-- A node after its graph has lost the links of the property and the property has got another type. -/
def turned (palette : Palette) (rests : Bool) (kind : PropertyKind) (name : String) (v : Value) (g : SubGraph) (n : Node) : Node :=
  forProperty kind name (retagged name v) (resettled (cutLiteral palette rests (touching kind name g) g) n)

theorem nodes_retypedGraph : (retypedGraph palette rests kind name v g).nodes = g.nodes.map (turned palette rests kind name v g) :=
  List.map_map ..

theorem id_turned (n : Node) : (turned palette rests kind name v g n).id = n.id := by
  rw [turned, forProperty]
  split <;> rfl

theorem kind_turned (n : Node) : (turned palette rests kind name v g n).kind = n.kind := by
  rw [turned, forProperty]
  split <;> rfl

theorem stands_turned (n : Node) :
    Asset.standsFor kind (turned palette rests kind name v g n) name = Asset.standsFor kind n name :=
  (stands_forRetagged _).trans (stands_resettled n)

theorem pinIds_turned (n : Node) : (turned palette rests kind name v g n).pins.map Pin.id = n.pins.map Pin.id := by
  rw [turned, pinIds_forRetagged, resettled, pins_mapPins, List.map_map]
  rfl

/-- The pins by which a node stands for the property carry its new type and value. -/
theorem typed_turned (own : Asset.standsFor kind n name = true) (inside : p ∈ (turned palette rests kind name v g n).pins)
    (named : p.name = name) : p.type = .ofValue v ∧ p.storage = .ofValue v ∧ p.value = v := by
  rw [turned, forProperty, if_pos ((stands_resettled n).trans own), pins_retagged] at inside
  obtain ⟨q, -, rfl⟩ := List.mem_map.mp inside
  by_cases here : q.name = name
  · rw [if_pos here]
    exact ⟨rfl, rfl, rfl⟩
  · rw [if_neg here] at named
    exact absurd named here

theorem cutLiteral_eq (e : Editor) (owner : NodeId) (g : SubGraph) :
    cutLiteral (e.palette owner) (posesRest e.asset owner) (touching kind name g) g =
      looseValue e owner kind name g (retypedGraph (e.palette owner) (posesRest e.asset owner) kind name v g) := by
  have rested (pin : PinId) : Bared (posesRest e.asset owner) (touching kind name g) g pin ↔
      (∃ l ∈ g.links, touching kind name g l = true) ∧
        Resting e.asset owner (retypedGraph (e.palette owner) (posesRest e.asset owner) kind name v g) pin := by
    rw [bared_iff (e.palette owner) (posesRest e.asset owner), ← outputPin_retypedGraph]
    rfl
  funext n p
  simp only [cutLiteral, looseValue, rested]
  rfl

theorem retypedGraph_spec (e : Editor) (owner : NodeId) (g : SubGraph) :
    RetypedGraph e owner kind name v g (retypedGraph (e.palette owner) (posesRest e.asset owner) kind name v g) where
  links := rfl
  nodes := by
    rw [← cutLiteral_eq, nodes_retypedGraph]
    rfl
  standing n member own := ⟨_, nodes_retypedGraph ▸ List.mem_map_of_mem member, id_turned n, pinIds_turned n,
    (stands_turned n).trans own, fun _ inside named => typed_turned own inside named⟩
  bare := by
    intro m inside own l link
    rw [nodes_retypedGraph] at inside
    obtain ⟨n, member, rfl⟩ := List.mem_map.mp inside
    have left : l ∈ g.links.filter fun l => !touching kind name g l := link
    rw [hasPin_of_pinIds (pinIds_turned n), hasPin_of_pinIds (pinIds_turned n), ← Bool.not_eq_true, ← Bool.not_eq_true, ← not_or]
    intro ends
    have cut := touching_iff.mpr ⟨n, member, (stands_turned n).symm.trans own, ends⟩
    simp [cut] at left

/-! ## All graphs -/

theorem retyped_asset (unique : UniqueIds g) (distinct : (g.links.map Link.id).Nodup) (held : e.asset.graph? owner = some g) :
    (retyped name v e (owner, standing kind name g)).asset =
      e.asset.modifyGraph owner (retypedGraph (e.palette owner) (posesRest e.asset owner) kind name v) := by
  have removed := removeLinksIn_filter unique distinct held (adjoins (standing kind name g) g)
  rw [retyped, held, Option.map_some, Option.getD_some, Editor.modifyGraph, modifyAsset]
  dsimp only
  refine (congrArg (Asset.modifyGraph · owner _) removed).trans ?_
  rw [modifyGraph_modifyGraph]
  refine modifyGraph_congr fun g' also => ?_
  obtain rfl : g = g' := Option.some.inj (held.symm.trans also)
  rw [Function.comp_apply, unlinkedIn, unlinked_congr fun l _ => adjoins_standing unique l, retagProperty_standing unique]

theorem ownerKind_retypedGraph (a : Asset) (owner id : NodeId) :
    (a.modifyGraph owner (retypedGraph palette rests kind name v)).ownerKind? id = a.ownerKind? id := by
  refine ownerKind_modifyGraph fun g _ => ?_
  have same : (fun n : Node => n.id == id) ∘ turned palette rests kind name v g = fun n => n.id == id :=
    funext fun n => by rw [Function.comp_apply, id_turned]
  have kinds : Node.kind ∘ turned palette rests kind name v g = Node.kind := funext kind_turned
  rw [SubGraph.node?, SubGraph.node?, nodes_retypedGraph, List.find?_map, same, Option.map_map, kinds]

/-- The graph of an owner after the property has got another type in those of some owners. -/
def retypedAt (e : Editor) (kind : PropertyKind) (name : String) (v : Value) (owners : List NodeId) (owner : NodeId) (g : SubGraph) :
    SubGraph :=
  if owner ∈ owners then retypedGraph (e.palette owner) (posesRest e.asset owner) kind name v g else g

/-- One graph after the other gets the new type. Each step leaves alone the graphs of the others. -/
theorem retypedAll_asset (apart : (groups.map Prod.fst).Nodup) (kinds : ∀ id, f.asset.ownerKind? id = e.asset.ownerKind? id)
    (listed : ∀ group ∈ groups, ∃ g, f.asset.graph? group.1 = some g ∧ UniqueIds g ∧ (g.links.map Link.id).Nodup ∧
      group.2 = standing kind name g) :
    (groups.foldl (retyped name v) f).asset =
      { f.asset with graphs := f.asset.graphs.mapValues (retypedAt e kind name v (groups.map Prod.fst)) } := by
  induction groups generalizing f with
  | nil =>
    have same : f.asset.graphs.mapValues (retypedAt e kind name v []) = f.asset.graphs := by
      refine table_ext (by simp [Table.keys, Table.mapValues]) fun owner => ?_
      have idle : retypedAt e kind name v [] owner = id := funext fun g => if_neg List.not_mem_nil
      rw [get_mapValues, idle, Option.map_id, id]
    rw [List.map_nil, same]
    rfl
  | cons group groups ih =>
    obtain ⟨g, held, unique, links, ids⟩ := listed group List.mem_cons_self
    rw [List.map_cons, List.nodup_cons] at apart
    have step : (retyped name v f group).asset = f.asset.modifyGraph group.1
        (retypedGraph (e.palette group.1) (posesRest e.asset group.1) kind name v) := by
      rw [show group = (group.1, standing kind name g) from Prod.ext rfl ids, retyped_asset unique links held,
        palette_congr (kinds group.1), posesRest_congr (kinds group.1)]
    rw [List.foldl_cons, ih apart.2 (fun id => ?kinds) (fun other inside => ?listed), step]
    case kinds => rw [step, ownerKind_retypedGraph, kinds]
    case listed =>
      have differs : other.1 ≠ group.1 := fun same => apart.1 (same ▸ List.mem_map_of_mem inside)
      rw [step, graph_modifyGraph, if_neg differs]
      exact listed other (List.mem_cons_of_mem _ inside)
    refine congrArg (fun graphs => { f.asset with graphs }) (table_ext ?_ fun owner => ?_)
    · simp [Table.keys, Table.mapValues, Asset.modifyGraph, Table.modify]
    · rw [get_mapValues, get_mapValues, Asset.modifyGraph, get_modify, List.map_cons]
      by_cases here : owner = group.1
      · subst here
        have idle : retypedAt e kind name v (groups.map Prod.fst) group.1 = id := funext fun g => if_neg apart.1
        have own : retypedAt e kind name v (group.1 :: groups.map Prod.fst) group.1 =
            retypedGraph (e.palette group.1) (posesRest e.asset group.1) kind name v := funext fun g => if_pos List.mem_cons_self
        rw [if_pos rfl, idle, own, Option.map_id, id]
      · have same : retypedAt e kind name v (group.1 :: groups.map Prod.fst) owner =
            retypedAt e kind name v (groups.map Prod.fst) owner :=
          funext fun g => if_congr (by rw [List.mem_cons, or_iff_right here]) rfl rfl
        rw [if_neg here, same]

theorem propertyNodes_standing (listed : (owner, ids) ∈ a.propertyNodes kind name) :
    ∃ g, a.graph? owner = some g ∧ ids = standing kind name g := by
  obtain ⟨⟨other, g⟩, entry, shape⟩ := List.mem_filterMap.mp listed
  dsimp only at shape
  split at shape
  · cases shape
  · cases shape
    exact ⟨g, get_eq_some_iff.mpr entry, rfl⟩

/-- The graphs with nodes of the property are the only ones that change. -/
theorem retypedAt_listed (held : e.asset.graph? owner = some g) :
    retypedAt e kind name v ((e.asset.propertyNodes kind name).map Prod.fst) owner g =
      retypedGraph (e.palette owner) (posesRest e.asset owner) kind name v g := by
  rw [retypedAt]
  split
  · rfl
  · rename_i absent
    refine (retypedGraph_idle fun n member => ?_).symm
    rw [← graphOf_eq held] at member
    refine Bool.eq_false_iff.mpr fun stands => absent ?_
    obtain ⟨ids, listed, -⟩ := propertyNodes_listed member stands
    exact List.mem_map_of_mem listed

theorem changePropertyType_accepted (accepted : (e.changePropertyType kind name v).2 = true) :
    (e.changePropertyType kind name v).1 = (((e.modifyProperties kind (·.insert name v)).asset.propertyNodes kind name).foldl
      (retyped name v) (e.modifyProperties kind (·.insert name v))).invalidate := by
  obtain ⟨current, _, -, -, rfl, result⟩ := retyping_of_accepted accepted
  rw [result]
  rfl

theorem changePropertyType_asset
    (distinct : ∀ owner g, e.asset.graph? owner = some g → UniqueIds g ∧ (g.links.map Link.id).Nodup)
    (accepted : (e.changePropertyType kind name v).2 = true) : (e.changePropertyType kind name v).1.asset =
      { e.asset.withProperties kind ((e.asset.properties kind).insert name v) with
        graphs := e.asset.graphs.mapValues fun owner g => retypedGraph (e.palette owner) (posesRest e.asset owner) kind name v g } := by
  let k := e.modifyProperties kind (·.insert name v)
  have graphs : k.asset.graphs = e.asset.graphs := by cases kind <;> rfl
  have nodes : k.asset.propertyNodes kind name = e.asset.propertyNodes kind name := by
    rw [Asset.propertyNodes, Asset.propertyNodes, graphs]
  have kinds (id : NodeId) : k.asset.ownerKind? id = e.asset.ownerKind? id := by
    rw [Asset.ownerKind?, Asset.ownerKind?, Asset.findNode?, Asset.findNode?, graphs]
  have asset := retypedAll_asset (e := e) (f := k) (v := v) (propertyNodes_distinct k.asset kind name) kinds fun group inside => by
    obtain ⟨g, held, ids⟩ := propertyNodes_standing inside
    have before : e.asset.graph? group.1 = some g := by rwa [Asset.graph?, graphs] at held
    exact ⟨g, held, (distinct group.1 g before).1, (distinct group.1 g before).2, ids⟩
  rw [changePropertyType_accepted accepted]
  refine asset.trans (congrArg (fun graphs => { k.asset with graphs }) (table_ext ?_ fun owner => ?_))
  · simp [Table.keys, Table.mapValues, graphs]
  · rw [get_mapValues, get_mapValues, graphs, nodes]
    cases held : e.asset.graphs.get? owner with
    | none => rfl
    | some g => exact congrArg some (retypedAt_listed held)

/-- Changing the type of a property changes all its nodes, and else only what they were linked to. -/
theorem changePropertyType_retyped (distinct : ∀ owner g, e.asset.graph? owner = some g → UniqueIds g ∧ (g.links.map Link.id).Nodup)
    (kind : PropertyKind) (name : String) (v : Value) :
    ((e.changePropertyType kind name v).2 = false → (e.changePropertyType kind name v).1 = e) ∧
      ((e.changePropertyType kind name v).2 = true → Retyped e kind name v (e.changePropertyType kind name v).1) := by
  refine ⟨fun rejected => ?_, fun accepted => ?_⟩
  · rw [changePropertyType] at rejected ⊢
    split
    · rfl
    · rename_i found
      simp only [found] at rejected
      split
      · rfl
      · rename_i differs
        simp [differs] at rejected
  · have asset := changePropertyType_asset distinct accepted
    exact {
      path := (abides_changePropertyType e kind name v).path
      value := by rw [value_changePropertyType accepted, if_pos ⟨rfl, rfl⟩]
      rest := by rw [asset]
      owners := by
        rw [asset]
        simp [Asset.owners, Table.keys, Table.mapValues]
      graphs := by
        intro owner g held
        refine ⟨_, ?_, retypedGraph_spec e owner g⟩
        rw [asset, Asset.graph?, get_mapValues, show e.asset.graphs.get? owner = some g from held, Option.map_some] }

theorem distinct_of_entries (entries : ∀ entry ∈ a.graphs.entries, (entry.2.nodes.map Node.id).Nodup ∧
    ((entry.2.nodes.flatMap Node.pins).map Pin.id).Nodup ∧ (entry.2.links.map Link.id).Nodup) (owner : NodeId) (g : SubGraph)
    (held : a.graph? owner = some g) : UniqueIds g ∧ (g.links.map Link.id).Nodup := by
  obtain ⟨nodes, pins, links⟩ := entries (owner, g) (get_eq_some_iff.mp held)
  exact ⟨⟨nodes, pins⟩, links⟩

/-- A local variable that feeds an addition. -/
def addingEditor : Editor := [Edit.addProperty .localVariable (.float32 0), .spawnLocalVariable "New Variable" true,
  .createNode "Math" "Add (Float)", .createLink ⟨3⟩ ⟨8⟩].foldl Edit.apply (.ofAsset (.ofName "Wave" ⟨1⟩) .empty .default 1)

/-- As an integer, the variable feeds the addition no more. -/
theorem changePropertyType_retyped_adding :
    (∀ owner g, addingEditor.asset.graph? owner = some g → UniqueIds g ∧ (g.links.map Link.id).Nodup) ∧
    (addingEditor.changePropertyType .localVariable "New Variable" (.int32 1)).2 = true ∧
    Retyped addingEditor .localVariable "New Variable" (.int32 1)
      (addingEditor.changePropertyType .localVariable "New Variable" (.int32 1)).1 ∧
    (addingEditor.activeGraph?.map fun g => g.links.map Link.target) = some [⟨8⟩] ∧
    ((addingEditor.changePropertyType .localVariable "New Variable" (.int32 1)).1.activeGraph?.map SubGraph.links) = some [] := by
  have distinct := distinct_of_entries (a := addingEditor.asset) (by decide +kernel)
  have accepted : (addingEditor.changePropertyType .localVariable "New Variable" (.int32 1)).2 = true := by decide +kernel
  exact ⟨distinct, accepted, (changePropertyType_retyped distinct _ _ _).2 accepted, by decide +kernel, by decide +kernel⟩

/-- A node of the output property X with a further input, which is linked. -/
def surplusEditor : Editor :=
  let adder := { Node.ofName "Add (Float)" ⟨0, 0, 0⟩ with
    id := ⟨10⟩, category := "Math", inputs := [], outputs := [{ Pin.output "Out" .float with id := ⟨13⟩, node := ⟨10⟩ }] }
  let result := { Node.ofName "Result" ⟨0, 0, 0⟩ with
    id := ⟨20⟩, category := "Output"
    inputs := [{ Pin.input "X" .float with id := ⟨21⟩, node := ⟨20⟩ },
      { Pin.input "Y" .float with id := ⟨22⟩, node := ⟨20⟩, value := .void }] }
  .ofAsset { Asset.ofName "Untitled" ⟨1⟩ with
    outputs := .ofList [("X", .float32 0)]
    graphs := .ofList [(.root, ⟨[adder, result], [⟨⟨30⟩, ⟨13⟩, ⟨22⟩, ⟨0, 0, 0⟩⟩]⟩)] } .empty .default 100

/-- A further input of a node that stands for the property does not stay as it is: it loses its link and gets a literal. -/
theorem changePropertyType_resets_siblings :
    (∀ owner g, surplusEditor.asset.graph? owner = some g → UniqueIds g ∧ (g.links.map Link.id).Nodup) ∧
    (∀ g, surplusEditor.activeGraph? = some g → Directed g) ∧
    (surplusEditor.changePropertyType .output "X" (.int32 1)).2 = true ∧
    ¬∀ g h, surplusEditor.activeGraph? = some g →
      (surplusEditor.changePropertyType .output "X" (.int32 1)).1.activeGraph? = some h →
      ∀ n ∈ g.nodes, Asset.standsFor .output n "X" = true → ∀ p ∈ n.pins, p.name ≠ "X" → g.outputPin? ≠ some p.id →
        h.pin? p.id = some p := by
  have directed : ∀ g ∈ surplusEditor.activeGraph?, ∀ l ∈ g.links, (∃ m ∈ g.nodes, ∃ p ∈ m.outputs, p.id = l.source) ∧
      ∃ n ∈ g.nodes, ∃ p ∈ n.inputs, p.id = l.target := by decide +kernel
  refine ⟨distinct_of_entries (by decide +kernel), directed, by decide +kernel, fun unchanged => ?_⟩
  obtain ⟨g, before⟩ : ∃ g, surplusEditor.activeGraph? = some g := Option.isSome_iff_exists.mp (by decide +kernel)
  obtain ⟨h, after⟩ : ∃ h, (surplusEditor.changePropertyType .output "X" (.int32 1)).1.activeGraph? = some h :=
    Option.isSome_iff_exists.mp (by decide +kernel)
  have void : ∀ g ∈ surplusEditor.activeGraph?, ∃ n ∈ g.nodes, Asset.standsFor .output n "X" = true ∧ ∃ p ∈ n.pins,
      p.name ≠ "X" ∧ g.outputPin? ≠ some p.id ∧ p.id = ⟨22⟩ ∧ p.value.isVoid = true := by decide +kernel
  have filled : ∀ h ∈ (surplusEditor.changePropertyType .output "X" (.int32 1)).1.activeGraph?, ∀ q ∈ h.pin? ⟨22⟩,
      q.value.isVoid = false := by decide +kernel
  obtain ⟨n, member, stands, p, inside, other, apart, here, empty⟩ := void g before
  have same := unchanged g h before after n member stands p inside other apart
  rw [here] at same
  rw [filled h after p same] at empty
  cases empty

end PoseGraph.PropertyRetyping
