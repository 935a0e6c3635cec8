import PoseGraph.Editor.Properties

/-! What edits come to. Each leaves the editor as it is, or is made up of smaller changes. An outcome holds all
that has been checked on the way to it, so that the checks are looked at here and nowhere else. -/
namespace PoseGraph.EditOutcomes
open Editor

variable {e f : Editor} {n : Node} {palette : Palette} {category name : String}

/-! ## New nodes -/

/-- A node is spawned from its template, and draws identities. -/
theorem template_of_spawn (spawn : e.spawn palette category name = some (n, f)) :
    ∃ template, palette.template? category name = some template ∧
      n = ({ template with category }.withFreshIds (e.nextId + template.pins.length)).1 ∧
      f = { e with nextId := e.nextId + template.pins.length + 1 + template.pins.length } := by
  obtain ⟨made, copied, whole⟩ := Option.map_eq_some_iff.mp spawn
  obtain ⟨template, found, rfl⟩ := Option.map_eq_some_iff.mp copied
  obtain ⟨rfl, rfl⟩ := Prod.mk.inj whole
  exact ⟨template, found, rfl, rfl⟩

/-- Spawning a node changes nothing but which identities are left. -/
theorem spawn_rest (spawn : e.spawn palette category name = some (n, f)) : f = { e with nextId := f.nextId } := by
  obtain ⟨_, -, -, rfl⟩ := template_of_spawn spawn
  rfl

theorem spawn_asset (spawn : e.spawn palette category name = some (n, f)) : f.asset = e.asset := by
  rw [spawn_rest spawn]

theorem spawn_isDirty (spawn : e.spawn palette category name = some (n, f)) : f.isDirty = e.isDirty := by
  rw [spawn_rest spawn]

theorem spawn_more (spawn : e.spawn palette category name = some (n, f)) : e.nextId ≤ f.nextId := by
  obtain ⟨template, -, -, rfl⟩ := template_of_spawn spawn
  dsimp only
  omega

/-- The first node of a graph is an output. A state machine begins with none. -/
theorem seed_spawn {kind : NodeKind} (seeded : e.seed? kind = some (n, f)) : kind ≠ .stateMachine ∧
    ∃ graph category, e.spawn (.ofKind graph) category "Output" = some (n, f) ∧ (graph = .transition → kind = .transition) := by
  rw [Editor.seed?.eq_def] at seeded
  split at seeded
  · exact ⟨by decide, .transition, _, seeded, fun _ => rfl⟩
  · cases seeded
  · cases seeded
  · rename_i machine _
    exact ⟨machine, .animation, _, seeded, fun other => absurd other (by decide)⟩

/-- How a node gets its graph: the node owns graphs, but does not have one yet. -/
structure Opening (e : Editor) (id : NodeId) (n : Node) : Prop where
  nested : id.isRoot = false
  absent : e.asset.hasGraph id = false
  found : e.asset.findNode? id = some n
  owns : n.isSubroutine = true

/-- The graph begins with an output. -/
structure Seeding (e : Editor) (id : NodeId) (n output : Node) (graph : GraphKind) (category : String) (f : Editor) : Prop where
  kind : n.kind ≠ .stateMachine
  spawn : e.spawn (.ofKind graph) category "Output" = some (output, f)
  condition : graph = .transition → n.kind = .transition
  result : e.ensureSubGraph id = f.modifyAsset fun a => (a.ensureGraph id).modifyGraph id (·.addNode output)

theorem Opening.outcome {id : NodeId} (opening : Opening e id n) :
    e.seed? n.kind = none ∧ e.ensureSubGraph id = e.modifyAsset (·.ensureGraph id) ∨
      ∃ output graph category f, Seeding e id n output graph category f := by
  obtain ⟨nested, absent, found, owns⟩ := opening
  cases seeded : e.seed? n.kind with
  | none => exact .inl ⟨rfl, by simp [ensureSubGraph, nested, absent, found, owns, seeded]⟩
  | some begun =>
    obtain ⟨output, f⟩ := begun
    obtain ⟨kind, graph, category, spawn, condition⟩ := seed_spawn seeded
    exact .inr ⟨output, graph, category, f, kind, spawn, condition,
      by simp [ensureSubGraph, nested, absent, found, owns, seeded]⟩

theorem ensureSubGraph_cases (e : Editor) (id : NodeId) : e.ensureSubGraph id = e ∨ ∃ n, Opening e id n ∧
    (e.seed? n.kind = none ∧ e.ensureSubGraph id = e.modifyAsset (·.ensureGraph id) ∨
      ∃ output graph category f, Seeding e id n output graph category f) := by
  cases absent : id.isRoot || e.asset.hasGraph id with
  | true => exact .inl (by rw [ensureSubGraph, absent, if_pos rfl])
  | false =>
    obtain ⟨nested, missing⟩ := Bool.or_eq_false_iff.mp absent
    cases found : e.asset.findNode? id with
    | none => exact .inl (by simp [ensureSubGraph, absent, found])
    | some n =>
      cases owns : n.isSubroutine with
      | false => exact .inl (by simp [ensureSubGraph, absent, found, owns])
      | true =>
        have opening : Opening e id n := ⟨nested, missing, found, owns⟩
        exact .inr ⟨n, opening, opening.outcome⟩

theorem createNode_cases (e : Editor) (category name : String) : e.createNode category name = (e, none) ∨
    ∃ n f, e.spawn (e.palette e.activeOwner) category name = some (n, f) ∧
      e.createNode category name = (f.addNode f.activeOwner n, some n.id) := by
  cases spawn : e.spawn (e.palette e.activeOwner) category name with
  | none => exact .inl (by rw [createNode, spawn])
  | some spawned => exact .inr ⟨spawned.1, spawned.2, rfl, by rw [createNode, spawn]⟩

/-! ## Links -/

theorem removeLinksIn_cases (e : Editor) (owner : NodeId) (ids : List LinkId) : e.removeLinksIn owner ids = (e, false) ∨
    ∃ g, e.asset.graph? owner = some g ∧ (∃ l ∈ g.links, l.id ∈ ids) ∧
      e.removeLinksIn owner ids = (e.dropLinksIn owner g (g.links.filter fun l => ids.contains l.id), true) := by
  rw [removeLinksIn]
  cases held : e.asset.graph? owner with
  | none => exact .inl rfl
  | some g =>
    dsimp only
    split
    · exact .inl rfl
    · rename_i some_
      exact .inr ⟨g, rfl, by simpa [List.filter_eq_nil_iff] using some_, rfl⟩

/-- Other links into a pin are removed, if there are any, and the pin stays void. -/
theorem displaceLinks_cases (e : Editor) (owner : NodeId) (pin : PinId) (kept : LinkId) : e.displaceLinks owner pin kept = e ∨
    ∃ ids, e.displaceLinks owner pin kept =
      (e.removeLinksIn owner ids).1.modifyGraph owner (·.modifyPin pin (·.withValue .void)) := by
  rw [displaceLinks]
  split
  · exact .inl rfl
  · dsimp only
    split
    · exact .inl rfl
    · exact .inr ⟨_, rfl⟩

theorem removeDeadLinks_cases (e : Editor) (owner id : NodeId) : e.removeDeadLinks owner id = e ∨
    ∃ g, e.asset.graph? owner = some g ∧ e.removeDeadLinks owner id = e.dropLinksIn owner g (g.deadLinks id) := by
  rw [removeDeadLinks]
  cases held : e.asset.graph? owner with
  | none => exact .inl rfl
  | some g =>
    dsimp only
    split
    · exact .inl rfl
    · exact .inr ⟨g, rfl, rfl⟩

/-- A literal is set, and a quick state gets the label of its clip. -/
theorem setPinValue_cases (e : Editor) (pin : PinId) (v : Value) : e.setPinValue pin v = (e, false) ∨
    ∃ f, f = (e.modifyGraph e.activeOwner (·.modifyPin pin (·.withValue v))).invalidate ∧
      (e.setPinValue pin v = (f, true) ∨ ∃ id label,
        e.setPinValue pin v = (f.modifyGraph e.activeOwner (·.modifyNode id ({ · with description := label })), true)) := by
  rw [setPinValue]
  dsimp only
  split
  · exact .inl rfl
  · refine .inr ⟨_, rfl, ?_⟩
    split
    · split
      · exact .inr ⟨_, _, rfl⟩
      · exact .inl rfl
    · exact .inl rfl

/-! ## Properties -/

/-- A property that is there gets a value of another type, and then its nodes do, which lose their links. -/
structure Retyping (e : Editor) (kind : PropertyKind) (name : String) (v current : Value) (f : Editor) : Prop where
  found : (e.asset.properties kind).get? name = some current
  differs : current.sameType v = false
  moved : f = e.modifyProperties kind (·.insert name v)
  result : e.changePropertyType kind name v = (((f.asset.propertyNodes kind name).foldl (fun e group =>
    (e.removeLinksIn group.1 (((e.asset.graph? group.1).map (·.linksOfNodes group.2)).getD [])).1.modifyGraph group.1
      (·.retagProperty name v group.2)) f).invalidate, true)

theorem changePropertyType_cases (e : Editor) (kind : PropertyKind) (name : String) (v : Value) :
    e.changePropertyType kind name v = (e, false) ∨ ∃ current f, Retyping e kind name v current f := by
  cases found : (e.asset.properties kind).get? name with
  | none => exact .inl (by rw [changePropertyType, found])
  | some current =>
    cases same : current.sameType v with
    | true => exact .inl (by simp [changePropertyType, found, same])
    | false => exact .inr ⟨current, _, found, same, rfl, by simp [changePropertyType, found, same]⟩

theorem retyping_of_accepted {kind : PropertyKind} {v : Value} (accepted : (e.changePropertyType kind name v).2 = true) :
    ∃ current f, Retyping e kind name v current f := by
  refine (changePropertyType_cases e kind name v).resolve_left fun same => ?_
  rw [same] at accepted
  cases accepted

/-- A property that is there gets another name that is free, and then its nodes do. -/
structure Renaming (e : Editor) (kind : PropertyKind) (old new : String) (v : Value) (f : Editor) : Prop where
  differ : old ≠ new
  free : e.isPropertyNameValid kind new = true
  found : (e.asset.properties kind).get? old = some v
  moved : f = e.modifyProperties kind fun ps => Properties.sorted ((ps.erase old).insert new v)
  result : e.renameProperty kind old new = (((e.asset.propertyNodes kind old).foldl (fun e group =>
    e.modifyGraph group.1 (·.renameProperty kind old new group.2)) f).invalidate, true)

/-- Otherwise nothing happens, and that is accepted only of a property that keeps its name. -/
theorem renameProperty_cases (e : Editor) (kind : PropertyKind) (old new : String) :
    e.renameProperty kind old new = (e, decide (old = new)) ∨ ∃ v f, Renaming e kind old new v f := by
  by_cases same : old = new
  · exact .inl (by rw [Editor.renameProperty, if_pos same, decide_eq_true same])
  · cases free : e.isPropertyNameValid kind new with
    | false => exact .inl (by simp [Editor.renameProperty, same, free])
    | true =>
      cases found : (e.asset.properties kind).get? old with
      | none => exact .inl (by simp [Editor.renameProperty, same, free, found])
      | some v => exact .inr ⟨v, _, same, free, found, rfl, by simp [Editor.renameProperty, same, free, found]⟩

theorem renaming_of_accepted {kind : PropertyKind} {old new : String} (different : old ≠ new)
    (accepted : (e.renameProperty kind old new).2 = true) : ∃ v f, Renaming e kind old new v f := by
  refine (renameProperty_cases e kind old new).resolve_left fun same => ?_
  rw [same] at accepted
  exact different (of_decide_eq_true accepted)

/-- How a node of a local variable is placed: it reads the variable, or writes it in a graph where no other node does. -/
structure Placing (e : Editor) (name : String) (getter : Bool) (v : Value) (inputs outputs : List Pin) (n : Node) : Prop where
  found : e.asset.localVariables.get? name = some v
  pins : getter = true ∧ inputs = [] ∧ outputs = [.ofProperty name v .output] ∨
    getter = false ∧ inputs = [.ofProperty name v .input] ∧ outputs = [] ∧ (e.activeGraph?.bind (·.setter? name)).isSome = false
  made : n = { Node.ofName name (PinType.ofValue v).color with category := localVariableCategory, inputs, outputs }
  result : e.spawnLocalVariable name getter = ((e.adopt n).2.addNode e.activeOwner (e.adopt n).1, some (e.adopt n).1.id)

theorem spawnLocalVariable_cases (e : Editor) (name : String) (getter : Bool) : e.spawnLocalVariable name getter = (e, none) ∨
    ∃ v inputs outputs n, Placing e name getter v inputs outputs n := by
  cases found : e.asset.localVariables.get? name with
  | none => exact .inl (by rw [spawnLocalVariable, found])
  | some v =>
    cases getter with
    | true => exact .inr ⟨v, [], _, _, found, .inl ⟨rfl, rfl, rfl⟩, rfl, by simp only [spawnLocalVariable, found]; rfl⟩
    | false =>
      cases written : (e.activeGraph?.bind (·.setter? name)).isSome with
      | true => exact .inl (by simp [spawnLocalVariable, found, written])
      | false =>
        refine .inr ⟨v, _, [], _, found, .inr ⟨rfl, rfl, rfl, written⟩, rfl, ?_⟩
        simp only [spawnLocalVariable, found, written]
        rfl

end PoseGraph.EditOutcomes
