import PoseGraph.Editor.Properties
import PoseGraph.Proofs.AssetOrder

/-! What holds of every node that an editor makes, and what edits leave of a
node. Nodes are copies of templates, nodes of properties or
transitions; afterwards only their names, literals and layout change. -/
namespace PoseGraph.NodeCraft
open Rearrangement

variable {α β : Type} {n m k : Node} {p : Pin} {ps : List Pin} {pin : PinId} {id : NodeId}
variable {next : Nat} {name category : String} {template : Node}

/-- How nodes are made: annotations have no pins, outputs have inputs, and no
node that owns a graph stands for a local variable. -/
structure Crafted (n : Node) : Prop where
  comment : n.isComment = true → n.pins = [] ∧ n.name = "Comment"
  output : n.name = "Output" → n.inputs ≠ []
  ordinary : n.isComment = true ∨ n.isSubroutine = true → n.category ≠ localVariableCategory

instance (n : Node) : Decidable (Crafted n) :=
  decidable_of_iff ((n.isComment = true → n.pins.isEmpty = true ∧ n.name = "Comment") ∧
      (n.name = "Output" → n.inputs.isEmpty = false) ∧
      (n.isComment = true ∨ n.isSubroutine = true → n.category ≠ localVariableCategory)) <| by
    simp only [List.isEmpty_iff, List.isEmpty_eq_false_iff]
    exact ⟨fun facts => ⟨facts.1, facts.2.1, facts.2.2⟩, fun crafted =>
      ⟨crafted.comment, crafted.output, crafted.ordinary⟩⟩

/-- The second node is the first one with other contents. Only a node of a local
variable can get another name. -/
structure Recast (n m : Node) : Prop where
  id : m.id = n.id
  category : m.category = n.category
  type : m.type = n.type
  name : m.name = n.name ∨ n.category = localVariableCategory ∧ m.name ≠ "Output"
  entry : n.isEntry = true → m.isEntry = true
  mute : n.isComment = true → n.pins = [] → m.pins = []
  inputs : n.inputs ≠ [] → m.inputs ≠ []

theorem recast_refl (n : Node) : Recast n n :=
  ⟨rfl, rfl, rfl, .inl rfl, fun marked => marked, fun _ none => none, fun some => some⟩

theorem recast_isComment (recast : Recast n m) : m.isComment = n.isComment := by
  rw [Node.isComment, Node.isComment, recast.type]

theorem recast_isSubroutine (recast : Recast n m) : m.isSubroutine = n.isSubroutine := by
  rw [Node.isSubroutine, Node.isSubroutine, recast.type]

theorem recast_trans (first : Recast n m) (second : Recast m k) : Recast n k where
  id := second.id.trans first.id
  category := second.category.trans first.category
  type := second.type.trans first.type
  name := by
    rcases second.name with same | ⟨relayed, free⟩
    · rcases first.name with before | ⟨relayed, free⟩
      · exact .inl (same.trans before)
      · exact .inr ⟨relayed, same ▸ free⟩
    · exact .inr ⟨first.category ▸ relayed, free⟩
  entry := fun marked => second.entry (first.entry marked)
  mute := fun comment none => second.mute ((recast_isComment first).trans comment) (first.mute comment none)
  inputs := fun some => second.inputs (first.inputs some)

/-- Transitions are known by category and name. -/
theorem transition_iff : n.kind = .transition ↔ n.category = stateMachineCategory ∧ n.name = "Transition" := by
  refine ⟨fun kind => ?_, fun ⟨category, name⟩ => by simp [Node.kind, category, name]⟩
  rw [Node.kind] at kind
  repeat' split at kind
  all_goals first | assumption | cases kind

theorem recast_transition (recast : Recast n m) : m.kind = .transition ↔ n.kind = .transition := by
  rw [transition_iff, transition_iff, recast.category]
  apply and_congr_right
  intro machine
  rcases recast.name with same | ⟨relayed, -⟩
  · rw [same]
  · rw [machine] at relayed
    exact absurd relayed (by decide)

theorem recast_isState (recast : Recast n m) : m.isState = n.isState := by
  have kinds : (m.kind != .transition) = (n.kind != .transition) := by
    rw [Bool.eq_iff_iff, bne_iff_ne, bne_iff_ne]
    exact not_congr (recast_transition recast)
  rw [Node.isState, Node.isState, recast_isComment recast, kinds]

theorem recast_crafted (recast : Recast n m) (crafted : Crafted n) : Crafted m where
  comment := by
    intro comment
    rw [recast_isComment recast] at comment
    obtain ⟨mute, named⟩ := crafted.comment comment
    refine ⟨recast.mute comment mute, ?_⟩
    rcases recast.name with same | ⟨relayed, -⟩
    · exact same.trans named
    · exact absurd relayed (crafted.ordinary (.inl comment))
  output := by
    intro output
    rcases recast.name with same | ⟨-, other⟩
    · exact recast.inputs (crafted.output (same ▸ output))
    · exact absurd output other
  ordinary := by
    rw [recast_isComment recast, recast_isSubroutine recast, recast.category]
    exact crafted.ordinary

/-- Only nodes of local variables change their names, and with them their kinds. -/
theorem recast_kind (recast : Recast n m) (ordinary : n.category ≠ localVariableCategory) : m.kind = n.kind := by
  rcases recast.name with same | ⟨relayed, -⟩
  · rw [Node.kind, Node.kind, recast.category, same]
  · exact absurd relayed ordinary

/-! ## Edits in place -/

/-- The second node is the first one after an edit that keeps its pins. -/
structure Edited (n m : Node) : Prop where
  id : m.id = n.id
  category : m.category = n.category
  type : m.type = n.type
  inputs : m.inputs.map Pin.id = n.inputs.map Pin.id
  outputs : m.outputs.map Pin.id = n.outputs.map Pin.id
  name : m.name = n.name ∨ n.category = localVariableCategory ∧ m.name ≠ "Output"
  entry : n.isEntry = true → m.isEntry = true

theorem edited_refl (n : Node) : Edited n n := ⟨rfl, rfl, rfl, rfl, rfl, .inl rfl, fun marked => marked⟩

theorem edited_pins (edited : Edited n m) : m.pins.map Pin.id = n.pins.map Pin.id := by
  rw [Node.pins, Node.pins, List.map_append, List.map_append, edited.inputs, edited.outputs]

theorem edited_recast (edited : Edited n m) : Recast n m where
  id := edited.id
  category := edited.category
  type := edited.type
  name := edited.name
  entry := edited.entry
  mute := by
    intro _ none
    have pins := edited_pins edited
    rw [none, List.map_nil] at pins
    exact List.map_eq_nil_iff.mp pins
  inputs := by
    intro some none
    have pins := edited.inputs
    rw [none, List.map_nil] at pins
    exact some (List.map_eq_nil_iff.mp pins.symm)

theorem edited_crafted (edited : Edited n m) (crafted : Crafted n) : Crafted m :=
  recast_crafted (edited_recast edited) crafted

theorem edited_trans (first : Edited n m) (second : Edited m k) : Edited n k where
  id := second.id.trans first.id
  category := second.category.trans first.category
  type := second.type.trans first.type
  inputs := second.inputs.trans first.inputs
  outputs := second.outputs.trans first.outputs
  name := (recast_trans (edited_recast first) (edited_recast second)).name
  entry := fun marked => second.entry (first.entry marked)

theorem map_modifyFirst {t : α → Bool} {f : α → α} {k : α → β} (keeps : ∀ x, k (f x) = k x) (xs : List α) :
    (Node.modifyFirst t f xs).map k = xs.map k := by
  induction xs with
  | nil => rfl
  | cons x xs ih =>
    rw [Node.modifyFirst]
    split
    · rw [List.map_cons, List.map_cons, keeps]
    · rw [List.map_cons, List.map_cons, ih]

/-- The first element that passes is replaced, all others stay. -/
theorem modifyFirst_eq {t : α → Bool} {f : α → α} {xs : List α} {x : α} (found : xs.find? t = some x) :
    ∃ before after, xs = before ++ x :: after ∧ Node.modifyFirst t f xs = before ++ f x :: after ∧
      ∀ y ∈ before, t y = false := by
  induction xs with
  | nil => cases found
  | cons y ys ih =>
    rw [List.find?_cons] at found
    rw [Node.modifyFirst]
    cases passes : t y with
    | true =>
      rw [passes] at found
      cases found
      exact ⟨[], ys, rfl, by simp, by simp⟩
    | false =>
      rw [passes] at found
      obtain ⟨before, after, same, modified, others⟩ := ih found
      exact ⟨y :: before, after, by rw [same, List.cons_append], by simp [modified],
        List.forall_mem_cons.mpr ⟨passes, others⟩⟩

theorem modifyFirst_none {t : α → Bool} {f : α → α} {xs : List α} (missing : ∀ x ∈ xs, t x = false) :
    Node.modifyFirst t f xs = xs := by
  induction xs with
  | nil => rfl
  | cons x xs ih =>
    rw [Node.modifyFirst, missing x List.mem_cons_self, ih fun y inside => missing y (List.mem_cons_of_mem _ inside)]
    simp

theorem forall₂_modifyFirst {R : α → α → Prop} {t : α → Bool} {f : α → α} {xs : List α} (same : ∀ x, R x x)
    (each : ∀ x ∈ xs, t x = true → R x (f x)) : List.Forall₂ R xs (Node.modifyFirst t f xs) := by
  induction xs with
  | nil => exact .nil
  | cons x xs ih =>
    rw [Node.modifyFirst]
    split
    · exact .cons (each x List.mem_cons_self ‹_›) (List.forall₂_same.mpr fun y _ => same y)
    · exact .cons (same x) (ih fun y inside => each y (List.mem_cons_of_mem _ inside))

theorem edited_modifyPin {f : Pin → Pin} (keeps : ∀ p, (f p).id = p.id) (n : Node) (pin : PinId) :
    Edited n (n.modifyPin pin f) := by
  rw [Node.modifyPin]
  split
  · exact ⟨rfl, rfl, rfl, map_modifyFirst keeps _, rfl, .inl rfl, fun marked => marked⟩
  · exact ⟨rfl, rfl, rfl, rfl, map_modifyFirst keeps _, .inl rfl, fun marked => marked⟩

theorem edited_mapPins {f : Pin → Pin} (keeps : ∀ p, (f p).id = p.id) (n : Node) : Edited n (n.mapPins f) := by
  have ids : Pin.id ∘ f = Pin.id := funext keeps
  refine ⟨rfl, rfl, rfl, ?_, ?_, .inl rfl, fun marked => marked⟩
  · rw [Node.mapPins, List.map_map, ids]
  · rw [Node.mapPins, List.map_map, ids]

/-! ## New nodes -/

/-- The numbers that a node's identity and pins take. -/
def nodeIdentities (n : Node) : List Nat := n.id.value :: n.pins.map fun p => p.id.value

theorem edited_identities (edited : Edited n m) : nodeIdentities m = nodeIdentities n := by
  have pins := congrArg (List.map PinId.value) (edited_pins edited)
  rw [List.map_map, List.map_map] at pins
  rw [nodeIdentities, nodeIdentities, edited.id]
  exact congrArg (n.id.value :: ·) pins

theorem bindFrom_identities (self : NodeId) (kind : PinKind) (next : Nat) (ps : List Pin) :
    (Pin.bindFrom self kind next ps).map (fun p => p.id.value) = List.range' next ps.length := by
  induction ps generalizing next with
  | nil => rfl
  | cons p ps ih => rw [Pin.bindFrom, List.map_cons, ih, List.length_cons, List.range'_succ]

theorem bindFrom_length (self : NodeId) (kind : PinKind) (next : Nat) (ps : List Pin) :
    (Pin.bindFrom self kind next ps).length = ps.length := by
  have lengths := congrArg List.length (bindFrom_identities self kind next ps)
  rwa [List.length_map, List.length_range'] at lengths

theorem bindFrom_names (self : NodeId) (kind : PinKind) (next : Nat) (ps : List Pin) :
    (Pin.bindFrom self kind next ps).map Pin.name = ps.map Pin.name := by
  induction ps generalizing next with
  | nil => rfl
  | cons p ps ih => rw [Pin.bindFrom, List.map_cons, ih, List.map_cons]

/-- A new node takes one number for itself and one for each pin. -/
theorem withFreshIds_identities (n : Node) (next : Nat) :
    nodeIdentities (n.withFreshIds next).1 = List.range' next (n.pins.length + 1) := by
  have pins : (n.withFreshIds next).1.pins.map (fun p => p.id.value) =
      List.range' (next + 1) (n.inputs.length + n.outputs.length) := by
    rw [← List.range'_append_1, ← bindFrom_identities ⟨next⟩ .input, ← bindFrom_identities ⟨next⟩ .output,
      ← List.map_append]
    rfl
  have first : (n.withFreshIds next).1.id.value = next := rfl
  rw [nodeIdentities, pins, first, Node.pins, List.length_append, List.range'_succ]

theorem withFreshIds_crafted (crafted : Crafted n) : Crafted (n.withFreshIds next).1 where
  comment := by
    intro comment
    obtain ⟨mute, named⟩ := crafted.comment comment
    have none : (n.withFreshIds next).1.pins.length = n.pins.length := by
      change (Pin.bindFrom _ _ _ n.inputs ++ Pin.bindFrom _ _ _ n.outputs).length = _
      rw [List.length_append, bindFrom_length, bindFrom_length, Node.pins, List.length_append]
    rw [mute] at none
    exact ⟨List.eq_nil_of_length_eq_zero none, named⟩
  output := by
    intro output none
    have lengths := bindFrom_length ⟨next⟩ .input (next + 1) n.inputs
    have empty : Pin.bindFrom ⟨next⟩ .input (next + 1) n.inputs = [] := none
    rw [empty] at lengths
    exact crafted.output output (List.eq_nil_of_length_eq_zero lengths.symm)
  ordinary := crafted.ordinary

/-! ## Templates -/

/-- What holds of a template that is registered under a category and a name. -/
structure Stocked (category name : String) (template : Node) : Prop where
  named : template.name = name
  crafted : Crafted { template with category }
  plain : ({ template with category } : Node).kind ≠ .transition
  output : name = "Output" → template.type = .simple
  state : name = "State" → template.type = .subroutine
  player : name = "Animation Player" → "Pose" ∈ template.outputs.map Pin.name

instance (category name : String) (template : Node) : Decidable (Stocked category name template) :=
  decidable_of_iff (template.name = name ∧ Crafted { template with category } ∧
      ({ template with category } : Node).kind ≠ .transition ∧ (name = "Output" → template.type = .simple) ∧
      (name = "State" → template.type = .subroutine) ∧
      (name = "Animation Player" → "Pose" ∈ template.outputs.map Pin.name))
    ⟨fun ⟨named, crafted, plain, output, state, player⟩ => ⟨named, crafted, plain, output, state, player⟩,
      fun ⟨named, crafted, plain, output, state, player⟩ => ⟨named, crafted, plain, output, state, player⟩⟩

/-- All templates are well made. -/
theorem palettes_stocked (kind : GraphKind) : ∀ shelf ∈ (Palette.ofKind kind).registry.entries,
    ∀ entry ∈ shelf.2.entries, Stocked shelf.1 entry.1 entry.2 := by
  cases kind <;> decide +kernel

theorem template_stocked {kind : GraphKind} (found : (Palette.ofKind kind).template? category name = some template) :
    Stocked category name template := by
  obtain ⟨shelf, held, entry⟩ := Option.bind_eq_some_iff.mp found
  exact palettes_stocked kind (category, shelf) (AssetOrder.get_eq_some_iff.mp held) (name, template)
    (AssetOrder.get_eq_some_iff.mp entry)

end PoseGraph.NodeCraft
