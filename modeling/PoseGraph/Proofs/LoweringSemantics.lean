import Mathlib.Data.List.Forall2
import PoseGraph.Compilation

/-! What lowering yields where it succeeds. A prototype has one runtime node for
each node that is emitted and at most one connection for each link, and every
nested prototype is the lowered graph of the node that holds it. -/
namespace PoseGraph.LoweringSemantics
open Editor

variable {α β : Type} {e : Editor} {g : SubGraph} {container : Bool} {depth : Nat}
variable {owner self : NodeId} {name : String} {p q r : Prototype} {n : Node} {l : Link}
variable {connections : List Connection} {c : Connection}

/-! ## Steps -/

section Steps
variable {x : Lowering α} {f : α → Lowering β} {a : α} {b : β}

theorem pure_ok {a b : α} : (pure a : Lowering α).result = .ok b ↔ a = b := by
  simp [pure]

theorem bind_ok : (x >>= f).result = .ok b ↔ ∃ a, x.result = .ok a ∧ (f a).result = .ok b := by
  change (x.andThen f).result = .ok b ↔ _
  rw [Lowering.andThen]
  cases x.result <;> simp

theorem mapError_ok {h : ParseError → ParseError} : (x.mapError h).result = .ok a ↔ x.result = .ok a := by
  rw [Lowering.mapError]
  cases x.result <;> simp [Except.mapError]

private theorem bind_pure_id {α : Type} (x : Lowering α) : id <$> x = x := by
  change x.andThen _ = x
  obtain ⟨result, warnings⟩ := x
  cases result <;> simp [Lowering.andThen]

private theorem pure_andThen {α β : Type} (a : α) (f : α → Lowering β) : pure a >>= f = f a := by
  change Lowering.andThen ⟨.ok a, []⟩ f = f a
  simp [Lowering.andThen]

private theorem andThen_assoc {α β γ : Type} (x : Lowering α) (f : α → Lowering β) (h : β → Lowering γ) :
    x >>= f >>= h = x >>= fun a => f a >>= h := by
  change (x.andThen f).andThen h = x.andThen fun a => (f a).andThen h
  simp only [Lowering.andThen]
  cases x.result with
  | error error => rfl
  | ok a => cases second : (f a).result <;> simp [second]

instance : LawfulMonad Lowering := .mk' Lowering bind_pure_id pure_andThen andThen_assoc

theorem map_ok {h : α → β} : (h <$> x).result = .ok b ↔ ∃ a, x.result = .ok a ∧ h a = b := by
  rw [map_eq_pure_bind, bind_ok]
  simp only [pure_ok]

/-- Lowering a list succeeds if each element can be lowered. -/
theorem mapM_ok_iff {xs : List α} {ys : List β} :
    (xs.mapM f).result = .ok ys ↔ List.Forall₂ (fun x y => (f x).result = .ok y) xs ys := by
  induction xs generalizing ys with
  | nil =>
    rw [List.mapM_nil, pure_ok, List.forall₂_nil_left_iff]
    exact eq_comm
  | cons x xs ih =>
    simp only [List.mapM_cons, bind_ok, List.forall₂_cons_left_iff, ih]
    constructor
    · rintro ⟨y, first, rest, others, whole⟩
      exact ⟨y, rest, first, others, (pure_ok.mp whole).symm⟩
    · rintro ⟨y, rest, first, others, rfl⟩
      exact ⟨y, first, rest, others, pure_ok.mpr rfl⟩

theorem bind_error {cause : ParseError} : (x >>= f).result = .error cause ↔
    x.result = .error cause ∨ ∃ a, x.result = .ok a ∧ (f a).result = .error cause := by
  change (x.andThen f).result = .error cause ↔ _
  rw [Lowering.andThen]
  cases x.result <;> simp

theorem map_error {cause : ParseError} {h : α → β} : (h <$> x).result = .error cause ↔ x.result = .error cause := by
  rw [map_eq_pure_bind, bind_error]
  simp [pure]

theorem mapError_error {cause : ParseError} {h : ParseError → ParseError} :
    (x.mapError h).result = .error cause ↔ ∃ inner, x.result = .error inner ∧ h inner = cause := by
  rw [Lowering.mapError]
  cases x.result <;> simp [Except.mapError]

/-- Lowering a list fails at one of its elements. -/
theorem mapM_error {cause : ParseError} {xs : List α} (failed : (xs.mapM f).result = .error cause) :
    ∃ x ∈ xs, (f x).result = .error cause := by
  induction xs with
  | nil =>
    rw [List.mapM_nil] at failed
    cases failed
  | cons x xs ih =>
    rw [List.mapM_cons, bind_error] at failed
    rcases failed with here | ⟨y, -, later⟩
    · exact ⟨x, List.mem_cons_self, here⟩
    · rcases bind_error.mp later with there | ⟨ys, -, none⟩
      · obtain ⟨x, inside, failed⟩ := ih there
        exact ⟨x, List.mem_cons_of_mem _ inside, failed⟩
      · cases none

end Steps

theorem each_mapped {R : α → β → Prop} {f : α → β} {xs : List α} (each : ∀ x ∈ xs, R x (f x)) :
    List.Forall₂ R xs (xs.map f) :=
  List.forall₂_map_right_iff.mpr (List.forall₂_same.mpr each)

/-- What is made of a list stems from its elements. -/
theorem origin_of_mem {R : α → β → Prop} {xs : List α} {ys : List β} {y : β}
    (each : List.Forall₂ R xs ys) (member : y ∈ ys) : ∃ x ∈ xs, R x y := by
  induction each with
  | nil => cases member
  | cons head tail ih =>
    rcases List.mem_cons.mp member with rfl | later
    · exact ⟨_, List.mem_cons_self, head⟩
    · obtain ⟨x, inside, related⟩ := ih later
      exact ⟨x, List.mem_cons_of_mem _ inside, related⟩

/-! ## Nodes and connections -/

/-- The runtime node that a node becomes. One that owns a graph holds the graph's
prototype. -/
structure Lowers (e : Editor) (depth : Nat) (n : Node) (r : RuntimeNode Prototype) : Prop where
  type : r.type = .ofName n.name
  id : r.id = n.id
  plugs : r.plugs = e.lowerPlugs n
  body : if n.isSubroutine then
      ∃ q, (e.lowerWithin depth n.id n.id n.description).result = .ok q ∧ r.subroutine = some q
    else r.subroutine = none

private theorem lowerNode_ok_iff {r : RuntimeNode Prototype} :
    (if n.isSubroutine = true then do
      let subroutine ←
        some <$> (e.lowerWithin depth n.id n.id n.description).mapError (.subroutine n.description)
      pure ⟨.ofName n.name, n.id, e.lowerPlugs n, subroutine⟩
    else do
      let subroutine ← pure none
      pure ⟨.ofName n.name, n.id, e.lowerPlugs n, subroutine⟩ :
        Lowering (RuntimeNode Prototype)).result = .ok r ↔ Lowers e depth n r := by
  by_cases isSubroutine : n.isSubroutine = true
  · simp only [isSubroutine, ↓reduceIte, bind_ok, pure_ok, map_ok, mapError_ok]
    constructor
    · rintro ⟨_, ⟨q, lowered, rfl⟩, rfl⟩
      exact ⟨rfl, rfl, rfl, by rw [if_pos isSubroutine]; exact ⟨q, lowered, rfl⟩⟩
    · rintro ⟨type, sameId, plugs, body⟩
      rw [if_pos isSubroutine] at body
      obtain ⟨q, lowered, held⟩ := body
      refine ⟨some q, ⟨q, lowered, rfl⟩, ?_⟩
      rw [← type, ← sameId, ← plugs, ← held]
  · simp only [isSubroutine, Bool.false_eq_true, ↓reduceIte, bind_ok, pure_ok]
    constructor
    · rintro ⟨_, rfl, rfl⟩
      exact ⟨rfl, rfl, rfl, by rw [if_neg isSubroutine]⟩
    · rintro ⟨type, sameId, plugs, body⟩
      rw [if_neg isSubroutine] at body
      refine ⟨none, rfl, ?_⟩
      rw [← type, ← sameId, ← plugs, ← body]

/-- The prototype of a graph, given what its nodes and links become. -/
def assembled (e : Editor) (g : SubGraph) (owner self : NodeId) (name : String)
    (nodes : List (RuntimeNode Prototype)) (connections : List Connection) : Prototype :=
  { name, id := self, skeleton := e.asset.skeleton
    inputs := if owner.isRoot then e.lowerInputs else []
    outputs := e.lowerOutputs g, variablePlugs := e.lowerVariables g, nodes, connections }

/-- Lowering a graph is lowering its emitted nodes and its links. -/
theorem lowerWithin_ok_iff : (e.lowerWithin (depth + 1) owner self name).result = .ok q ↔
    ∃ g, e.asset.graph? owner = some g ∧ ∃ nodes connections,
      List.Forall₂ (Lowers e depth) (g.nodes.filter (Node.isEmitted · (e.isContainer owner))) nodes ∧
        (e.lowerLinks g (e.isContainer owner) self).result = .ok connections ∧
        assembled e g owner self name nodes connections = q := by
  rw [lowerWithin]
  cases held : e.asset.graph? owner with
  | none => simp [Lowering.fail]
  | some g =>
    simp only [bind_ok, pure_ok, mapM_ok_iff, lowerNode_ok_iff, Option.some.injEq, exists_eq_left']
    constructor
    · rintro ⟨nodes, each, connections, lowered, same⟩
      exact ⟨nodes, connections, each, lowered, same⟩
    · rintro ⟨nodes, connections, each, lowered, same⟩
      exact ⟨nodes, each, connections, lowered, same⟩

theorem lowerWithin_zero : (e.lowerWithin 0 owner self name).result ≠ .ok q := by
  simp [lowerWithin, Lowering.fail]

/-- The connections are those of the links, in order. -/
theorem lowerLinks_ok_iff : (e.lowerLinks g container self).result = .ok connections ↔
    ∃ made, List.Forall₂ (fun l c => (e.lowerLink g container self l).result = .ok c) g.links made ∧
      made.filterMap id = connections := by
  simp only [lowerLinks, bind_ok, pure_ok, mapM_ok_iff]

/-- Each connection stems from a link. -/
theorem link_of_connection (lowered : (e.lowerLinks g container self).result = .ok connections)
    (member : c ∈ connections) : ∃ l ∈ g.links, (e.lowerLink g container self l).result = .ok (some c) := by
  obtain ⟨made, each, rfl⟩ := lowerLinks_ok_iff.mp lowered
  obtain ⟨_, inMade, rfl⟩ := List.mem_filterMap.mp member
  exact origin_of_mem (R := fun l c => (e.lowerLink g container self l).result = .ok c) each inMade

/-- A link that can get a connection: its pins exist and have one type, its nodes
have places, and it does not set a variable. -/
structure Joined (g : SubGraph) (container : Bool) (l : Link) (start : Pin) (producer : Node)
    (finish : Pin) (destination : Node) : Prop where
  starts : g.pin? l.source = some start
  produces : g.nodeOfPin? l.source = some producer
  ends : g.pin? l.target = some finish
  consumes : g.nodeOfPin? l.target = some destination
  typed : start.sameType finish = true
  placed : container = true ∨ producer.isSorted = true ∧ destination.isSorted = true
  unset : destination.isLocalVariable = false

/-- What a link's connection joins: the node to which the variables lead back, or
else the variable that the link reads. -/
theorem lowerLink_ok_some_iff : (e.lowerLink g container self l).result = .ok (some c) ↔
    ∃ start producer finish destination, Joined g container l start producer finish destination ∧
      ((g.resolve producer start = none ∧
          (e.connectVariable g self producer start destination finish).result = .ok (some c)) ∨
        ∃ m s, g.resolve producer start = some (m, s) ∧ m.name ≠ "Input Action" ∧
          connect self m s destination finish = .ok c) := by
  have ofConnect {made : Except ParseError Connection} :
      (Lowering.ofResult (made.map some)).result = .ok (some c) ↔ made = .ok c := by
    cases made <;> simp [Lowering.ofResult, Except.map]
  constructor
  · intro lowered
    rw [lowerLink] at lowered
    split at lowered
    · rename_i start producer finish destination startAt producerAt finishAt destinationAt
      split at lowered
      · cases lowered
      · rename_i typed
        split at lowered
        · cases lowered
        · rename_i placed
          split at lowered
          · cases lowered
          · rename_i consumer
            have joined : Joined g container l start producer finish destination :=
              ⟨startAt, producerAt, finishAt, destinationAt, by simpa using typed,
                by cases container <;> simp_all, by simpa using consumer⟩
            refine ⟨start, producer, finish, destination, joined, ?_⟩
            cases led : g.resolve producer start with
            | none =>
              rw [led] at lowered
              exact .inl ⟨rfl, lowered⟩
            | some end_ =>
              obtain ⟨m, s⟩ := end_
              simp only [led] at lowered
              split at lowered
              · cases lowered
              · exact .inr ⟨m, s, rfl, ‹_›, ofConnect.mp lowered⟩
    · cases lowered
    · cases lowered
  · rintro ⟨start, producer, finish, destination, joined, outcome⟩
    have placed : (!container && !(producer.isSorted && destination.isSorted)) = false := by
      rcases joined.placed with whole | ⟨left, right⟩
      · simp [whole]
      · simp [left, right]
    rw [lowerLink, joined.starts, joined.produces, joined.ends, joined.consumes]
    simp only [joined.typed, placed, joined.unset, Bool.not_true, Bool.false_eq_true, ↓reduceIte]
    rcases outcome with ⟨unfed, lowered⟩ | ⟨m, s, led, allowed, made⟩
    · rw [unfed]
      exact lowered
    · rw [led]
      simp only [allowed, ↓reduceIte]
      exact ofConnect.mpr made

/-- Runtime nodes have the identities of the nodes that are emitted. -/
theorem lowered_ids {emitted : List Node} {nodes : List (RuntimeNode Prototype)}
    (each : List.Forall₂ (Lowers e depth) emitted nodes) :
    nodes.map RuntimeNode.id = emitted.map Node.id := by
  induction each with
  | nil => rfl
  | cons head tail ih => rw [List.map_cons, List.map_cons, head.id, ih]

/-! ## Literals of variables -/

/-- The variable that a node names, with its literal. -/
def namedLiteral? (e : Editor) (g : SubGraph) (n : Node) : Option (String × Value) :=
  n.variableName?.bind fun name => (e.variableLiteral? g n name).map fun v => (name, v)

/-- Keep the first literal of each variable. -/
def addPlug (e : Editor) (plugs : List Endpoint) (named : String × Value) : List Endpoint :=
  if plugs.any fun plug => plug.id == .ofProperty named.1 then plugs
  else plugs ++ [⟨.ofProperty named.1, e.toRuntime named.2⟩]

theorem lowerVariables_eq : e.lowerVariables g = (g.nodes.filterMap (namedLiteral? e g)).foldl (addPlug e) [] := by
  rw [lowerVariables, List.foldl_filterMap]
  congr 1
  funext plugs n
  rw [← namedLiteral?]
  cases namedLiteral? e g n with
  | none => rfl
  | some named => rfl

/-! ## Whole assets -/

/-- Compilation succeeds on a valid asset that can be lowered; the session and
what was compiled before have no part in it. -/
theorem construct_ok_iff {s : CompileSession} : (e.construct s).1 = .ok p ↔
    e.validate.errors = [] ∧ e.lower.result = .ok p := by
  rw [construct]
  by_cases valid : e.validate.errors = []
  · simp only [valid, List.isEmpty_nil, ↓reduceIte, true_and]
    cases e.lower.result <;> simp [Except.mapError]
  · have errors : e.validate.errors.isEmpty = false := by simpa using valid
    simp [errors, valid]

theorem compile_ok_iff {s : CompileSession} : (e.compile s).2.1 = .ok p ↔
    e.sort.validate.errors = [] ∧ e.sort.lower.result = .ok p := by
  rw [← construct_ok_iff (s := s), compile]
  cases outcome : (e.sort.construct s).1 <;> simp [outcome]

/-! ## Nested prototypes -/

/-- A prototype somewhere in the tree of another one, with the owner of the graph
from which it stems. -/
inductive Emits (p : Prototype) : NodeId → Prototype → Prop where
  | top : Emits p .root p
  | nested {owner : NodeId} {q r : Prototype} {n : RuntimeNode Prototype} (outer : Emits p owner q)
      (member : n ∈ q.nodes) (body : n.subroutine = some r) : Emits p n.id r

/-- Each prototype in the tree is a lowered graph. -/
theorem emits_lowered (lowered : (e.lowerWithin depth .root self name).result = .ok p)
    (emits : Emits p owner q) : ∃ depth id name, (e.lowerWithin depth owner id name).result = .ok q := by
  induction emits with
  | top => exact ⟨depth, self, name, lowered⟩
  | @nested owner q r n outer member body ih =>
    obtain ⟨depth, id, name, lowered⟩ := ih
    cases depth with
    | zero => exact absurd lowered lowerWithin_zero
    | succ depth =>
      obtain ⟨g, -, nodes, connections, each, -, rfl⟩ := lowerWithin_ok_iff.mp lowered
      obtain ⟨m, -, lowers⟩ := origin_of_mem each member
      have held := lowers.body
      split at held
      · obtain ⟨q, inner, same⟩ := held
        rw [body] at same
        cases same
        rw [lowers.id]
        exact ⟨depth, m.id, m.description, inner⟩
      · rw [body] at held
        cases held

end PoseGraph.LoweringSemantics
