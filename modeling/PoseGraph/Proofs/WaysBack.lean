import PoseGraph.Proofs.EndlessWays
import PoseGraph.Proofs.VariableChains

/-! Following local variables back, step by step. A step leads from a node of a variable to
the pin that is linked to the variable's setter, and says for itself which setter, link
and pin is meant where there are several. Lowering comes to the node at which the steps
first leave the variables, however many steps that takes, and gives up only if they
stop before or go on for ever. -/
namespace PoseGraph.WaysBack
open EndlessWays GraphDependencies Relation SubGraph VariableChains

variable {α : Type} {g : SubGraph} {n m : Node} {p q : Pin} {here there last : Node × Pin} {name : String} {hops : Nat}

/-- The first element of a list that has a property. -/
def First (has : α → Prop) (xs : List α) (x : α) : Prop :=
  ∃ front rest, xs = front ++ x :: rest ∧ has x ∧ ∀ y ∈ front, ¬has y

/-- A step back from a node of a variable, whatever pin it was come to by: the first link to
the input of the variable's first setter starts at the pin. -/
inductive StepBack (g : SubGraph) : Node × Pin → Node × Pin → Prop where
  | mk {n setter m : Node} {p input q : Pin} {l : Link} {name : String} (stands : n.variableName? = some name)
      (sets : First (fun s => s.isSetter = true ∧ s.variableName? = some name) g.nodes setter)
      (inputs : setter.inputs = [input]) (feeds : First (fun l => l.target = input.id) g.links l)
      (holder : First (fun m => ∃ q ∈ m.pins, q.id = l.source) g.nodes m)
      (start : First (fun q => q.id = l.source) m.pins q) : StepBack g (n, p) (m, q)

/-- The way back ends at a node that stands for no variable, and there is none before. -/
structure EndsAt (g : SubGraph) (here last : Node × Pin) : Prop where
  reached : ReflTransGen (StepBack g) here last
  plain : last.1.isLocalVariable = false
  first : ∀ between, ReflTransGen (StepBack g) here between → between = last ∨ between.1.isLocalVariable = true

/-- The way back stops at a variable that nothing feeds. -/
def Unfed (g : SubGraph) (here : Node × Pin) : Prop :=
  ∃ last, ReflTransGen (StepBack g) here last ∧ last.1.isLocalVariable = true ∧ Last (StepBack g) last

/-! ## Steps -/

theorem first_iff {has : α → Prop} {test : α → Bool} (tests : ∀ x, test x = true ↔ has x) {xs : List α} {x : α} :
    First has xs x ↔ xs.find? test = some x := by
  simp only [First, ← tests, List.find?_eq_some_iff_append, Bool.not_eq_true', ← Bool.not_eq_true]
  exact ⟨fun ⟨front, rest, xs, passes, before⟩ => ⟨passes, front, rest, xs, before⟩,
    fun ⟨passes, front, rest, xs, before⟩ => ⟨front, rest, xs, passes, before⟩⟩

theorem setter_inputs (sets : n.isSetter = true) : n.inputs.head? = some p ↔ n.inputs = [p] := by
  rw [Node.isSetter, Bool.and_eq_true, beq_iff_eq] at sets
  obtain ⟨input, only⟩ := List.length_eq_one_iff.mp sets.2
  simp [only]

/-- Steps go where the look-ups of lowering lead. -/
theorem stepBack_iff : StepBack g (n, p) (m, q) ↔
    ∃ name, n.variableName? = some name ∧ g.source? name = some q ∧ g.nodeOfPin? q.id = some m := by
  have setterOf (name : String) (s : Node) : (s.isSetter && s.variableName? == some name) = true ↔
      s.isSetter = true ∧ s.variableName? = some name := by rw [Bool.and_eq_true, beq_iff_eq]
  constructor
  · rintro ⟨stands, sets, inputs, feeds, holder, start⟩
    rename_i setter input l name
    have found : g.setter? name = some setter := (first_iff (setterOf name)).mp sets
    have linked := (first_iff fun l => beq_iff_eq).mp feeds
    have held : g.nodeOfPin? l.source = some m := (first_iff fun m => hasPin_iff).mp holder
    have pin : m.pin? l.source = some q := (first_iff fun q => beq_iff_eq).mp start
    have produced : g.pin? l.source = some q := by rw [pin_nodeOfPin, held, Option.bind_some, pin]
    obtain ⟨-, -, -, same, -⟩ := start
    refine ⟨name, stands, ?_, same ▸ held⟩
    simp [source?, found, inputs, producer?, linked, produced]
  · rintro ⟨name, stands, source, holder⟩
    obtain ⟨setter, found, rest⟩ := Option.bind_eq_some_iff.mp source
    obtain ⟨input, head, produced⟩ := Option.bind_eq_some_iff.mp rest
    obtain ⟨l, linked, starts⟩ := Option.bind_eq_some_iff.mp produced
    have sets := (first_iff (setterOf name)).mpr found
    obtain ⟨-, -, -, same⟩ := pin_spec starts
    rw [same] at holder
    rw [pin_nodeOfPin, holder, Option.bind_some] at starts
    obtain ⟨-, -, -, ⟨isSetter, -⟩, -⟩ := sets
    exact .mk stands ((first_iff (setterOf name)).mpr found) ((setter_inputs isSetter).mp head)
      ((first_iff fun l => beq_iff_eq).mpr linked) ((first_iff fun m => hasPin_iff).mpr holder)
      ((first_iff fun q => beq_iff_eq).mpr starts)

theorem stepBack_variable (step : StepBack g here there) : here.1.isLocalVariable = true := by
  obtain ⟨stands, -⟩ := step
  exact named_variable stands

/-- No step has a choice. -/
theorem stepBack_unique : Relator.RightUnique (StepBack g) := by
  rintro ⟨n, p⟩ ⟨m, q⟩ ⟨k, s⟩ one another
  obtain ⟨name, stands, source, holder⟩ := stepBack_iff.mp one
  obtain ⟨other, also, source', holder'⟩ := stepBack_iff.mp another
  cases stands.symm.trans also
  cases source.symm.trans source'
  cases holder.symm.trans holder'
  rfl

theorem last_of_plain (plain : here.1.isLocalVariable = false) : Last (StepBack g) here := fun there step => by
  rw [stepBack_variable step] at plain
  cases plain

/-! ## Ways -/

theorem leads_of_reaches (reached : ReflTransGen (StepBack g) here last) (plain : last.1.isLocalVariable = false) :
    LeadsBack g here.1 here.2 last.1 last.2 := by
  induction reached using ReflTransGen.head_induction_on with
  | refl => exact .here plain
  | head step rest ih =>
    obtain ⟨name, stands, source, holder⟩ := stepBack_iff.mp step
    exact .back stands source holder ih

theorem reaches_of_leads (leads : LeadsBack g n p m q) :
    ReflTransGen (StepBack g) (n, p) (m, q) ∧ m.isLocalVariable = false := by
  induction leads with
  | here plain => exact ⟨.refl, plain⟩
  | back named source holder rest ih => exact ⟨ih.1.head (stepBack_iff.mpr ⟨_, named, source, holder⟩), ih.2⟩

theorem endsAt_iff : EndsAt g here last ↔ LeadsBack g here.1 here.2 last.1 last.2 := by
  constructor
  · exact fun ends => leads_of_reaches ends.reached ends.plain
  · intro leads
    obtain ⟨reached, plain⟩ := reaches_of_leads leads
    refine ⟨reached, plain, fun between also => ?_⟩
    -- From any point on the way, the end is reached, by no step or by a step from a variable.
    rcases (reaches_last stepBack_unique reached (last_of_plain plain) also).cases_head with same | ⟨next, step, -⟩
    · exact .inl same
    · exact .inr (stepBack_variable step)

/-- More hops than there are nodes find no more. -/
theorem resolveWithin_enough (member : n ∈ g.nodes) (enough : g.nodes.length ≤ hops) :
    g.resolveWithin hops n p = g.resolve n p :=
  Option.ext fun _ => (resolveWithin_eq_some_iff member enough).trans (resolve_eq_some_iff member).symm

/-- Lowering follows a node of the graph back to exactly the point at which the steps first come
to a node that stands for no variable. It finds none just if they stop at a variable that
nothing feeds or never stop, and it would find no more if more hops were allowed. -/
theorem resolve_exact (member : n ∈ g.nodes) (p : Pin) :
    (∀ last, g.resolve n p = some last ↔ EndsAt g (n, p) last) ∧
      (g.resolve n p = none ↔ Unfed g (n, p) ∨ Endless (StepBack g) (n, p)) ∧
      ∀ hops, g.nodes.length ≤ hops → g.resolveWithin hops n p = g.resolve n p := by
  have exact_ (last : Node × Pin) : g.resolve n p = some last ↔ EndsAt g (n, p) last := by
    rw [endsAt_iff]
    exact resolve_eq_some_iff member
  refine ⟨exact_, ?_, fun hops => resolveWithin_enough member⟩
  constructor
  · intro none
    rcases last_or_endless (StepBack g) (n, p) with ⟨last, reached, stuck⟩ | endless
    · cases stands : last.1.isLocalVariable with
      | true => exact .inl ⟨last, reached, stands, stuck⟩
      | false =>
        have found := (exact_ last).mpr (endsAt_iff.mpr (leads_of_reaches reached stands))
        rw [none] at found
        cases found
    · exact .inr endless
  · intro never
    cases found : g.resolve n p with
    | none => rfl
    | some last =>
      have ends := (exact_ last).mp found
      rcases never with ⟨other, reached, stands, stuck⟩ | endless
      · cases last_unique stepBack_unique ends.reached (last_of_plain ends.plain) reached stuck
        cases ends.plain.symm.trans stands
      · exact absurd endless (not_endless stepBack_unique ends.reached (last_of_plain ends.plain))

/-- A pin that carries a pose. -/
private def posePin (id : Nat) (node : NodeId) (name : String) (kind : PinKind) : Pin :=
  { Pin.ofType name .pose kind with id := ⟨id⟩, node }

/-- A player sets one variable, which sets another one. A node further back
sets the first variable as well, from the second one. -/
def relay : SubGraph where
  nodes := [
    { Node.ofName "Player" ⟨0, 0, 0⟩ with id := ⟨1⟩, outputs := [posePin 11 ⟨1⟩ "Pose" .output] },
    { Node.ofName "Near" ⟨0, 0, 0⟩ with
      id := ⟨2⟩, category := localVariableCategory, inputs := [posePin 21 ⟨2⟩ "Near" .input] },
    { Node.ofName "Near" ⟨0, 0, 0⟩ with
      id := ⟨3⟩, category := localVariableCategory, outputs := [posePin 31 ⟨3⟩ "Near" .output] },
    { Node.ofName "Far" ⟨0, 0, 0⟩ with
      id := ⟨4⟩, category := localVariableCategory, inputs := [posePin 41 ⟨4⟩ "Far" .input] },
    { Node.ofName "Far" ⟨0, 0, 0⟩ with
      id := ⟨5⟩, category := localVariableCategory, outputs := [posePin 51 ⟨5⟩ "Far" .output] },
    { Node.ofName "Near" ⟨0, 0, 0⟩ with
      id := ⟨6⟩, category := localVariableCategory, inputs := [posePin 61 ⟨6⟩ "Near" .input] }]
  links := [⟨⟨71⟩, ⟨51⟩, ⟨61⟩, ⟨0, 0, 0⟩⟩, ⟨⟨72⟩, ⟨31⟩, ⟨41⟩, ⟨0, 0, 0⟩⟩, ⟨⟨73⟩, ⟨11⟩, ⟨21⟩, ⟨0, 0, 0⟩⟩]

/-- From the second variable the way leads over the first one to the player, although a node
behind it would close a circle. -/
theorem relay_traced : relay.nodes[4] ∈ relay.nodes ∧
    EndsAt relay (relay.nodes[4], posePin 51 ⟨5⟩ "Far" .output) (relay.nodes[0], posePin 11 ⟨1⟩ "Pose" .output) := by
  have member : relay.nodes[4] ∈ relay.nodes := List.getElem_mem _
  refine ⟨member, ((resolve_exact member _).1 _).mp ?_⟩
  rfl

end PoseGraph.WaysBack
