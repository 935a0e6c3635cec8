import PoseGraph.Compilation
import PoseGraph.Proofs.LinkOrder
import PoseGraph.Proofs.Validity

/-! Where local variables lead back to. Lowering follows them over no more variables
than the graph has nodes. That is no restriction: a way back that ends at all meets
no node twice. In an ordered graph the node at its end has a place if the one at its
beginning has. -/
namespace PoseGraph.VariableChains
open GraphDependencies LinkOrder SubGraph Validity

variable {g : SubGraph} {n m k : Node} {p s fed : Pin} {name : String} {hops : Nat}

/-- The way back from a pin of a node, through what feeds the variables on it, ends
at a pin of a node that stands for no variable. -/
inductive LeadsBack (g : SubGraph) : Node → Pin → Node → Pin → Prop where
  | here {n : Node} {p : Pin} (plain : n.isLocalVariable = false) : LeadsBack g n p n p
  | back {n k m : Node} {p fed s : Pin} {name : String} (named : n.variableName? = some name)
      (source : g.source? name = some fed) (holder : g.nodeOfPin? fed.id = some k)
      (rest : LeadsBack g k fed m s) : LeadsBack g n p m s

theorem named_variable (named : n.variableName? = some name) : n.isLocalVariable = true := by
  rw [Node.variableName?] at named
  split at named
  · assumption
  · cases named

/-! ## Steps -/

theorem resolveWithin_plain (plain : n.isLocalVariable = false) : g.resolveWithin hops n p = some (n, p) := by
  cases hops <;> simp [resolveWithin, plain]

theorem resolveWithin_zero (reads : n.isLocalVariable = true) : g.resolveWithin 0 n p = none := by
  simp [resolveWithin, reads]

theorem resolveWithin_back (named : n.variableName? = some name) (source : g.source? name = some fed)
    (holder : g.nodeOfPin? fed.id = some k) : g.resolveWithin (hops + 1) n p = g.resolveWithin hops k fed := by
  simp [resolveWithin, named_variable named, named, source, holder]

/-- What is found within some hops is where the way back ends. -/
theorem leads_of_resolveWithin (led : g.resolveWithin hops n p = some (m, s)) : LeadsBack g n p m s := by
  induction hops generalizing n p with
  | zero =>
    rw [resolveWithin] at led
    split at led
    · cases led
    · rename_i plain
      cases led
      exact .here (by simpa using plain)
  | succ hops ih =>
    rw [resolveWithin] at led
    split at led
    · obtain ⟨name, named, rest⟩ := Option.bind_eq_some_iff.mp led
      obtain ⟨fed, source, rest⟩ := Option.bind_eq_some_iff.mp rest
      obtain ⟨k, holder, led⟩ := Option.bind_eq_some_iff.mp rest
      exact .back named source holder (ih led)
    · rename_i plain
      cases led
      exact .here (by simpa using plain)

/-! ## How many hops it takes -/

/-- The way back from a node is walked within a number of hops and not within fewer. -/
def Takes (g : SubGraph) (hops : Nat) (n : Node) : Prop :=
  ∀ p fewer, (g.resolveWithin fewer n p).isSome = true ↔ hops ≤ fewer

theorem takes_unique {more : Nat} (left : Takes g hops n) (right : Takes g more n) (p : Pin) : hops = more := by
  have first := (right p hops).mp ((left p hops).mpr (Nat.le_refl _))
  have second := (left p more).mp ((right p more).mpr (Nat.le_refl _))
  omega

theorem takes_here (plain : n.isLocalVariable = false) : Takes g 0 n := by
  intro p fewer
  simp [resolveWithin_plain plain]

theorem takes_back (named : n.variableName? = some name) (source : g.source? name = some fed)
    (holder : g.nodeOfPin? fed.id = some k) (rest : Takes g hops k) : Takes g (hops + 1) n := by
  intro p fewer
  cases fewer with
  | zero => simp [resolveWithin_zero (named_variable named)]
  | succ fewer => rw [resolveWithin_back named source holder, rest fed fewer, Nat.add_le_add_iff_right]

/-- The nodes on a way back differ, since each takes fewer hops than the one before. -/
theorem path_distinct (leads : LeadsBack g n p m s) (member : n ∈ g.nodes) : ∃ hops path, Takes g hops n ∧
    path.Nodup ∧ path ⊆ g.nodes ∧ path.length = hops + 1 ∧ ∀ k ∈ path, ∃ fewer ≤ hops, Takes g fewer k := by
  induction leads with
  | @here n p plain =>
    refine ⟨0, [n], takes_here plain, List.nodup_singleton n, by simpa using member, rfl, fun k inside => ?_⟩
    rw [List.mem_singleton.mp inside]
    exact ⟨0, Nat.le_refl _, takes_here plain⟩
  | @back n k m p fed s name named source holder rest ih =>
    obtain ⟨hops, path, takes, distinct, inside, length, each⟩ := ih (nodeOfPin_spec holder).1
    have longer := takes_back named source holder takes
    refine ⟨hops + 1, n :: path, longer, List.nodup_cons.mpr ⟨fun again => ?_, distinct⟩,
      List.cons_subset.mpr ⟨member, inside⟩, by rw [List.length_cons, length], fun j met => ?_⟩
    · obtain ⟨fewer, bound, also⟩ := each n again
      have := takes_unique longer also p
      omega
    · rcases List.mem_cons.mp met with rfl | later
      · exact ⟨hops + 1, Nat.le_refl _, longer⟩
      · obtain ⟨fewer, bound, also⟩ := each j later
        exact ⟨fewer, Nat.le_succ_of_le bound, also⟩

/-- There is one end at most. -/
theorem leads_unique {j : Node} {t : Pin} (left : LeadsBack g n p m s) (right : LeadsBack g n p j t) :
    m = j ∧ s = t := by
  induction left with
  | here plain =>
    cases right with
    | here => exact ⟨rfl, rfl⟩
    | back named =>
      rw [named_variable named] at plain
      cases plain
  | back named source holder rest ih =>
    cases right with
    | here plain =>
      rw [named_variable named] at plain
      cases plain
    | back named' source' holder' rest' =>
      rw [named] at named'
      cases named'
      rw [source] at source'
      cases source'
      rw [holder] at holder'
      cases holder'
      exact ih rest'

/-- As many hops as there are nodes are enough to find the end of the way back. -/
theorem resolveWithin_eq_some_iff (member : n ∈ g.nodes) (enough : g.nodes.length ≤ hops) :
    g.resolveWithin hops n p = some (m, s) ↔ LeadsBack g n p m s := by
  refine ⟨leads_of_resolveWithin, fun leads => ?_⟩
  obtain ⟨most, path, takes, distinct, inside, length, -⟩ := path_distinct leads member
  have short : path.length ≤ g.nodes.length := (List.subperm_of_subset distinct inside).length_le
  have some_ : (g.resolveWithin hops n p).isSome = true := (takes p _).mpr (by omega)
  obtain ⟨⟨j, t⟩, found⟩ := Option.isSome_iff_exists.mp some_
  obtain ⟨rfl, rfl⟩ := leads_unique leads (leads_of_resolveWithin found)
  exact found

/-- Lowering finds the end of the way back wherever there is one. -/
theorem resolve_eq_some_iff (member : n ∈ g.nodes) : g.resolve n p = some (m, s) ↔ LeadsBack g n p m s :=
  resolveWithin_eq_some_iff member (Nat.le_refl _)

theorem resolve_eq_none_iff (member : n ∈ g.nodes) : g.resolve n p = none ↔ ¬∃ m s, LeadsBack g n p m s := by
  rw [← not_iff_not, not_not, ← ne_eq, Option.ne_none_iff_exists', Prod.exists]
  exact exists_congr fun m => exists_congr fun s => resolve_eq_some_iff member

/-! ## What is at the end -/

section Ends
variable {l : Link} (unique : UniqueIds g)
include unique

theorem nodeOfPin_of_member (member : n ∈ g.nodes) (inside : p ∈ n.pins) : g.nodeOfPin? p.id = some n :=
  nodeOfPin_eq unique member (hasPin_iff.mpr ⟨p, inside, rfl⟩)

/-- The pin at which a link starts is an output of its node. -/
theorem start_output (directed : Directed g) (link : l ∈ g.links) (starts : g.pin? l.source = some p)
    (holder : g.nodeOfPin? l.source = some n) : n ∈ g.nodes ∧ p ∈ n.outputs := by
  obtain ⟨⟨m, inM, q, output, same⟩, -⟩ := directed l link
  rw [← same] at starts holder
  rw [pin_of_member unique inM (List.mem_append_right _ output)] at starts
  rw [nodeOfPin_of_member unique inM (List.mem_append_right _ output)] at holder
  cases starts
  cases holder
  exact ⟨inM, output⟩

/-- The pin at which a link ends is an input of its node. -/
theorem finish_input (directed : Directed g) (link : l ∈ g.links) (ends : g.pin? l.target = some p)
    (holder : g.nodeOfPin? l.target = some n) : n ∈ g.nodes ∧ p ∈ n.inputs := by
  obtain ⟨-, m, inM, q, input, same⟩ := directed l link
  rw [← same] at ends holder
  rw [pin_of_member unique inM (List.mem_append_left _ input)] at ends
  rw [nodeOfPin_of_member unique inM (List.mem_append_left _ input)] at holder
  cases ends
  cases holder
  exact ⟨inM, input⟩

/-- What feeds a variable is an output. -/
theorem source_output (directed : Directed g) (source : g.source? name = some fed)
    (holder : g.nodeOfPin? fed.id = some k) : k ∈ g.nodes ∧ fed ∈ k.outputs := by
  obtain ⟨setter, -, rest⟩ := Option.bind_eq_some_iff.mp source
  obtain ⟨input, -, produced⟩ := Option.bind_eq_some_iff.mp rest
  obtain ⟨l, linked, starts⟩ := Option.bind_eq_some_iff.mp produced
  obtain ⟨-, -, -, same⟩ := pin_spec starts
  exact start_output unique directed (List.mem_of_find?_eq_some linked) starts (same ▸ holder)

/-- The way back from an output ends at an output. -/
theorem leads_output (directed : Directed g) (leads : LeadsBack g n p m s) (member : n ∈ g.nodes)
    (output : p ∈ n.outputs) : m ∈ g.nodes ∧ s ∈ m.outputs ∧ m.isLocalVariable = false := by
  induction leads with
  | here plain => exact ⟨member, output, plain⟩
  | back named source holder rest ih =>
    obtain ⟨inside, fed⟩ := source_output unique directed source holder
    exact ih inside fed

end Ends

/-- Places are handed back along the way: links join nodes that both have one, and
the nodes of a variable share theirs. -/
theorem leads_sorted (unique : UniqueIds g) (directed : Directed g) (setters : OneSetter g)
    (leads : LeadsBack g.inEvaluationOrder n p m s) (member : n ∈ g.inEvaluationOrder.nodes)
    (sorted : n.isSorted = true) : m.isSorted = true := by
  induction leads with
  | here => exact sorted
  | @back n k m p fed s name named source holder rest ih =>
    obtain ⟨setter, inSetter, -, setterNamed, l, link, ends, start⟩ := source_spec source
    obtain ⟨inK, has⟩ := nodeOfPin_spec holder
    have place := ordered_twins unique member inSetter (sameVariable_iff.mpr ⟨name, named, setterNamed⟩)
    have setterSorted : setter.isSorted = true := by rwa [Node.isSorted, ← place]
    have both := (ordered_link unique directed setters link inK inSetter (start ▸ has) ends).2.1
    exact ih inK (both.mpr setterSorted)

end PoseGraph.VariableChains
