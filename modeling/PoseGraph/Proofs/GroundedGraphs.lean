import Mathlib.Data.Fintype.EquivFin
import Mathlib.Data.Set.Finite.List
import Mathlib.Order.WellFounded
import PoseGraph.Proofs.Nesting
import PoseGraph.Proofs.Unlinking

/-! Which graphs are left when those without an owner are collected. Where nesting does
not loop, these are the graphs that are reached from the top level through the nodes that
own them. -/
namespace PoseGraph.GroundedGraphs
open AssetOrder Editor EditorCoherence Nesting NodeEdits Relation Unlinking

variable {a b : Asset} {g h k : SubGraph} {n : Node} {owner outer inner id : NodeId}

/-- A node lies in the graph of an owner. -/
def Lies (a : Asset) (outer inner : NodeId) : Prop := ∃ g, a.graph? outer = some g ∧ g.hasNode inner = true

/-- No graph lies inside itself. -/
def Loopless (a : Asset) : Prop := ∀ owner, ¬TransGen (Lies a) owner owner

/-- Every graph below the top level is owned by a node. -/
def Owned (a : Asset) : Prop := ∀ owner, a.hasGraph owner = true → owner = .root ∨ ∃ outer, Lies a outer owner

/-- A graph that is reached from the top level. -/
inductive Grounded (a : Asset) : NodeId → Prop
  | top (present : a.hasGraph .root = true) : Grounded a .root
  | inner {outer owner : NodeId} (ground : Grounded a outer) (lies : Lies a outer owner)
      (present : a.hasGraph owner = true) : Grounded a owner

theorem lies_iff : Lies a outer inner ↔ ∃ type, Holds a outer inner type := by
  constructor
  · rintro ⟨g, held, has⟩
    obtain ⟨n, member, same⟩ := List.any_eq_true.mp has
    exact ⟨n.type, g, held, n, member, beq_iff_eq.mp same, rfl⟩
  · rintro ⟨type, g, held, n, member, rfl, -⟩
    exact ⟨g, held, List.any_eq_true.mpr ⟨n, member, beq_self_eq_true _⟩⟩

theorem lies_hasGraph (lies : Lies a outer inner) : a.hasGraph outer = true := by
  obtain ⟨g, held, -⟩ := lies
  exact hasGraph_iff.mpr ⟨g, held⟩

theorem grounded_hasGraph (grounded : Grounded a owner) : a.hasGraph owner = true := by
  cases grounded with
  | top present => exact present
  | inner _ _ present => exact present

theorem grounded_reached (grounded : Grounded a owner) : ReflTransGen (Lies a) .root owner := by
  induction grounded with
  | top => exact .refl
  | inner _ lies _ ih => exact ih.tail lies

theorem loopless_of_lies (loopless : Loopless a) (lies : ∀ outer inner, Lies b outer inner → Lies a outer inner) :
    Loopless b :=
  fun owner loop => loopless owner (TransGen.mono lies owner owner loop)

/-- Where nesting does not loop, one comes to an end by going outwards. -/
theorem wellFounded_of_loopless (loopless : Loopless a) :
    WellFounded fun x y : { owner // owner ∈ a.graphs.keys } => TransGen (Lies a) x.1 y.1 := by
  have finite : Finite { owner // owner ∈ a.graphs.keys } := (List.finite_toSet a.graphs.keys).to_subtype
  have transitive : IsTrans { owner // owner ∈ a.graphs.keys } fun x y => TransGen (Lies a) x.1 y.1 :=
    ⟨fun _ _ _ first second => first.trans second⟩
  have irreflexive : Std.Irrefl fun x y : { owner // owner ∈ a.graphs.keys } => TransGen (Lies a) x.1 y.1 :=
    ⟨fun x => loopless x.1⟩
  exact Finite.wellFounded_of_trans_of_irrefl _

/-- Where every graph has an owner and nesting does not loop, all graphs are reached from the top. -/
theorem grounded_of_owned (loopless : Loopless a) (owned : Owned a) (present : a.hasGraph owner = true) :
    Grounded a owner := by
  have listed {owner : NodeId} (present : a.hasGraph owner = true) : owner ∈ a.graphs.keys := by
    obtain ⟨g, held⟩ := hasGraph_iff.mp present
    exact List.mem_map_of_mem (get_eq_some_iff.mp held)
  have below := wellFounded_of_loopless loopless
  have all (x : { owner // owner ∈ a.graphs.keys }) : a.hasGraph x.1 = true → Grounded a x.1 := by
    induction x using below.induction with
    | _ x ih =>
      intro present
      rcases owned x.1 present with top | ⟨outer, lies⟩
      · exact top ▸ .top (top ▸ present)
      · exact .inner (ih ⟨outer, listed (lies_hasGraph lies)⟩ (.single lies) (lies_hasGraph lies)) lies present
  exact all ⟨owner, listed present⟩ present

theorem grounded_mono (lies : ∀ outer inner, Lies a outer inner → Lies b outer inner)
    (present : ∀ owner, a.hasGraph owner = true → b.hasGraph owner = true) (grounded : Grounded a owner) :
    Grounded b owner := by
  induction grounded with
  | top here => exact .top (present _ here)
  | inner _ inside here ih => exact .inner ih (lies _ _ inside) (present _ here)

/-! ## Collecting graphs -/

theorem hasGraph_collected (loopless : Loopless a) (owner : NodeId) :
    a.collectOrphans.hasGraph owner = true ↔ Grounded a owner := by
  have collected := collected_collectOrphans a
  have lies (outer inner : NodeId) (inside : Lies a.collectOrphans outer inner) : Lies a outer inner := by
    obtain ⟨g, held, has⟩ := inside
    exact ⟨g, collected.graphs outer g held, has⟩
  have present (owner : NodeId) (here : a.collectOrphans.hasGraph owner = true) : a.hasGraph owner = true := by
    obtain ⟨g, held⟩ := hasGraph_iff.mp here
    exact hasGraph_iff.mpr ⟨g, collected.graphs owner g held⟩
  constructor
  · intro here
    refine grounded_mono lies present (grounded_of_owned (loopless_of_lies loopless lies) (fun owner here => ?_) here)
    exact (collected.owned owner here).imp_right fun ⟨outer, holds⟩ => ⟨outer, lies_iff.mpr holds⟩
  · intro grounded
    induction grounded with
    | top here => exact collected.kept .root here (.inl rfl)
    | @inner outer owner _ inside here ih =>
      obtain ⟨g, held, has⟩ := inside
      obtain ⟨g', also⟩ := hasGraph_iff.mp ih
      obtain rfl : g = g' := Option.some.inj (held.symm.trans (collected.graphs outer g' also))
      exact collected.kept owner here (.inr ⟨outer, lies_iff.mp ⟨g, also, has⟩⟩)

theorem filterKeys_filterKeys {κ α : Type} (t : Table κ α) (p q : κ → Bool) :
    (t.filterKeys p).filterKeys q = t.filterKeys fun key => p key && q key := by
  have entries : ((t.entries.filter fun e => p e.1).filter fun e => q e.1) = t.entries.filter fun e => p e.1 && q e.1 := by
    rw [List.filter_filter]
    exact List.filter_congr fun e _ => Bool.and_comm _ _
  simp only [Table.filterKeys, entries]

/-- The asset with only some of its graphs. -/
def restricted (a : Asset) (kept : NodeId → Bool) : Asset := { a with graphs := a.graphs.filterKeys kept }

theorem collected_restricted (a : Asset) : ∃ kept, a.collectOrphans = restricted a kept := by
  have rounds (count : Nat) (a : Asset) : ∃ kept, Asset.collectOrphans.go count a = restricted a kept := by
    have all (a : Asset) : a = restricted a fun _ => true := by
      have entries : (a.graphs.entries.filter fun _ => true) = a.graphs.entries := List.filter_true _
      simp only [restricted, Table.filterKeys, entries]
    induction count generalizing a with
    | zero => exact ⟨fun _ => true, all a⟩
    | succ count ih =>
      rw [Asset.collectOrphans.go]
      split
      · exact ⟨fun _ => true, all a⟩
      · obtain ⟨kept, rest⟩ := ih a.dropOrphans
        refine ⟨fun owner => (owner.isRoot || (a.findNode? owner).isSome) && kept owner, ?_⟩
        rw [rest, restricted, Asset.dropOrphans, filterKeys_filterKeys]
        rfl
  exact rounds a.graphs.size a

theorem restricted_restricted {kept other : NodeId → Bool} :
    restricted (restricted a kept) other = restricted a fun owner => kept owner && other owner := by
  rw [restricted, restricted, filterKeys_filterKeys, restricted]

theorem restricted_congr {kept other : NodeId → Bool} (same : ∀ owner, a.hasGraph owner = true → kept owner = other owner) :
    restricted a kept = restricted a other := by
  have entries : (a.graphs.entries.filter fun e => kept e.1) = a.graphs.entries.filter fun e => other e.1 :=
    List.filter_congr fun e inside => same e.1 (hasGraph_iff.mpr ⟨e.2, get_eq_some_iff.mpr inside⟩)
  simp only [restricted, Table.filterKeys, entries]

theorem hasGraph_restricted {kept : NodeId → Bool} :
    (restricted a kept).hasGraph owner = true ↔ a.hasGraph owner = true ∧ kept owner = true := by
  simp only [hasGraph_iff, Asset.graph?, get_eq_some_iff, restricted, Table.filterKeys, List.mem_filter]
  exact exists_and_right

/-- Collecting graphs leaves what is kept as it is, in its order. -/
theorem collectOrphans_eq (a : Asset) : a.collectOrphans = restricted a a.collectOrphans.hasGraph := by
  obtain ⟨kept, rest⟩ := collected_restricted a
  conv_lhs => rw [rest]
  refine restricted_congr fun owner present => ?_
  rw [Bool.eq_iff_iff, rest, hasGraph_restricted]
  exact (and_iff_right present).symm

theorem graph_collected (loopless : Loopless a) (grounded : Grounded a owner) :
    a.collectOrphans.graph? owner = a.graph? owner := by
  obtain ⟨g, held⟩ := hasGraph_iff.mp ((hasGraph_collected loopless owner).mpr grounded)
  rw [held, (collected_collectOrphans a).graphs owner g held]

/-! ## Replacing a graph -/

/-- The asset with another graph in the place of an owner's. -/
def replaced (a : Asset) (owner : NodeId) (h : SubGraph) : Asset := a.modifyGraph owner fun _ => h

theorem hasGraph_replaced (a : Asset) (owner : NodeId) (h : SubGraph) (id : NodeId) :
    (replaced a owner h).hasGraph id = a.hasGraph id := hasGraph_modifyGraph a owner _ id

theorem lies_replaced (present : a.hasGraph owner = true) : Lies (replaced a owner h) outer inner ↔
    if outer = owner then h.hasNode inner = true else Lies a outer inner := by
  rw [Lies, replaced, graph_modifyGraph]
  split
  · rename_i here
    obtain ⟨g, held⟩ := hasGraph_iff.mp present
    rw [here, held]
    simp
  · rfl

/-- Replacing a graph by one with some of its nodes. -/
theorem lies_of_replaced (fewer : ∀ id, h.hasNode id = true → k.hasNode id = true) (present : a.hasGraph owner = true)
    (lies : Lies (replaced a owner h) outer inner) : Lies (replaced a owner k) outer inner := by
  rw [lies_replaced present] at lies ⊢
  split at lies
  · rename_i here
    rw [if_pos here]
    exact fewer inner lies
  · rename_i elsewhere
    rw [if_neg elsewhere]
    exact lies

theorem grounded_of_fewer (fewer : ∀ id, h.hasNode id = true → k.hasNode id = true) (present : a.hasGraph owner = true)
    (grounded : Grounded (replaced a owner h) id) : Grounded (replaced a owner k) id :=
  grounded_mono (fun _ _ => lies_of_replaced fewer present) (fun id here => by rwa [hasGraph_replaced] at here ⊢) grounded

theorem replaced_self (held : a.graph? owner = some g) : replaced a owner g = a :=
  modifyGraph_self fun _ also => Option.some.inj (held.symm.trans also)

section Replaced
variable (loopless : Loopless a) (held : a.graph? owner = some g)
variable (fewer : ∀ id, h.hasNode id = true → g.hasNode id = true)
include held fewer

theorem lies_of_fewer (lies : Lies (replaced a owner h) outer inner) : Lies a outer inner := by
  have before := lies_of_replaced fewer (hasGraph_iff.mpr ⟨g, held⟩) lies
  rwa [replaced_self held] at before

include loopless in
theorem loopless_replaced : Loopless (replaced a owner h) :=
  loopless_of_lies loopless fun _ _ => lies_of_fewer held fewer

omit held fewer

/-- Whether an owner's graph is reached does not depend on what is in it. -/
theorem grounded_elsewhere (present : a.hasGraph owner = true) (grounded : Grounded (replaced a owner h) id) :
    Grounded (replaced a owner k) id ∨ Grounded (replaced a owner k) owner := by
  have same (id : NodeId) : (replaced a owner h).hasGraph id = true → (replaced a owner k).hasGraph id = true := by
    rw [hasGraph_replaced, hasGraph_replaced]
    exact fun here => here
  induction grounded with
  | top here => exact .inl (.top (same .root here))
  | @inner outer id _ lies here ih =>
    rcases ih with ground | settled
    · rw [lies_replaced present] at lies
      by_cases atOwner : outer = owner
      · exact .inr (atOwner ▸ ground)
      · rw [if_neg atOwner] at lies
        exact .inl (.inner ground ((lies_replaced present).mpr (by rwa [if_neg atOwner])) (same id here))
    · exact .inr settled

theorem grounded_owner (present : a.hasGraph owner = true) :
    Grounded (replaced a owner h) owner ↔ Grounded (replaced a owner k) owner :=
  ⟨fun grounded => (grounded_elsewhere present grounded).elim (fun here => here) fun here => here,
    fun grounded => (grounded_elsewhere present grounded).elim (fun here => here) fun here => here⟩

end Replaced

theorem replaced_replaced : replaced (replaced a owner h) owner k = replaced a owner k := modifyGraph_modifyGraph a owner _ _

theorem modifyGraph_restricted (a : Asset) (kept : NodeId → Bool) (owner : NodeId) (change : SubGraph → SubGraph) :
    (restricted a kept).modifyGraph owner change = restricted (a.modifyGraph owner change) kept := by
  have entries : ((a.graphs.entries.filter fun e => kept e.1).map fun e =>
      (e.1, if e.1 = owner then change e.2 else e.2)) =
        (a.graphs.entries.map fun e => (e.1, if e.1 = owner then change e.2 else e.2)).filter fun e => kept e.1 := by
    rw [List.filter_map]
    rfl
  simp only [restricted, Asset.modifyGraph, Table.modify, Table.mapValues, Table.filterKeys, entries]

theorem restricted_replaced {kept : NodeId → Bool} (dropped : kept owner = false) :
    restricted (replaced a owner h) kept = restricted a kept := by
  rw [replaced, ← modifyGraph_restricted]
  refine modifyGraph_self fun g held => ?_
  have here := (hasGraph_restricted.mp (hasGraph_iff.mpr ⟨g, held⟩)).2
  rw [dropped] at here
  cases here

section Collecting
variable (loopless : Loopless a) (held : a.graph? owner = some g)
variable (fewer : ∀ id, h.hasNode id = true → g.hasNode id = true)
include loopless held fewer

/-- If the graph of an owner is dropped, what was in it does not matter. -/
theorem collect_lost (lost : ¬Grounded (replaced a owner h) owner) (others : ∀ id, k.hasNode id = true → g.hasNode id = true) :
    (replaced a owner k).collectOrphans = (replaced a owner h).collectOrphans := by
  have present : a.hasGraph owner = true := hasGraph_iff.mpr ⟨g, held⟩
  have lostToo : ¬Grounded (replaced a owner k) owner := mt (grounded_owner present).mp lost
  have same (id : NodeId) : Grounded (replaced a owner k) id ↔ Grounded (replaced a owner h) id :=
    ⟨fun here => (grounded_elsewhere present here).resolve_right lost,
      fun here => (grounded_elsewhere present here).resolve_right lostToo⟩
  have kept : (replaced a owner k).collectOrphans.hasGraph = (replaced a owner h).collectOrphans.hasGraph := by
    funext id
    rw [Bool.eq_iff_iff, hasGraph_collected (loopless_replaced loopless held others), same,
      hasGraph_collected (loopless_replaced loopless held fewer)]
  have dropped : (replaced a owner h).collectOrphans.hasGraph owner = false := by
    rw [← Bool.not_eq_true, hasGraph_collected (loopless_replaced loopless held fewer)]
    exact lost
  rw [collectOrphans_eq (replaced a owner k), collectOrphans_eq (replaced a owner h), kept, restricted_replaced dropped,
    restricted_replaced dropped]

section Again
variable (grounded : Grounded (replaced a owner h) owner) (smaller : ∀ id, k.hasNode id = true → h.hasNode id = true)
include grounded

/-- Where the graph that is replaced has been kept, the others are as if none had been collected. -/
theorem lies_again : Lies (replaced (replaced a owner h).collectOrphans owner k) outer inner →
    Lies (replaced a owner k) outer inner := by
  intro lies
  have stays := (hasGraph_collected (loopless_replaced loopless held fewer) owner).mpr grounded
  rw [lies_replaced stays] at lies
  rw [lies_replaced (hasGraph_iff.mpr ⟨g, held⟩)]
  split at lies
  · rename_i here
    rwa [if_pos here]
  · rename_i elsewhere
    obtain ⟨g', also, has⟩ := lies
    have before := (collected_collectOrphans (replaced a owner h)).graphs outer g' also
    rw [replaced, graph_modifyGraph, if_neg elsewhere] at before
    rw [if_neg elsewhere]
    exact ⟨g', before, has⟩

include smaller

/-- What is reached after the second replacement has been reached after the first one. -/
theorem grounded_again : Grounded (replaced (replaced a owner h).collectOrphans owner k) id ↔ Grounded (replaced a owner k) id := by
  have present : a.hasGraph owner = true := hasGraph_iff.mpr ⟨g, held⟩
  have between : Loopless (replaced a owner h) := loopless_replaced loopless held fewer
  have stays := (hasGraph_collected between owner).mpr grounded
  constructor
  · refine grounded_mono (fun _ _ => lies_again loopless held fewer grounded) fun id here => ?_
    rw [hasGraph_replaced] at here ⊢
    rw [← hasGraph_replaced a owner h]
    exact grounded_hasGraph ((hasGraph_collected between id).mp here)
  · intro here
    have wider {id : NodeId} (here : Grounded (replaced a owner k) id) : Grounded (replaced a owner h) id :=
      grounded_of_fewer smaller present here
    have there {id : NodeId} (here : Grounded (replaced a owner k) id) :
        (replaced (replaced a owner h).collectOrphans owner k).hasGraph id = true := by
      rw [hasGraph_replaced]
      exact (hasGraph_collected between id).mpr (wider here)
    induction here with
    | top here => exact .top (there (.top here))
    | @inner outer id ground lies here ih =>
      refine .inner ih ?_ (there (.inner ground lies here))
      rw [lies_replaced present] at lies
      rw [lies_replaced stays]
      split at lies
      · rename_i atOwner
        rwa [if_pos atOwner]
      · rename_i elsewhere
        obtain ⟨g', also, has⟩ := lies
        rw [if_neg elsewhere]
        refine ⟨g', ?_, has⟩
        rw [graph_collected between (wider ground), replaced, graph_modifyGraph, if_neg elsewhere]
        exact also

/-- Replacing a graph by a smaller one twice, and collecting graphs in between, is doing the
last of it. -/
theorem collect_again :
    (replaced (replaced a owner h).collectOrphans owner k).collectOrphans = (replaced a owner k).collectOrphans := by
  have least : Loopless (replaced a owner k) := loopless_replaced loopless held fun id has => fewer id (smaller id has)
  have inBetween : Loopless (replaced (replaced a owner h).collectOrphans owner k) :=
    loopless_of_lies least fun _ _ => lies_again loopless held fewer grounded
  have whole : replaced (replaced a owner h).collectOrphans owner k =
      restricted (replaced a owner k) (replaced a owner h).collectOrphans.hasGraph := by
    conv_lhs => rw [collectOrphans_eq]
    rw [replaced, modifyGraph_restricted]
    exact congrArg (restricted · _) replaced_replaced
  have same (id : NodeId) : (replaced (replaced a owner h).collectOrphans owner k).collectOrphans.hasGraph id =
      (replaced a owner k).collectOrphans.hasGraph id := by
    rw [Bool.eq_iff_iff, hasGraph_collected inBetween, grounded_again loopless held fewer grounded smaller, hasGraph_collected least]
  rw [collectOrphans_eq (replaced (replaced a owner h).collectOrphans owner k), whole, restricted_restricted, ← whole,
    collectOrphans_eq (replaced a owner k)]
  refine restricted_congr fun id _ => ?_
  rw [same, Bool.eq_iff_iff, Bool.and_eq_true, and_iff_right_iff_imp]
  intro here
  rw [← hasGraph_replaced _ owner k]
  exact grounded_hasGraph ((grounded_again loopless held fewer grounded smaller).mpr ((hasGraph_collected least id).mp here))

end Again

/-- Changing what is in a graph, but not which nodes, and collecting graphs can be done in any order. -/
theorem collect_change {change : SubGraph → SubGraph} (same : ∀ id, (change h).hasNode id = h.hasNode id) :
    (replaced a owner h).collectOrphans.modifyGraph owner change = (replaced a owner (change h)).collectOrphans := by
  have present : a.hasGraph owner = true := hasGraph_iff.mpr ⟨g, held⟩
  have alsoFewer (id : NodeId) (has : (change h).hasNode id = true) : g.hasNode id = true := fewer id (same id ▸ has)
  have kept : (replaced a owner h).collectOrphans.hasGraph = (replaced a owner (change h)).collectOrphans.hasGraph := by
    funext id
    rw [Bool.eq_iff_iff, hasGraph_collected (loopless_replaced loopless held fewer),
      hasGraph_collected (loopless_replaced loopless held alsoFewer)]
    exact ⟨grounded_of_fewer (fun id has => (same id).symm ▸ has) present,
      grounded_of_fewer (fun id has => same id ▸ has) present⟩
  have inside : (replaced a owner h).modifyGraph owner change = replaced a owner (change h) :=
    modifyGraph_modifyGraph a owner _ _
  rw [collectOrphans_eq (replaced a owner h), modifyGraph_restricted, inside, kept, ← collectOrphans_eq]

end Collecting

end PoseGraph.GroundedGraphs
