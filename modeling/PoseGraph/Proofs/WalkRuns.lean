import Mathlib.Data.List.Perm.Subperm
import PoseGraph.EvaluationOrder

/-! The walk of a graph as a relation without bounds. The functions that walk
carry a depth and a number of rounds; here both are shown to be large enough,
once, and every later fact about the walk is an induction on the relation. -/
namespace PoseGraph.WalkRuns
open Walk

/-- What a graph's dependencies satisfy, whatever its links: units partition
the nodes and are fed as a whole, and nothing leads out of the graph. -/
structure Lawful (d : Dependencies) (nodes : List NodeId) : Prop where
  self : ∀ id, id ∈ d.unit id
  shared : ∀ {id m}, m ∈ d.unit id → d.unit m = d.unit id
  shared_feeders : ∀ {id m}, m ∈ d.unit id → d.feeders m = d.feeders id
  setterless_unfed : ∀ {id}, d.isSetterless id = true → d.feeders id = []
  distinct : ∀ id, (d.unit id).Nodup
  units_inside : ∀ {id}, id ∈ nodes → ∀ m ∈ d.unit id, m ∈ nodes
  feeders_inside : ∀ id, ∀ f ∈ d.feeders id, f ∈ nodes
  consumers_inside : ∀ id, ∀ c ∈ d.consumers id, c ∈ nodes

/-- Walking from nodes in order, with a stack of nodes being walked. A node
that may be entered puts its unit on the stack for its feeders' walk. -/
inductive Run (d : Dependencies) : List NodeId → Walk → List NodeId → Walk → Prop where
  | done {stack : List NodeId} {w : Walk} : Run d stack w [] w
  | skip {stack : List NodeId} {w : Walk} {id : NodeId} {ids : List NodeId} {w' : Walk}
      (barred : w.canEnter d stack id = false) (rest : Run d stack w ids w') :
      Run d stack w (id :: ids) w'
  | enter {stack : List NodeId} {w : Walk} {id : NodeId} {mid : Walk} {ids : List NodeId} {w' : Walk}
      (free : w.canEnter d stack id = true)
      (inner : Run d (d.unit id ++ stack) w (d.feeders id) mid)
      (rest : Run d stack (mid.placeUnit d id) ids w') : Run d stack w (id :: ids) w'

/-- Working off the queue, each entry as a walk of its own. -/
inductive Drained (d : Dependencies) : Walk → Walk → Prop where
  | idle {w : Walk} (empty : w.pending = []) : Drained d w w
  | pop {w : Walk} {id : NodeId} {rest : List NodeId} {mid w' : Walk} (queue : w.pending = id :: rest)
      (run : Run d [] { w with pending := rest } [id] mid) (more : Drained d mid w') : Drained d w w'

variable {d : Dependencies} {nodes stack ids rest : List NodeId} {w w' mid : Walk}
variable {id x m c : NodeId}

theorem can_enter_iff : w.canEnter d stack id = true ↔
    w.index? id = none ∧ ∀ m ∈ d.unit id, m ∉ stack := by
  simp [canEnter, Option.isNone_iff_eq_none]

/-! ## Placing a unit -/

/-- The index that a unit gets. -/
def unitIndex (d : Dependencies) (w : Walk) (id : NodeId) : Nat :=
  if d.isSetterless id then 0 else w.next

private theorem index_place (w : Walk) (d : Dependencies) (i : Nat) (id x : NodeId) :
    (w.place d i id).index? x = if x = id then some i else w.index? x := by
  by_cases same : x = id
  · simp [place, index?, same]
  · have differ : (x == id) = false := by simpa using same
    simp [place, index?, same, List.lookup_cons, differ]

private theorem index_place_all (d : Dependencies) (i : Nat) (ids : List NodeId) (w : Walk)
    (x : NodeId) : (ids.foldl (fun acc m => acc.place d i m) w).index? x =
      if x ∈ ids then some i else w.index? x := by
  induction ids generalizing w with
  | nil => simp
  | cons id ids ih =>
    rw [List.foldl_cons, ih, index_place]
    by_cases later : x ∈ ids
    · simp [later]
    · simp [later]

private theorem pending_place_all (d : Dependencies) (i : Nat) (ids : List NodeId) (w : Walk) :
    (ids.foldl (fun acc m => acc.place d i m) w).pending = w.pending ++ ids.flatMap d.consumers := by
  induction ids generalizing w with
  | nil => simp
  | cons id ids ih =>
    rw [List.foldl_cons, ih]
    simp [place]

private theorem next_place_all (d : Dependencies) (i : Nat) (ids : List NodeId) (w : Walk) :
    (ids.foldl (fun acc m => acc.place d i m) w).next = w.next := by
  induction ids generalizing w with
  | nil => simp
  | cons id ids ih => rw [List.foldl_cons, ih, place]

/-- Exactly the unit's nodes change their index. -/
theorem index_placeUnit (w : Walk) (d : Dependencies) (id x : NodeId) :
    (w.placeUnit d id).index? x =
      if x ∈ d.unit id then some (unitIndex d w id) else w.index? x := by
  by_cases setterless : d.isSetterless id
  · simp [placeUnit, unitIndex, setterless, index_place_all]
  · simp only [placeUnit, unitIndex, setterless, Bool.false_eq_true, ↓reduceIte, index_place_all]
    rfl

theorem pending_placeUnit (w : Walk) (d : Dependencies) (id : NodeId) :
    (w.placeUnit d id).pending = w.pending ++ (d.unit id).flatMap d.consumers := by
  by_cases setterless : d.isSetterless id
  · simp [placeUnit, setterless, pending_place_all]
  · simp [placeUnit, setterless, pending_place_all]

private theorem entries_place_all (d : Dependencies) (i : Nat) (ids : List NodeId) (w : Walk) :
    (ids.foldl (fun acc m => acc.place d i m) w).index = (ids.map fun m => (m, i)).reverse ++ w.index := by
  induction ids generalizing w with
  | nil => rfl
  | cons id ids ih =>
    rw [List.foldl_cons, ih, List.map_cons, List.reverse_cons, List.append_assoc]
    rfl

/-- Each of the unit's nodes gets an entry, which no other place of the index is touched by. -/
theorem entries_placeUnit (w : Walk) (d : Dependencies) (id : NodeId) :
    (w.placeUnit d id).index = ((d.unit id).map fun m => (m, unitIndex d w id)).reverse ++ w.index := by
  by_cases setterless : d.isSetterless id
  · simp [placeUnit, unitIndex, setterless, entries_place_all]
  · simp [placeUnit, unitIndex, setterless, entries_place_all]

theorem next_placeUnit (w : Walk) (d : Dependencies) (id : NodeId) :
    (w.placeUnit d id).next = if d.isSetterless id then w.next else w.next + 1 := by
  by_cases setterless : d.isSetterless id
  · simp [placeUnit, setterless, next_place_all]
  · simp [placeUnit, setterless, next_place_all]

/-! ## What every run keeps -/

/-- Indices are drawn below the counter and given to whole units, none of
which is being walked. -/
structure Coherent (d : Dependencies) (stack : List NodeId) (w : Walk) : Prop where
  positive : 0 < w.next
  below : ∀ {x i}, w.index? x = some i → i < w.next
  together : ∀ {x m i}, w.index? x = some i → m ∈ d.unit x → w.index? m = some i
  clear : ∀ {x}, x ∈ stack → w.index? x = none
  closed : ∀ {x m}, x ∈ stack → m ∈ d.unit x → m ∈ stack

/-- A walk only adds indices. -/
def Extends (w w' : Walk) : Prop := ∀ x i, w.index? x = some i → w'.index? x = some i

theorem extends_trans (first : Extends w mid) (second : Extends mid w') : Extends w w' :=
  fun x i indexed => second x i (first x i indexed)

theorem extends_indexed (grown : Extends w w') (indexed : w.index? x ≠ none) :
    w'.index? x ≠ none := by
  obtain ⟨i, value⟩ := Option.ne_none_iff_exists'.mp indexed
  simp [grown x i value]

theorem coherent_start (d : Dependencies) : Coherent d [] .start :=
  ⟨Nat.one_pos, by simp [start, index?], by simp [start, index?], by simp, by simp⟩

/-- What is queued has no part in coherence. -/
theorem coherent_pending (coherent : Coherent d stack w) (queue : List NodeId) :
    Coherent d stack { w with pending := queue } :=
  ⟨coherent.positive, coherent.below, coherent.together, coherent.clear, coherent.closed⟩

/-- Entering a node leaves all of its unit without an index. -/
theorem coherent_enter (lawful : Lawful d nodes) (coherent : Coherent d stack w)
    (free : w.canEnter d stack id = true) : Coherent d (d.unit id ++ stack) w := by
  obtain ⟨unindexed, -⟩ := can_enter_iff.mp free
  refine ⟨coherent.positive, coherent.below, coherent.together, ?_, ?_⟩
  · intro x member
    rcases List.mem_append.mp member with member | member
    · cases indexed : w.index? x with
      | none => rfl
      | some i =>
        have back : id ∈ d.unit x := by rw [lawful.shared member]; exact lawful.self id
        rw [coherent.together indexed back] at unindexed
        cases unindexed
    · exact coherent.clear member
  · intro x m member inUnit
    rcases List.mem_append.mp member with member | member
    · rw [lawful.shared member] at inUnit
      exact List.mem_append_left _ inUnit
    · exact List.mem_append_right _ (coherent.closed member inUnit)

/-- Placing the entered unit takes it off the stack. -/
theorem coherent_leave (lawful : Lawful d nodes) (coherent : Coherent d (d.unit id ++ stack) w)
    (outer : ∀ {x m}, x ∈ stack → m ∈ d.unit x → m ∈ stack)
    (apart : ∀ m ∈ d.unit id, m ∉ stack) : Coherent d stack (w.placeUnit d id) := by
  have later : w.next ≤ (w.placeUnit d id).next := by rw [next_placeUnit]; split <;> omega
  refine ⟨Nat.lt_of_lt_of_le coherent.positive later, ?_, ?_, ?_, outer⟩
  · intro x i indexed
    rw [index_placeUnit] at indexed
    split at indexed
    · rename_i member
      cases indexed
      rw [next_placeUnit, unitIndex]
      have := coherent.positive
      split <;> omega
    · exact Nat.lt_of_lt_of_le (coherent.below indexed) later
  · intro x m i indexed inUnit
    rw [index_placeUnit] at indexed ⊢
    by_cases member : x ∈ d.unit id
    · rw [lawful.shared member] at inUnit
      simpa [member, inUnit] using indexed
    · simp only [member, ↓reduceIte] at indexed
      have value := coherent.together indexed inUnit
      have outside : m ∉ d.unit id := fun inside => by
        rw [coherent.clear (List.mem_append_left _ inside)] at value
        cases value
      simpa [outside] using value
  · intro x member
    have outside : x ∉ d.unit id := fun inside => apart x inside member
    rw [index_placeUnit, if_neg outside]
    exact coherent.clear (List.mem_append_right _ member)

theorem extends_placeUnit (coherent : Coherent d (d.unit id ++ stack) w) :
    Extends w (w.placeUnit d id) := by
  intro x i indexed
  have outside : x ∉ d.unit id := fun inside => by
    rw [coherent.clear (List.mem_append_left _ inside)] at indexed
    cases indexed
  rw [index_placeUnit, if_neg outside, indexed]

/-- A run keeps coherence and only adds indices. -/
theorem run_coherent (lawful : Lawful d nodes) (run : Run d stack w ids w')
    (coherent : Coherent d stack w) : Coherent d stack w' ∧ Extends w w' := by
  induction run with
  | done => exact ⟨coherent, fun _ _ indexed => indexed⟩
  | skip barred rest ih => exact ih coherent
  | enter free inner rest ihInner ihRest =>
    obtain ⟨-, apart⟩ := can_enter_iff.mp free
    obtain ⟨inside, grown⟩ := ihInner (coherent_enter lawful coherent free)
    obtain ⟨final, more⟩ := ihRest (coherent_leave lawful inside coherent.closed apart)
    exact ⟨final, extends_trans grown (extends_trans (extends_placeUnit inside) more)⟩

/-- After a run, each node walked from has an index unless it is being
walked. -/
theorem run_indexed (lawful : Lawful d nodes) (run : Run d stack w ids w')
    (coherent : Coherent d stack w) : ∀ id ∈ ids, w'.index? id ≠ none ∨ id ∈ stack := by
  induction run with
  | done => simp
  | @skip stack w _ _ _ barred rest ih =>
    intro x member
    rcases List.mem_cons.mp member with rfl | member
    · by_cases indexed : w.index? x = none
      · have onStack : ¬ ∀ m ∈ d.unit x, m ∉ stack := fun apart => by
          rw [can_enter_iff.mpr ⟨indexed, apart⟩] at barred
          cases barred
        push Not at onStack
        obtain ⟨m, inUnit, onStack⟩ := onStack
        have back : x ∈ d.unit m := by rw [lawful.shared inUnit]; exact lawful.self x
        exact .inr (coherent.closed onStack back)
      · exact .inl (extends_indexed (run_coherent lawful rest coherent).2 indexed)
    · exact ih coherent x member
  | enter free inner rest ihInner ihRest =>
    obtain ⟨-, apart⟩ := can_enter_iff.mp free
    have inside := (run_coherent lawful inner (coherent_enter lawful coherent free)).1
    have placed := coherent_leave lawful inside coherent.closed apart
    intro x member
    rcases List.mem_cons.mp member with rfl | member
    · refine .inl (extends_indexed (run_coherent lawful rest placed).2 ?_)
      simp [index_placeUnit, lawful.self x]
    · exact ihRest placed x member

/-- A run takes nothing off the queue. -/
theorem run_keeps_pending (run : Run d stack w ids w') (queued : c ∈ w.pending) :
    c ∈ w'.pending := by
  induction run with
  | done => exact queued
  | skip barred rest ih => exact ih queued
  | enter free inner rest ihInner ihRest =>
    apply ihRest
    rw [pending_placeUnit]
    exact List.mem_append_left _ (ihInner queued)

/-- Placing a unit queues consumers, which are nodes of the graph. -/
theorem queued_placeUnit (lawful : Lawful d nodes) (inside : ∀ c ∈ w.pending, c ∈ nodes) :
    ∀ c ∈ (w.placeUnit d id).pending, c ∈ nodes := by
  intro c queued
  rw [pending_placeUnit, List.mem_append, List.mem_flatMap] at queued
  rcases queued with queued | ⟨m, -, consumer⟩
  · exact inside c queued
  · exact lawful.consumers_inside m c consumer

/-- A run only queues consumers. -/
theorem run_pending (lawful : Lawful d nodes) (run : Run d stack w ids w')
    (inside : ∀ c ∈ w.pending, c ∈ nodes) : ∀ c ∈ w'.pending, c ∈ nodes := by
  induction run with
  | done => exact inside
  | skip barred rest ih => exact ih inside
  | enter free inner rest ihInner ihRest => exact ihRest (queued_placeUnit lawful (ihInner inside))

/-! ## The bounds are large enough -/

private theorem run_of_fold (inside : ∀ f ∈ ids, f ∈ nodes)
    (each : ∀ w f, f ∈ nodes → w.canEnter d stack f = true →
      ∃ mid, Run d (d.unit f ++ stack) w (d.feeders f) mid ∧
        visit d depth stack w f = mid.placeUnit d f) (w : Walk) :
    Run d stack w ids
      (ids.foldl (fun w f => if w.canEnter d stack f then visit d depth stack w f else w) w) := by
  induction ids generalizing w with
  | nil => exact .done
  | cons f ids ih =>
    have others := ih (fun x member => inside x (List.mem_cons_of_mem _ member))
    rw [List.foldl_cons]
    cases entry : w.canEnter d stack f with
    | false => exact .skip entry (by simpa using others w)
    | true =>
      obtain ⟨mid, inner, placed⟩ := each w f (inside f List.mem_cons_self) entry
      refine .enter entry inner ?_
      simpa [← placed] using others (visit d depth stack w f)

/-- A visit walks from the node's feeders and then places the node's unit. The
depth suffices because a stack without repetitions never exceeds the graph. -/
theorem run_of_visit (lawful : Lawful d nodes) (depth : Nat) (stackDistinct : stack.Nodup)
    (stackInside : ∀ s ∈ stack, s ∈ nodes) (deep : nodes.length ≤ depth + stack.length)
    (member : id ∈ nodes) (free : w.canEnter d stack id = true) :
    ∃ mid, Run d (d.unit id ++ stack) w (d.feeders id) mid ∧
      visit d depth stack w id = mid.placeUnit d id := by
  obtain ⟨-, apart⟩ := can_enter_iff.mp free
  induction depth generalizing stack w id with
  | zero =>
    have grown : (id :: stack).Nodup :=
      List.nodup_cons.mpr ⟨apart id (lawful.self id), stackDistinct⟩
    have inside : id :: stack ⊆ nodes := List.cons_subset.mpr ⟨member, stackInside⟩
    have bound := (List.subperm_of_subset grown inside).length_le
    simp only [List.length_cons] at bound
    omega
  | succ depth ih =>
    have pushedDistinct : (d.unit id ++ stack).Nodup :=
      List.nodup_append.mpr ⟨lawful.distinct id, stackDistinct, fun a inUnit b inStack same =>
        apart a inUnit (same ▸ inStack)⟩
    have pushedInside : ∀ s ∈ d.unit id ++ stack, s ∈ nodes := by
      intro s pushed
      rcases List.mem_append.mp pushed with inUnit | inStack
      · exact lawful.units_inside member s inUnit
      · exact stackInside s inStack
    have pushedLength : nodes.length ≤ depth + (d.unit id ++ stack).length := by
      have := List.length_pos_of_mem (lawful.self id)
      rw [List.length_append]
      omega
    refine ⟨_, run_of_fold (lawful.feeders_inside id) (fun w f inside entry => ?_) w, rfl⟩
    exact ih pushedDistinct pushedInside pushedLength inside entry (can_enter_iff.mp entry).2

/-- The nodes of the graph that have no index yet. -/
def unindexed (nodes : List NodeId) (w : Walk) : List NodeId :=
  nodes.filter fun id => (w.index? id).isNone

theorem unindexed_shrinks (member : id ∈ nodes) (before : w.index? id = none)
    (after : w'.index? id ≠ none) (grown : Extends w w') :
    (unindexed nodes w').length < (unindexed nodes w).length := by
  have nested : unindexed nodes w' =
      (unindexed nodes w).filter fun x => (w'.index? x).isNone := by
    rw [unindexed, unindexed, List.filter_filter]
    apply List.filter_congr
    intro x _
    cases old : w.index? x with
    | none => simp
    | some i => simp [grown x i old]
  rw [nested]
  refine List.length_filter_lt_length_iff_exists.mpr ⟨id, ?_, by simpa using after⟩
  exact List.mem_filter.mpr ⟨member, by simp [before]⟩

private theorem drained_skip {front : List NodeId} (queue : w.pending = front ++ rest)
    (barred : ∀ id ∈ front, w.canEnter d [] id = false)
    (more : Drained d { w with pending := rest } w') : Drained d w w' := by
  induction front generalizing w with
  | nil => subst queue; exact more
  | cons id front ih =>
    refine .pop queue (.skip (barred id List.mem_cons_self) .done) (ih rfl ?_ more)
    exact fun x member => barred x (List.mem_cons_of_mem _ member)

/-- Draining works off the whole queue: each round indexes a node. -/
theorem drained_of_drain (lawful : Lawful d nodes) (rounds : Nat) (coherent : Coherent d [] w)
    (queued : ∀ c ∈ w.pending, c ∈ nodes) (deep : nodes.length ≤ depth)
    (enough : (unindexed nodes w).length < rounds) : Drained d w (drain d depth rounds w) := by
  induction rounds generalizing w with
  | zero => omega
  | succ rounds ih =>
    let barred : NodeId → Bool := fun id => !w.canEnter d [] id
    have split : w.pending = w.pending.takeWhile barred ++ w.pending.dropWhile barred := by simp
    have front : ∀ id ∈ w.pending.takeWhile barred, w.canEnter d [] id = false := fun id member => by
      simpa [barred] using List.all_eq_true.mp List.all_takeWhile id member
    cases left : w.pending.dropWhile barred with
    | nil =>
      rw [left] at split
      refine drained_skip split front ?_
      simpa [drain, barred, left] using Drained.idle (d := d) (w := { w with pending := [] }) rfl
    | cons id rest =>
      have free : w.canEnter d [] id = true := by
        have head := List.head_dropWhile_not barred (by rw [left]; simp : w.pending.dropWhile barred ≠ [])
        simpa [left, barred] using head
      rw [left] at split
      have member : id ∈ nodes := queued id (by rw [split]; simp)
      have base := coherent_pending coherent rest
      obtain ⟨mid, inner, placed⟩ := run_of_visit (w := { w with pending := rest }) lawful depth
        List.nodup_nil (by simp) (by simpa using deep) member free
      have run : Run d [] { w with pending := rest } [id]
          (visit d depth [] { w with pending := rest } id) := by
        rw [placed]
        exact .enter free inner .done
      have result : drain d depth (rounds + 1) w =
          drain d depth rounds (visit d depth [] { w with pending := rest } id) := by
        simp [drain, barred, left]
      rw [result]
      refine drained_skip split front (.pop rfl run ?_)
      obtain ⟨next, grown⟩ := run_coherent lawful run base
      have indexed := run_indexed lawful run base id List.mem_cons_self
      apply ih next
      · exact run_pending lawful run fun c inRest => queued c (by rw [split]; simp [inRest])
      · have fewer := unindexed_shrinks member (can_enter_iff.mp free).1
          (by simpa using indexed) grown
        exact Nat.lt_of_lt_of_le fewer (Nat.lt_succ_iff.mp enough)

end PoseGraph.WalkRuns
