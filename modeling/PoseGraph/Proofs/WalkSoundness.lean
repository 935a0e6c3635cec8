import PoseGraph.Proofs.WalkRuns

/-! What a finished walk knows about every link. The invariant that carries it
is that the stack holds only nodes downstream of the node being visited: a
feeder found on the stack therefore closes a cycle. -/
namespace PoseGraph.WalkSoundness
open Walk WalkRuns

variable {d : Dependencies} {nodes stack ids waiting : List NodeId} {w w' mid : Walk}
variable {down : NodeId → NodeId → Prop} {id x c f : NodeId}

/-- A relation that follows feeders to what they feed, and joins units. -/
structure Downward (d : Dependencies) (down : NodeId → NodeId → Prop) : Prop where
  trans : ∀ {a b c}, down a b → down b c → down a c
  unit : ∀ {id m}, m ∈ d.unit id → down id m
  feeder : ∀ {id f}, f ∈ d.feeders id → down f id

/-- Every feeder of an indexed node comes before it or is downstream of it; in
the second case it may still be on the stack. -/
def Fed (d : Dependencies) (down : NodeId → NodeId → Prop) (stack : List NodeId) (w : Walk) : Prop :=
  ∀ x i f, w.index? x = some i → f ∈ d.feeders x →
    (∃ j, w.index? f = some j ∧ (j < i ∨ down x f)) ∨ (f ∈ stack ∧ down x f)

/-- Every consumer of an indexed node has an index or will be looked at. -/
def Queued (d : Dependencies) (waiting : List NodeId) (w : Walk) : Prop :=
  ∀ x c, w.index? x ≠ none → c ∈ d.consumers x →
    w.index? c ≠ none ∨ c ∈ w.pending ∨ c ∈ waiting

private theorem fed_enter (fed : Fed d down stack w) (unit : List NodeId) :
    Fed d down (unit ++ stack) w := by
  intro x i f indexed feeds
  rcases fed x i f indexed feeds with earlier | ⟨onStack, closes⟩
  · exact .inl earlier
  · exact .inr ⟨List.mem_append_right _ onStack, closes⟩

/-- Once all feeders of a unit are indexed or on the stack, the unit can be
placed: what is indexed has come before, what is on the stack is downstream. -/
private theorem fed_leave (lawful : Lawful d nodes) (downward : Downward d down)
    (coherent : Coherent d (d.unit id ++ stack) mid)
    (fed : Fed d down (d.unit id ++ stack) mid)
    (ready : ∀ f ∈ d.feeders id, mid.index? f ≠ none ∨ f ∈ d.unit id ++ stack)
    (chain : ∀ s ∈ stack, down id s) : Fed d down stack (mid.placeUnit d id) := by
  have placed : ∀ m ∈ d.unit id, (mid.placeUnit d id).index? m = some (unitIndex d mid id) :=
    fun m member => by rw [index_placeUnit, if_pos member]
  intro x i f indexed feeds
  rw [index_placeUnit] at indexed
  by_cases member : x ∈ d.unit id
  · rw [if_pos member] at indexed
    cases indexed
    rw [lawful.shared_feeders member] at feeds
    have toUnit : down x id := downward.unit (by rw [lawful.shared member]; exact lawful.self id)
    by_cases inUnit : f ∈ d.unit id
    · exact .inl ⟨_, placed f inUnit, .inr (downward.trans toUnit (downward.unit inUnit))⟩
    · rcases ready f feeds with indexed | onStack
      · obtain ⟨j, value⟩ := Option.ne_none_iff_exists'.mp indexed
        have fedUnit : d.isSetterless id = false := by
          cases setterless : d.isSetterless id with
          | false => rfl
          | true => rw [lawful.setterless_unfed setterless] at feeds; cases feeds
        refine .inl ⟨j, by rw [index_placeUnit, if_neg inUnit, value], .inl ?_⟩
        simpa [unitIndex, fedUnit] using coherent.below value
      · have onOuter : f ∈ stack := (List.mem_append.mp onStack).resolve_left inUnit
        exact .inr ⟨onOuter, downward.trans toUnit (chain f onOuter)⟩
  · rw [if_neg member] at indexed
    rcases fed x i f indexed feeds with ⟨j, value, order⟩ | ⟨onStack, closes⟩
    · exact .inl ⟨j, extends_placeUnit coherent f j value, order⟩
    · rcases List.mem_append.mp onStack with inUnit | onOuter
      · exact .inl ⟨_, placed f inUnit, .inr closes⟩
      · exact .inr ⟨onOuter, closes⟩

/-- A run from nodes above everything on the stack keeps its feeders in order. -/
theorem run_fed (lawful : Lawful d nodes) (downward : Downward d down)
    (run : Run d stack w ids w') (coherent : Coherent d stack w) (fed : Fed d down stack w)
    (chain : ∀ id ∈ ids, ∀ s ∈ stack, down id s) : Fed d down stack w' := by
  induction run with
  | done => exact fed
  | skip barred rest ih =>
    exact ih coherent fed fun id member => chain id (List.mem_cons_of_mem _ member)
  | @enter stack _ id _ _ _ free inner rest ihInner ihRest =>
    obtain ⟨-, apart⟩ := can_enter_iff.mp free
    have entered := coherent_enter lawful coherent free
    have inside := (run_coherent lawful inner entered).1
    have below := chain id List.mem_cons_self
    have fedInside := ihInner entered (fed_enter fed _) (by
      intro f feeds s pushed
      rcases List.mem_append.mp pushed with inUnit | onStack
      · exact downward.trans (downward.feeder feeds) (downward.unit inUnit)
      · exact downward.trans (downward.feeder feeds) (below s onStack))
    have ready := run_indexed lawful inner entered
    exact ihRest (coherent_leave lawful inside coherent.closed apart)
      (fed_leave lawful downward inside fedInside ready below)
      fun id member => chain id (List.mem_cons_of_mem _ member)

/-- A run queues the consumers of what it places. -/
theorem run_queued (lawful : Lawful d nodes) (run : Run d stack w ids w')
    (coherent : Coherent d stack w) (queued : Queued d waiting w) : Queued d waiting w' := by
  induction run with
  | done => exact queued
  | skip barred rest ih => exact ih coherent queued
  | @enter _ _ id _ _ _ free inner rest ihInner ihRest =>
    obtain ⟨-, apart⟩ := can_enter_iff.mp free
    have entered := coherent_enter lawful coherent free
    have inside := (run_coherent lawful inner entered).1
    have queuedInside := ihInner entered queued
    refine ihRest (coherent_leave lawful inside coherent.closed apart) ?_
    intro x c indexed consumer
    rw [pending_placeUnit, List.mem_append, List.mem_flatMap]
    by_cases member : x ∈ d.unit id
    · exact .inr (.inl (.inr ⟨x, member, consumer⟩))
    · rw [index_placeUnit, if_neg member] at indexed
      rcases queuedInside x c indexed consumer with known | pending | waits
      · exact .inl (extends_indexed (extends_placeUnit inside) known)
      · exact .inr (.inl (.inl pending))
      · exact .inr (.inr waits)

/-- What holds between the walks of a graph, while no node is on the stack. -/
structure Resting (d : Dependencies) (nodes : List NodeId) (down : NodeId → NodeId → Prop)
    (w : Walk) : Prop where
  coherent : Coherent d [] w
  fed : Fed d down [] w
  queued : Queued d [] w
  inside : ∀ c ∈ w.pending, c ∈ nodes

/-- Draining keeps all of it and leaves the queue empty. -/
theorem drained_resting (lawful : Lawful d nodes) (downward : Downward d down)
    (drained : Drained d w w') (resting : Resting d nodes down w) :
    Resting d nodes down w' ∧ w'.pending = [] ∧ Extends w w' ∧
      ∀ c ∈ w.pending, w'.index? c ≠ none := by
  induction drained with
  | idle empty => exact ⟨resting, empty, fun _ _ indexed => indexed, by simp [empty]⟩
  | @pop w id rest mid w' queue run more ih =>
    have base := coherent_pending resting.coherent rest
    obtain ⟨coherent, grown⟩ := run_coherent lawful run base
    have indexed : mid.index? id ≠ none := by
      simpa using run_indexed lawful run base id List.mem_cons_self
    have waits : Queued d [id] { w with pending := rest } := by
      intro x c known consumer
      rcases resting.queued x c known consumer with known | pending | impossible
      · exact .inl known
      · rw [queue] at pending
        rcases List.mem_cons.mp pending with rfl | pending
        · exact .inr (.inr List.mem_cons_self)
        · exact .inr (.inl pending)
      · cases impossible
    have next : Resting d nodes down mid := by
      refine ⟨coherent, run_fed lawful downward run base resting.fed (by simp), ?_,
        run_pending lawful run fun c member => resting.inside c (by simp [queue, member])⟩
      intro x c known consumer
      rcases run_queued lawful run base waits x c known consumer with known | pending | first
      · exact .inl known
      · exact .inr (.inl pending)
      · rw [List.mem_singleton.mp first]
        exact .inl indexed
    obtain ⟨final, empty, grownFurther, rest_indexed⟩ := ih next
    refine ⟨final, empty, extends_trans grown grownFurther, ?_⟩
    intro c member
    rw [queue] at member
    rcases List.mem_cons.mp member with rfl | member
    · exact extends_indexed grownFurther indexed
    · exact rest_indexed c (run_keeps_pending run member)

theorem resting_start (d : Dependencies) (nodes : List NodeId)
    (down : NodeId → NodeId → Prop) : Resting d nodes down .start :=
  ⟨coherent_start d, by simp [Fed, start, index?], by simp [Queued, start, index?], by simp [start]⟩

theorem resting_push (resting : Resting d nodes down w) (member : id ∈ nodes) :
    Resting d nodes down { w with pending := w.pending ++ [id] } := by
  refine ⟨coherent_pending resting.coherent _, resting.fed, ?_, ?_⟩
  · intro x c known consumer
    rcases resting.queued x c known consumer with known | pending | impossible
    · exact .inl known
    · exact .inr (.inl (List.mem_append_left _ pending))
    · cases impossible
  · intro c queued
    rcases List.mem_append.mp queued with queued | last
    · exact resting.inside c queued
    · rwa [List.mem_singleton.mp last]

/-- The walk from a sink is a draining of the queue with the sink at its end. -/
theorem drained_fromSink (lawful : Lawful d nodes) (resting : Resting d nodes down w) (member : id ∈ nodes) :
    Drained d { w with pending := w.pending ++ [id] } (fromSink d nodes.length w id) := by
  have pushed := resting_push resting member
  have bound : (unindexed nodes w).length < nodes.length + 1 :=
    Nat.lt_succ_of_le (List.length_filter_le _ _)
  exact drained_of_drain lawful _ pushed.coherent pushed.inside (Nat.le_refl _) bound

/-- The walk of a whole graph, from all of its sinks. -/
theorem sinks_resting (lawful : Lawful d nodes) (downward : Downward d down) (sinks : List NodeId)
    (inside : ∀ s ∈ sinks, s ∈ nodes) (resting : Resting d nodes down w) (idle : w.pending = []) :
    let final := sinks.foldl (fromSink d nodes.length) w
    Resting d nodes down final ∧ final.pending = [] ∧ Extends w final ∧
      ∀ s ∈ sinks, final.index? s ≠ none := by
  induction sinks generalizing w with
  | nil => exact ⟨resting, idle, fun _ _ indexed => indexed, by simp⟩
  | cons sink sinks ih =>
    have pushed := resting_push resting (inside sink List.mem_cons_self)
    have drained := drained_fromSink lawful resting (inside sink List.mem_cons_self)
    obtain ⟨next, empty, grown, indexed⟩ := drained_resting lawful downward drained pushed
    obtain ⟨final, idle, more, others⟩ :=
      ih (fun s member => inside s (List.mem_cons_of_mem _ member)) next empty
    refine ⟨final, idle, extends_trans grown more, ?_⟩
    intro s member
    rcases List.mem_cons.mp member with rfl | member
    · exact extends_indexed more (indexed s (by simp))
    · exact others s member

end PoseGraph.WalkSoundness
