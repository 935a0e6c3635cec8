import PoseGraph.Proofs.GraphDependencies

/-! What placing a unit keeps, the whole walk of a graph keeps. An invariant of walks is shown
for a single unit, and holds after each run, after the queue has been worked off and after
the sinks have been walked from. -/
namespace PoseGraph.WalkInvariants
open Walk WalkRuns WalkSoundness GraphDependencies

variable {d : Dependencies} {nodes stack ids sinks : List NodeId} {w w' : Walk} {g : SubGraph}
variable {down : NodeId → NodeId → Prop} {among : NodeId → Prop} {holds : Walk → Prop}

/-- A property of walks that is kept whenever a unit is placed. This is asked for units of certain nodes
only, which neither feeders nor consumers lead out of. What is queued has no part in it. -/
structure Invariant (d : Dependencies) (among : NodeId → Prop) (holds : Walk → Prop) : Prop where
  feeders : ∀ {id f}, among id → f ∈ d.feeders id → among f
  consumers : ∀ {id m c}, among id → m ∈ d.unit id → c ∈ d.consumers m → among c
  place : ∀ {stack w id}, among id → Coherent d (d.unit id ++ stack) w → holds w → holds (w.placeUnit d id)
  queue : ∀ {w} queue, holds w → holds { w with pending := queue }

section Runs

variable (invariant : Invariant d among holds) (lawful : Lawful d nodes)
include invariant

theorem run_queues (run : Run d stack w ids w') (inside : ∀ id ∈ ids, among id)
    (queued : ∀ c ∈ w.pending, among c) : ∀ c ∈ w'.pending, among c := by
  induction run with
  | done => exact queued
  | skip _ _ ih => exact ih (List.forall_mem_cons.mp inside).2 queued
  | @enter _ _ id _ _ _ _ _ _ ihInner ihRest =>
    obtain ⟨first, inside⟩ := List.forall_mem_cons.mp inside
    refine ihRest inside fun c waits => ?_
    rw [pending_placeUnit, List.mem_append, List.mem_flatMap] at waits
    rcases waits with waits | ⟨m, inUnit, consumer⟩
    · exact ihInner (fun f => invariant.feeders first) queued c waits
    · exact invariant.consumers first inUnit consumer

include lawful

theorem run_keeps (run : Run d stack w ids w') (coherent : Coherent d stack w) (inside : ∀ id ∈ ids, among id)
    (before : holds w) : holds w' := by
  induction run with
  | done => exact before
  | skip _ _ ih => exact ih coherent (List.forall_mem_cons.mp inside).2 before
  | enter free inner _ ihInner ihRest =>
    obtain ⟨first, inside⟩ := List.forall_mem_cons.mp inside
    obtain ⟨-, apart⟩ := can_enter_iff.mp free
    have entered := coherent_enter lawful coherent free
    have walked := (run_coherent lawful inner entered).1
    -- The feeders are among the nodes in question as well, so that their walk keeps the property.
    have fed := ihInner entered (fun f => invariant.feeders first) before
    exact ihRest (coherent_leave lawful walked coherent.closed apart) inside (invariant.place first walked fed)

theorem drained_keeps (drained : Drained d w w') (coherent : Coherent d [] w) (queued : ∀ c ∈ w.pending, among c)
    (before : holds w) : holds w' := by
  induction drained with
  | idle _ => exact before
  | @pop w id rest mid w' queue run _ ih =>
    rw [queue] at queued
    obtain ⟨first, queued⟩ := List.forall_mem_cons.mp queued
    have single := List.forall_mem_singleton.mpr first
    have base := coherent_pending coherent rest
    exact ih (run_coherent lawful run base).1 (run_queues invariant run single queued)
      (run_keeps invariant lawful run base single (invariant.queue rest before))

theorem sinks_keep (downward : Downward d down) (known : ∀ s ∈ sinks, s ∈ nodes) (inside : ∀ s ∈ sinks, among s)
    (resting : Resting d nodes down w) (idle : w.pending = []) (before : holds w) :
    holds (sinks.foldl (fromSink d nodes.length) w) := by
  induction sinks generalizing w with
  | nil => exact before
  | cons sink sinks ih =>
    obtain ⟨first, known⟩ := List.forall_mem_cons.mp known
    obtain ⟨sinkInside, inside⟩ := List.forall_mem_cons.mp inside
    have pushed := resting_push resting first
    have drained := drained_fromSink lawful resting first
    obtain ⟨next, empty, -⟩ := drained_resting lawful downward drained pushed
    have queued : ∀ c ∈ w.pending ++ [sink], among c := by simpa [idle] using sinkInside
    exact ih known inside next empty
      (drained_keeps invariant lawful drained pushed.coherent queued (invariant.queue _ before))

end Runs

/-- An invariant that holds at the beginning holds of the walk of a graph. -/
theorem walk_keeps (unique : UniqueIds g) (invariant : Invariant g.dependencies among holds)
    (inside : ∀ s ∈ g.sinks, among s) (start : holds .start) : holds g.walk := by
  have kept := sinks_keep invariant (lawful_dependencies unique) (downward_downstream unique) (sinks_known g) inside
    (resting_start _ _ _) rfl start
  rwa [List.length_map] at kept

/-! ## What is indexed -/

/-- From nodes that neither units nor links in either direction lead out of, a walk comes to no others. -/
theorem indexed_among (unique : UniqueIds g) (unit : ∀ {id m}, among id → m ∈ g.dependencies.unit id → among m)
    (feeders : ∀ {id f}, among id → f ∈ g.dependencies.feeders id → among f)
    (consumers : ∀ {id c}, among id → c ∈ g.dependencies.consumers id → among c)
    (inside : ∀ s ∈ g.sinks, among s) : ∀ x, g.walk.index? x ≠ none → among x := by
  have invariant : Invariant g.dependencies among fun w => ∀ x, w.index? x ≠ none → among x := {
    feeders
    consumers := fun first inUnit consumer => consumers (unit first inUnit) consumer
    place := by
      intro stack w id first _ before x indexed
      rw [index_placeUnit] at indexed
      by_cases inUnit : x ∈ g.dependencies.unit id
      · exact unit first inUnit
      · rw [if_neg inUnit] at indexed
        exact before x indexed
    queue := fun _ before => before }
  exact walk_keeps unique invariant inside fun x indexed => absurd rfl indexed

theorem indexed_known (unique : UniqueIds g) : ∀ x, g.walk.index? x ≠ none → x ∈ g.nodes.map Node.id := by
  have lawful := lawful_dependencies unique
  refine indexed_among unique ?_ ?_ ?_ (sinks_known g)
  · exact fun known inUnit => lawful.units_inside known _ inUnit
  · exact fun _ feeds => lawful.feeders_inside _ _ feeds
  · exact fun _ consumer => lawful.consumers_inside _ _ consumer

end PoseGraph.WalkInvariants
