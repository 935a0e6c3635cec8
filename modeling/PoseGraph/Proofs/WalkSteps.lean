import PoseGraph.Proofs.ArrangedGraphs
import PoseGraph.Proofs.EndlessWays

/-! The walk of a graph one step at a time, with nothing that bounds it. A state holds the calls that have
not returned, and the marks by which a walk knows what it is in the middle of. Steps are determined by the
state and end with the walk of the graph. On the way, marks are those of the calls alone, each unit is
indexed in a single step and never again, and the counter is drawn from no more often than there are nodes. -/
namespace PoseGraph.WalkSteps
open Relation Walk WalkRuns WalkSoundness GraphDependencies IndexRanks ArrangedGraphs EndlessWays

/-- A visit of a node, with the feeders that it has not looked at yet. -/
structure Call where
  id : NodeId
  feeders : List NodeId

/-- Where a walk stands. -/
structure State where
  /-- What has been indexed and queued, and the counter. -/
  walk : Walk
  /-- The nodes that are marked as being walked. -/
  marked : List NodeId
  /-- The visits that have not ended, innermost first. -/
  calls : List Call
  /-- The sinks that have not been queued. -/
  sinks : List NodeId

/-- Before the first step. -/
def State.initial (sinks : List NodeId) : State := ⟨.start, [], [], sinks⟩

/-- Nothing is left to be walked. -/
def State.ended (w : Walk) : State := ⟨w, [], [], []⟩

/-- The steps of a walk. While a visit lasts, nothing is taken from the queue, and while anything is queued,
the next sink waits. -/
inductive Step (d : Dependencies) : State → State → Prop where
  /-- A visit goes on to a feeder. All nodes of the feeder's unit are marked. -/
  | enter {w : Walk} {marked feeders sinks : List NodeId} {id f : NodeId} {calls : List Call}
      (free : w.canEnter d marked f = true) :
      Step d ⟨w, marked, ⟨id, f :: feeders⟩ :: calls, sinks⟩
        ⟨w, d.unit f ++ marked, ⟨f, d.feeders f⟩ :: ⟨id, feeders⟩ :: calls, sinks⟩
  | pass {w : Walk} {marked feeders sinks : List NodeId} {id f : NodeId} {calls : List Call}
      (barred : w.canEnter d marked f = false) :
      Step d ⟨w, marked, ⟨id, f :: feeders⟩ :: calls, sinks⟩ ⟨w, marked, ⟨id, feeders⟩ :: calls, sinks⟩
  /-- A visit that has looked at all feeders takes the marks of its unit away, wherever they come from. -/
  | leave {w : Walk} {marked sinks : List NodeId} {id : NodeId} {calls : List Call} :
      Step d ⟨w, marked, ⟨id, []⟩ :: calls, sinks⟩
        ⟨w.placeUnit d id, marked.filter (· ∉ d.unit id), calls, sinks⟩
  | take {w : Walk} {marked rest sinks : List NodeId} {id : NodeId} (queue : w.pending = id :: rest)
      (free : w.canEnter d marked id = true) :
      Step d ⟨w, marked, [], sinks⟩
        ⟨{ w with pending := rest }, d.unit id ++ marked, [⟨id, d.feeders id⟩], sinks⟩
  | drop {w : Walk} {marked rest sinks : List NodeId} {id : NodeId} (queue : w.pending = id :: rest)
      (barred : w.canEnter d marked id = false) :
      Step d ⟨w, marked, [], sinks⟩ ⟨{ w with pending := rest }, marked, [], sinks⟩
  | begin {w : Walk} {marked sinks : List NodeId} {sink : NodeId} (idle : w.pending = []) :
      Step d ⟨w, marked, [], sink :: sinks⟩ ⟨{ w with pending := [sink] }, marked, [], sinks⟩

variable {d : Dependencies} {g : SubGraph} {nodes stack ids rest marked feeders sinks : List NodeId} {w w' : Walk}
variable {s t : State} {calls : List Call} {id f : NodeId}

/-- A state on the way of a graph's walk. -/
def OnWay (g : SubGraph) : State → Prop := ReflTransGen (Step g.dependencies) (.initial g.sinks)

theorem step_unique : Relator.RightUnique (Step d) := by
  intro s t u first second
  cases first <;> cases second <;> simp_all

theorem ended_last (idle : w.pending = []) : Last (Step d) (.ended w) := by
  rintro t step
  cases step with
  | take queue _ => rw [idle] at queue; cases queue
  | drop queue _ => rw [idle] at queue; cases queue

/-! ## From runs to steps -/

/-- Marks that a visit has set are the ones that it takes away. -/
theorem unmark (apart : ∀ m ∈ d.unit id, m ∉ stack) : (d.unit id ++ stack).filter (· ∉ d.unit id) = stack := by
  have own : (d.unit id).filter (· ∉ d.unit id) = [] := by simp
  rw [List.filter_append, own, List.nil_append, List.filter_eq_self]
  exact fun m onStack => decide_eq_true fun inUnit => apart m inUnit onStack

/-- A visit whose feeders can be walked ends with its unit placed. -/
theorem visit_steps (apart : ∀ m ∈ d.unit f, m ∉ stack)
    (inner : ReflTransGen (Step d) ⟨w, d.unit f ++ stack, ⟨f, d.feeders f⟩ :: calls, sinks⟩
      ⟨w', d.unit f ++ stack, ⟨f, []⟩ :: calls, sinks⟩) :
    ReflTransGen (Step d) ⟨w, d.unit f ++ stack, ⟨f, d.feeders f⟩ :: calls, sinks⟩
      ⟨w'.placeUnit d f, stack, calls, sinks⟩ := by
  refine inner.tail ?_
  have left : Step d ⟨w', d.unit f ++ stack, ⟨f, []⟩ :: calls, sinks⟩
      ⟨w'.placeUnit d f, (d.unit f ++ stack).filter (· ∉ d.unit f), calls, sinks⟩ := .leave
  rwa [unmark apart] at left

theorem run_steps (run : Run d stack w ids w') : ∀ id calls, ReflTransGen (Step d)
    ⟨w, stack, ⟨id, ids⟩ :: calls, sinks⟩ ⟨w', stack, ⟨id, []⟩ :: calls, sinks⟩ := by
  induction run with
  | done => exact fun _ _ => .refl
  | skip barred _ ih => exact fun id calls => .head (.pass barred) (ih id calls)
  | @enter stack w f mid feeders w' free _ _ ihInner ihRest =>
    intro id calls
    have visited := visit_steps (can_enter_iff.mp free).2 (ihInner f (⟨id, feeders⟩ :: calls))
    exact .head (.enter free) (visited.trans (ihRest id calls))

theorem drained_steps (drained : Drained d w w') :
    ReflTransGen (Step d) ⟨w, [], [], sinks⟩ ⟨w', [], [], sinks⟩ := by
  induction drained with
  | idle _ => exact .refl
  | pop queue run _ ih =>
    cases run with
    | skip barred done =>
      cases done
      exact .head (.drop queue barred) ih
    | @enter _ _ id mid _ _ free inner done =>
      cases done
      exact .head (.take queue free) ((visit_steps (can_enter_iff.mp free).2 (run_steps inner _ [])).trans ih)

theorem sinks_steps {down : NodeId → NodeId → Prop} (lawful : Lawful d nodes) (downward : Downward d down)
    (inside : ∀ s ∈ sinks, s ∈ nodes) (resting : Resting d nodes down w) (idle : w.pending = []) :
    ReflTransGen (Step d) ⟨w, [], [], sinks⟩ (.ended (sinks.foldl (fromSink d nodes.length) w)) := by
  induction sinks generalizing w with
  | nil => exact .refl
  | cons sink sinks ih =>
    obtain ⟨first, inside⟩ := List.forall_mem_cons.mp inside
    have drained := drained_fromSink lawful resting first
    obtain ⟨next, empty, -⟩ := drained_resting lawful downward drained (resting_push resting first)
    rw [idle, List.nil_append] at drained
    exact .head (.begin idle) ((drained_steps drained).trans (ih inside next empty))

/-- Nothing is asked of the order in which nodes feed each other. -/
private theorem downward_anywhere (d : Dependencies) : Downward d fun _ _ => True :=
  ⟨fun _ _ => trivial, fun _ => trivial, fun _ => trivial⟩

theorem walk_onWay (distinct : (g.nodes.map Node.id).Nodup) : OnWay g (.ended g.walk) ∧ g.walk.pending = [] := by
  have lawful := lawful_of_distinct distinct
  have resting := resting_start g.dependencies (g.nodes.map Node.id) fun _ _ => True
  have ended := sinks_steps lawful (downward_anywhere _) (sinks_known g) resting rfl
  have idle := (sinks_resting lawful (downward_anywhere _) g.sinks (sinks_known g) resting rfl).2.1
  rw [List.length_map] at ended idle
  exact ⟨ended, idle⟩

/-! ## What every step keeps -/

/-- The marks that calls have set. -/
def marksOf (d : Dependencies) (calls : List Call) : List NodeId := calls.flatMap fun call => d.unit call.id

/-- Nodes are marked by the calls that have not returned, each by one of them, and have no index. -/
structure Sound (d : Dependencies) (nodes : List NodeId) (s : State) : Prop where
  coherent : Coherent d s.marked s.walk
  marks : s.marked = marksOf d s.calls
  apart : s.marked.Nodup
  called : ∀ call ∈ s.calls, call.id ∈ nodes ∧ ∀ f ∈ call.feeders, f ∈ nodes
  queued : ∀ c ∈ s.walk.pending, c ∈ nodes
  sinks : ∀ sink ∈ s.sinks, sink ∈ nodes
  once : (s.walk.index.map Prod.fst).Nodup
  counted : Counted nodes s.walk

theorem sound_initial (inside : ∀ s ∈ sinks, s ∈ nodes) : Sound d nodes (.initial sinks) where
  coherent := coherent_start d
  marks := rfl
  apart := List.nodup_nil
  called := List.forall_mem_nil _
  queued := List.forall_mem_nil _
  sinks := inside
  once := List.nodup_nil
  counted := counted_start nodes

theorem marks_closed (lawful : Lawful d nodes) {x m : NodeId} (onStack : x ∈ marksOf d calls)
    (inUnit : m ∈ d.unit x) : m ∈ marksOf d calls := by
  obtain ⟨call, inside, member⟩ := List.mem_flatMap.mp onStack
  rw [lawful.shared member] at inUnit
  exact List.mem_flatMap.mpr ⟨call, inside, inUnit⟩

theorem indexed_of_entry (w : Walk) : id ∈ w.index.map Prod.fst ↔ w.index? id ≠ none := by
  rw [Walk.index?, Ne, List.lookup_eq_none_iff]
  simp

/-- A unit of which nothing has been indexed leaves one entry for each of its nodes. -/
theorem once_placeUnit (lawful : Lawful d nodes) (coherent : Coherent d (d.unit id ++ stack) w)
    (once : (w.index.map Prod.fst).Nodup) : ((w.placeUnit d id).index.map Prod.fst).Nodup := by
  rw [entries_placeUnit, List.map_append, List.map_reverse, List.map_map]
  have keys : (d.unit id).map (Prod.fst ∘ fun m => (m, unitIndex d w id)) = d.unit id := List.map_id _
  rw [keys, List.nodup_append]
  refine ⟨List.nodup_reverse.mpr (lawful.distinct id), once, ?_⟩
  rintro a inUnit _ indexed rfl
  refine (indexed_of_entry w).mp indexed (coherent.clear (List.mem_append_left _ ?_))
  exact List.mem_reverse.mp inUnit

/-- Beginning a visit marks nodes that had no mark. -/
theorem sound_enter (lawful : Lawful d nodes) (sound : Sound d nodes ⟨w, marked, calls, sinks⟩)
    (inside : f ∈ nodes) (free : w.canEnter d marked f = true) :
    Sound d nodes ⟨w, d.unit f ++ marked, ⟨f, d.feeders f⟩ :: calls, sinks⟩ where
  coherent := coherent_enter lawful sound.coherent free
  marks := congrArg (d.unit f ++ ·) sound.marks
  apart := List.nodup_append.mpr ⟨lawful.distinct f, sound.apart, fun _ inUnit _ onStack same =>
    (can_enter_iff.mp free).2 _ inUnit (same ▸ onStack)⟩
  called := List.forall_mem_cons.mpr ⟨⟨inside, lawful.feeders_inside f⟩, sound.called⟩
  queued := sound.queued
  sinks := sound.sinks
  once := sound.once
  counted := sound.counted

/-- Ending a visit leaves the marks of the visits around it. -/
theorem sound_leave (lawful : Lawful d nodes) (sound : Sound d nodes ⟨w, marked, ⟨id, []⟩ :: calls, sinks⟩) :
    Sound d nodes ⟨w.placeUnit d id, marked.filter (· ∉ d.unit id), calls, sinks⟩ := by
  obtain ⟨coherent, marks, apart, called, queued, sinks, once, counted⟩ := sound
  obtain rfl : marked = d.unit id ++ marksOf d calls := marks
  obtain ⟨⟨inside, -⟩, called⟩ := List.forall_mem_cons.mp called
  obtain ⟨-, outer, differ⟩ := List.nodup_append.mp apart
  have apart : ∀ m ∈ d.unit id, m ∉ marksOf d calls := fun m inUnit onStack => differ m inUnit m onStack rfl
  rw [unmark apart]
  exact {
    coherent := coherent_leave lawful coherent (marks_closed lawful) apart
    marks := rfl
    apart := outer
    called
    queued := queued_placeUnit lawful queued
    sinks
    once := once_placeUnit lawful coherent once
    counted := counted_placeUnit (lawful.self id) inside coherent counted }

/-- A visit may look at its next feeder, which is a node. -/
theorem sound_feeder (sound : Sound d nodes ⟨w, marked, ⟨id, f :: feeders⟩ :: calls, sinks⟩) :
    f ∈ nodes ∧ Sound d nodes ⟨w, marked, ⟨id, feeders⟩ :: calls, sinks⟩ := by
  obtain ⟨⟨inside, each⟩, called⟩ := List.forall_mem_cons.mp sound.called
  obtain ⟨first, others⟩ := List.forall_mem_cons.mp each
  exact ⟨first, { sound with called := List.forall_mem_cons.mpr ⟨⟨inside, others⟩, called⟩ }⟩

/-- What is queued may be replaced by other nodes. -/
theorem sound_queue (sound : Sound d nodes ⟨w, marked, calls, sinks⟩) (queued : ∀ c ∈ rest, c ∈ nodes) :
    Sound d nodes ⟨{ w with pending := rest }, marked, calls, sinks⟩ :=
  { sound with coherent := coherent_pending sound.coherent rest, queued }

theorem sound_step (lawful : Lawful d nodes) (step : Step d s t) (sound : Sound d nodes s) : Sound d nodes t := by
  cases step with
  | enter free =>
    obtain ⟨first, others⟩ := sound_feeder sound
    exact sound_enter lawful others first free
  | pass barred => exact (sound_feeder sound).2
  | leave => exact sound_leave lawful sound
  | take queue free =>
    obtain ⟨first, others⟩ := List.forall_mem_cons.mp (queue ▸ sound.queued)
    exact sound_enter lawful (sound_queue sound others) first free
  | drop queue barred => exact sound_queue sound (List.forall_mem_cons.mp (queue ▸ sound.queued)).2
  | begin idle =>
    obtain ⟨first, others⟩ := List.forall_mem_cons.mp sound.sinks
    exact sound_queue { sound with sinks := others } (List.forall_mem_singleton.mpr first)

theorem sound_onWay (distinct : (g.nodes.map Node.id).Nodup) (onWay : OnWay g s) :
    Sound g.dependencies (g.nodes.map Node.id) s := by
  induction onWay with
  | refl => exact sound_initial (sinks_known g)
  | tail _ step ih => exact sound_step (lawful_of_distinct distinct) step ih

/-- Every call has marked a node of its own. -/
theorem calls_le_marks (lawful : Lawful d nodes) (calls : List Call) : calls.length ≤ (marksOf d calls).length := by
  induction calls with
  | nil => exact Nat.le_refl 0
  | cons call calls ih =>
    have own := List.length_pos_of_mem (lawful.self call.id)
    rw [marksOf, List.flatMap_cons, List.length_append, List.length_cons, ← marksOf]
    omega

theorem calls_bounded (lawful : Lawful d nodes) (sound : Sound d nodes s) : s.calls.length ≤ nodes.length := by
  have inside : s.marked ⊆ nodes := by
    intro m onStack
    rw [sound.marks] at onStack
    obtain ⟨call, member, inUnit⟩ := List.mem_flatMap.mp onStack
    exact lawful.units_inside (sound.called call member).1 m inUnit
  calc
    s.calls.length ≤ (marksOf d s.calls).length := calls_le_marks lawful s.calls
    _ = s.marked.length := congrArg List.length sound.marks.symm
    _ ≤ nodes.length := sound.apart.length_le_of_subset inside

/-! ## The way of a whole graph -/

/-- A node gets an index together with all nodes of its variable. None of them had one. The index is 0 or is
drawn from the counter. -/
def Indexes (g : SubGraph) (before after : Walk) : Prop :=
  ∃ n ∈ g.nodes, ∃ ids : List NodeId, ∃ i,
    (∀ x, x ∈ ids ↔ x = n.id ∨ Twins g n.id x) ∧ (∀ x ∈ ids, before.index? x = none) ∧
      after.index = ids.map (fun x => (x, i)) ++ before.index ∧
        (i = 0 ∧ after.next = before.next ∨ i = before.next ∧ after.next = before.next + 1)

/-- What holds at a state on the way of a graph's walk. -/
structure Orderly (g : SubGraph) (s : State) : Prop where
  /-- Whenever the queue is looked at, there are no marks. -/
  unmarked : s.calls = [] → s.marked = []
  /-- Visits are nested no deeper than there are nodes. -/
  shallow : s.calls.length ≤ g.nodes.length
  /-- No node has got an index twice. -/
  once : (s.walk.index.map Prod.fst).Nodup
  /-- The counter has been drawn from at most once for every node. -/
  drawn : s.walk.next ≤ Walk.start.next + g.nodes.length
  /-- A step indexes nothing, or a single unit. -/
  whole : ∀ t, Step g.dependencies s t →
    t.walk.index = s.walk.index ∧ t.walk.next = s.walk.next ∨ Indexes g s.walk t.walk

theorem placeUnit_indexes (distinct : (g.nodes.map Node.id).Nodup) (inside : id ∈ g.nodes.map Node.id)
    (coherent : Coherent g.dependencies (g.dependencies.unit id ++ stack) w) :
    Indexes g w (w.placeUnit g.dependencies id) := by
  obtain ⟨n, member, rfl⟩ := List.mem_map.mp inside
  refine ⟨n, member, (g.dependencies.unit n.id).reverse, unitIndex g.dependencies w n.id, ?_, ?_, ?_, ?_⟩
  · exact fun x => List.mem_reverse.trans (mem_unit_iff distinct)
  · exact fun x inUnit => coherent.clear (List.mem_append_left _ (List.mem_reverse.mp inUnit))
  · rw [entries_placeUnit, List.map_reverse]
  · rw [next_placeUnit, unitIndex]
    split
    · exact .inl ⟨rfl, rfl⟩
    · exact .inr ⟨rfl, rfl⟩

theorem step_indexes (distinct : (g.nodes.map Node.id).Nodup) (sound : Sound g.dependencies (g.nodes.map Node.id) s)
    (step : Step g.dependencies s t) :
    t.walk.index = s.walk.index ∧ t.walk.next = s.walk.next ∨ Indexes g s.walk t.walk := by
  cases step with
  | enter | pass | take | drop | begin => exact .inl ⟨rfl, rfl⟩
  | leave =>
    have coherent := sound.coherent
    rw [sound.marks] at coherent
    exact .inr (placeUnit_indexes distinct (List.forall_mem_cons.mp sound.called).1.1 coherent)

theorem orderly_onWay (distinct : (g.nodes.map Node.id).Nodup) (onWay : OnWay g s) : Orderly g s := by
  have sound := sound_onWay distinct onWay
  exact {
    unmarked := fun none => by rw [sound.marks, none, marksOf, List.flatMap_nil]
    shallow := by simpa using calls_bounded (lawful_of_distinct distinct) sound
    once := sound.once
    drawn := by
      have counted := sound.counted
      rw [Counted, List.length_map] at counted
      simp only [Walk.start]
      omega
    whole := fun _ => step_indexes distinct sound }

/-- Whatever the links of a graph and the pins that they name, its walk comes to an end. All that is asked
for is that its nodes are told apart. -/
theorem walk_comes_to_end (distinct : (g.nodes.map Node.id).Nodup) :
    ¬Endless (Step g.dependencies) (.initial g.sinks) ∧ OnWay g (.ended g.walk) ∧
      ∀ s, OnWay g s → Orderly g s ∧ (Last (Step g.dependencies) s ↔ s = .ended g.walk) := by
  obtain ⟨onWay, idle⟩ := walk_onWay distinct
  have last : Last (Step g.dependencies) (.ended g.walk) := ended_last idle
  refine ⟨not_endless step_unique onWay last, onWay, fun s passed => ⟨orderly_onWay distinct passed, ?_⟩⟩
  exact ⟨fun also => last_unique step_unique passed also onWay last, fun same => same ▸ last⟩

private def poseResult : Node :=
  ({ Node.ofName "Output" ⟨0, 0, 0⟩ with inputs := [.input "Pose" .pose] }.withFreshIds 10).1

/-- A blend that is linked to itself and, through a clip, in a circle. The clip feeds both setters of the variable
by which its own time is given. Two nodes at which the graph ends have the same pin, and two links name pins that
no node has. -/
def looped : SubGraph where
  nodes := [poseResult, { poseResult with id := ⟨15⟩, name := "Event" },
    ({ Node.ofName "Blend" ⟨0, 0, 0⟩ with
      inputs := [.input "From" .pose, .input "To" .pose], outputs := [.output "Pose" .pose] }.withFreshIds 20).1,
    ({ Node.ofName "Clip" ⟨0, 0, 0⟩ with
      inputs := [.input "Time" .float, .input "Base" .pose]
      outputs := [.output "Pose" .pose, .output "End" .float] }.withFreshIds 30).1,
    ({ Node.ofName "Time" ⟨0, 0, 0⟩ with
      category := localVariableCategory, inputs := [.input "Time" .float] }.withFreshIds 40).1,
    ({ Node.ofName "Time" ⟨0, 0, 0⟩ with
      category := localVariableCategory, inputs := [.input "Time" .float] }.withFreshIds 50).1,
    ({ Node.ofName "Time" ⟨0, 0, 0⟩ with
      category := localVariableCategory, outputs := [.output "Time" .float] }.withFreshIds 60).1]
  links := [⟨⟨101⟩, ⟨23⟩, ⟨11⟩, ⟨0, 0, 0⟩⟩, ⟨⟨102⟩, ⟨23⟩, ⟨21⟩, ⟨0, 0, 0⟩⟩, ⟨⟨103⟩, ⟨33⟩, ⟨22⟩, ⟨0, 0, 0⟩⟩,
    ⟨⟨104⟩, ⟨23⟩, ⟨32⟩, ⟨0, 0, 0⟩⟩, ⟨⟨105⟩, ⟨61⟩, ⟨31⟩, ⟨0, 0, 0⟩⟩, ⟨⟨106⟩, ⟨34⟩, ⟨41⟩, ⟨0, 0, 0⟩⟩,
    ⟨⟨107⟩, ⟨34⟩, ⟨51⟩, ⟨0, 0, 0⟩⟩, ⟨⟨108⟩, ⟨99⟩, ⟨21⟩, ⟨0, 0, 0⟩⟩, ⟨⟨109⟩, ⟨33⟩, ⟨98⟩, ⟨0, 0, 0⟩⟩]

/-- Five indices are drawn for the seven nodes. -/
theorem looped_comes_to_end :
    (looped.nodes.map Node.id).Nodup ∧ ¬Endless (Step looped.dependencies) (.initial looped.sinks) ∧
      OnWay looped (.ended looped.walk) ∧ Orderly looped (.ended looped.walk) ∧
      looped.walk.index.map (fun (id, i) => (id.value, i)) =
        [(15, 5), (10, 4), (20, 3), (30, 2), (60, 1), (50, 1), (40, 1)] := by
  have distinct : (looped.nodes.map Node.id).Nodup := by decide
  obtain ⟨bounded, onWay, each⟩ := walk_comes_to_end distinct
  refine ⟨distinct, bounded, onWay, (each _ onWay).1, ?_⟩
  unfold SubGraph.walk SubGraph.sinks SubGraph.dependencies SubGraph.feedersOf SubGraph.consumersOf
    SubGraph.variableNodes SubGraph.leastSetter?
  simp only [sortIds_eq]
  decide +kernel

end PoseGraph.WalkSteps
