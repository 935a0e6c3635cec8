import PoseGraph.Proofs.WalkSoundness

/-! Walks that see the same dependencies. A run is determined by what it starts
from, and asks only about the nodes it comes to. So two graphs that agree on the
nodes of one of them, whatever else the other one has, are walked alike from
there. -/
namespace PoseGraph.WalkAgreement
open Walk WalkRuns WalkSoundness

variable {d e : Dependencies} {nodes others stack ids sinks : List NodeId} {w a b : Walk}
variable {down below : NodeId → NodeId → Prop} {id : NodeId}

/-- The second dependencies say the same of some nodes as the first ones. -/
structure AgreesOn (nodes : List NodeId) (d e : Dependencies) : Prop where
  unit : ∀ id ∈ nodes, e.unit id = d.unit id
  feeders : ∀ id ∈ nodes, e.feeders id = d.feeders id
  consumers : ∀ id ∈ nodes, e.consumers id = d.consumers id
  isSetterless : ∀ id ∈ nodes, e.isSetterless id = d.isSetterless id

theorem agrees_canEnter (agrees : AgreesOn nodes d e) (member : id ∈ nodes) :
    w.canEnter e stack id = w.canEnter d stack id := by
  rw [canEnter, canEnter, agrees.unit id member]

theorem agrees_placeUnit (agrees : AgreesOn nodes d e) (lawful : Lawful d nodes) (member : id ∈ nodes) :
    w.placeUnit e id = w.placeUnit d id := by
  have placed : ∀ i, ∀ w : Walk, (d.unit id).foldl (fun acc m => acc.place e i m) w =
      (d.unit id).foldl (fun acc m => acc.place d i m) w := by
    intro i w
    apply List.foldl_ext
    intro acc m inUnit
    rw [place, place, agrees.consumers m (lawful.units_inside member m inUnit)]
  rw [placeUnit, placeUnit, agrees.unit id member, agrees.isSetterless id member, placed, placed]

theorem run_agrees (agrees : AgreesOn nodes d e) (lawful : Lawful d nodes) (run : Run d stack w ids a)
    (inside : ∀ id ∈ ids, id ∈ nodes) : Run e stack w ids a := by
  induction run with
  | done => exact .done
  | skip barred rest ih =>
    obtain ⟨first, inside⟩ := List.forall_mem_cons.mp inside
    exact .skip ((agrees_canEnter agrees first).trans barred) (ih inside)
  | @enter stack w id mid ids a free inner rest ihInner ihRest =>
    obtain ⟨first, inside⟩ := List.forall_mem_cons.mp inside
    have inner := ihInner (lawful.feeders_inside id)
    rw [← agrees.unit id first, ← agrees.feeders id first] at inner
    have rest := ihRest inside
    rw [← agrees_placeUnit agrees lawful first] at rest
    exact .enter ((agrees_canEnter agrees first).trans free) inner rest

theorem drained_agrees (agrees : AgreesOn nodes d e) (lawful : Lawful d nodes) (drained : Drained d w a)
    (queued : ∀ c ∈ w.pending, c ∈ nodes) : Drained e w a := by
  induction drained with
  | idle empty => exact .idle empty
  | @pop w id rest mid a queue run more ih =>
    rw [queue] at queued
    obtain ⟨first, queued⟩ := List.forall_mem_cons.mp queued
    exact .pop queue (run_agrees agrees lawful run (List.forall_mem_singleton.mpr first))
      (ih (run_pending lawful run queued))

/-! ## Runs have one outcome -/

theorem run_unique (first : Run d stack w ids a) (second : Run d stack w ids b) : a = b := by
  induction first generalizing b with
  | done => cases second; rfl
  | skip barred rest ih =>
    cases second with
    | skip _ other => exact ih other
    | enter free _ _ => rw [barred] at free; cases free
  | enter free inner rest ihInner ihRest =>
    cases second with
    | skip barred _ => rw [barred] at free; cases free
    | enter _ otherInner otherRest =>
      rw [← ihInner otherInner] at otherRest
      exact ihRest otherRest

theorem drained_unique (first : Drained d w a) (second : Drained d w b) : a = b := by
  induction first generalizing b with
  | idle empty =>
    cases second with
    | idle _ => rfl
    | pop queue _ _ => rw [empty] at queue; cases queue
  | pop queue run more ih =>
    cases second with
    | idle empty => rw [empty] at queue; cases queue
    | pop otherQueue otherRun otherMore =>
      rw [queue] at otherQueue
      cases otherQueue
      rw [← run_unique run otherRun] at otherMore
      exact ih otherMore

/-- From sinks in common, a graph is walked as a smaller one is that it agrees with. -/
theorem sinks_agree (agrees : AgreesOn nodes d e) (within : nodes ⊆ others) (lawful : Lawful d nodes)
    (also : Lawful e others) (downward : Downward d down) (likewise : Downward e below)
    (inside : ∀ s ∈ sinks, s ∈ nodes) (resting : Resting d nodes down w) (idle : Resting e others below w) :
    sinks.foldl (fromSink e others.length) w = sinks.foldl (fromSink d nodes.length) w := by
  induction sinks generalizing w with
  | nil => rfl
  | cons sink sinks ih =>
    obtain ⟨first, inside⟩ := List.forall_mem_cons.mp inside
    have pushed := resting_push resting first
    have drained := drained_fromSink lawful resting first
    have other := drained_fromSink also idle (within first)
    have same : fromSink e others.length w sink = fromSink d nodes.length w sink :=
      drained_unique other (drained_agrees agrees lawful drained pushed.inside)
    have next := (drained_resting also likewise other (resting_push idle (within first))).1
    rw [List.foldl_cons, List.foldl_cons, same]
    rw [same] at next
    exact ih inside (drained_resting lawful downward drained pushed).1 next

end PoseGraph.WalkAgreement
