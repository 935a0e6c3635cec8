import PoseGraph.Proofs.EditRuns
import PoseGraph.Proofs.Nesting
import PoseGraph.Proofs.Validity

/-! What can still go wrong in the compilation of a valid asset. Validation goes
through all graphs one by one while lowering descends from the top level, so every
graph and pin that lowering asks for has to have been asked for by validation
somewhere else. What remains are events without names and input actions. -/
namespace PoseGraph.LoweringFailures
open AssetOrder EditRuns Editor EditorCoherence GraphDependencies IndexRanks LoweringSemantics Nesting Validity

variable {a : Asset} {e : Editor} {g : SubGraph} {n : Node} {p : Pin} {l : Link} {pin : PinId}
variable {owner self : NodeId} {name : String} {container : Bool} {cause : ParseError} {session : CompileSession}

/-- What is behind an error in nested graphs. -/
def innermost : ParseError → ParseError
  | .subroutine _ cause => innermost cause
  | cause => cause

/-- The failures that validation does not look for. -/
def Unchecked (cause : ParseError) : Prop :=
  ∃ node, innermost cause = .missingEventName node ∨ innermost cause = .unsupportedInputAction node

/-! ## Links -/

theorem nodeOfPin_of_pin (found : g.pin? pin = some p) : ∃ n, g.nodeOfPin? pin = some n := by
  obtain ⟨n, member, held, same⟩ := pin_spec found
  refine Option.isSome_iff_exists.mp ?_
  rw [SubGraph.nodeOfPin?, List.find?_isSome]
  exact ⟨n, member, hasPin_iff.mpr ⟨p, held, same⟩⟩

/-- Both ends of a link that validation accepts are there. -/
theorem ends_of_valid (whole : linkErrors g = []) (link : l ∈ g.links) :
    ∃ p q, g.pin? l.source = some p ∧ g.pin? l.target = some q := by
  have passes := List.filter_eq_nil_iff.mp (List.map_eq_nil_iff.mp whole) l link
  split at passes
  · exact ⟨_, _, ‹_›, ‹_›⟩
  · simp at passes

theorem connect_error {producer destination : Node} {start finish : Pin}
    (failed : connect self producer start destination finish = .error cause) :
    cause = .missingEventName destination.id := by
  rw [connect] at failed
  split at failed
  · cases failed
  · split at failed
    · split at failed
      · cases failed
      · split at failed
        · cases failed
          rfl
        · cases failed
    · cases failed

theorem connectVariable_ok (e : Editor) (g : SubGraph) (self : NodeId) (getter destination : Node) (start finish : Pin) :
    ∃ c, (e.connectVariable g self getter start destination finish).result = .ok c := by
  rw [connectVariable]
  split
  · exact ⟨_, rfl⟩
  · exact ⟨_, rfl⟩

/-- A link whose ends are there fails for want of an event's name or at an input
action. -/
theorem lowerLink_error (whole : linkErrors g = []) (link : l ∈ g.links)
    (failed : (e.lowerLink g container self l).result = .error cause) : Unchecked cause := by
  obtain ⟨start, finish, starts, ends⟩ := ends_of_valid whole link
  obtain ⟨producer, produces⟩ := nodeOfPin_of_pin starts
  obtain ⟨destination, consumes⟩ := nodeOfPin_of_pin ends
  rw [lowerLink, starts, produces, ends, consumes] at failed
  dsimp only at failed
  split at failed
  · cases failed
  · split at failed
    · cases failed
    · split at failed
      · cases failed
      · split at failed
        · obtain ⟨c, made⟩ := connectVariable_ok e g self producer destination start finish
          rw [made] at failed
          cases failed
        · rename_i m s _
          split at failed
          · cases failed
            exact ⟨m.id, .inr rfl⟩
          · rw [Lowering.ofResult] at failed
            cases made : connect self m s destination finish with
            | ok c =>
              rw [made] at failed
              cases failed
            | error inner =>
              rw [made] at failed
              cases failed
              exact ⟨destination.id, .inl (by rw [connect_error made]; rfl)⟩

theorem lowerLinks_error (whole : linkErrors g = [])
    (failed : (e.lowerLinks g container self).result = .error cause) : Unchecked cause := by
  rw [lowerLinks, bind_error] at failed
  rcases failed with inLinks | ⟨_, -, none⟩
  · obtain ⟨l, link, failed⟩ := mapM_error inLinks
    exact lowerLink_error whole link failed
  · cases none

/-! ## Graphs -/

/-- In a valid asset, nodes that own graphs have them. -/
theorem graph_of_subroutine (valid : e.validate.errors = []) (held : e.asset.graph? owner = some g)
    (member : n ∈ g.nodes) (text : n.isComment = false) (owns : n.isSubroutine = true) :
    ∃ k, e.asset.graph? n.id = some k := by
  have report := graphReport_errors_eq_nil_iff.mp (validate_errors_eq_nil_iff.mp valid owner g held)
  have fine := (nodeErrors_eq_nil_iff.mp (report.1 n member text)).2.2
  rw [nodeError?, nodeErrorWithin, if_pos owns] at fine
  split at fine
  · cases fine
  · rename_i k body
    exact ⟨k, (Option.filter_eq_some_iff.mp body).1⟩

theorem emitted_text (emitted : n.isEmitted container = true) : n.isComment = false := by
  simp only [Node.isEmitted, Bool.and_eq_true, Bool.not_eq_true'] at emitted
  exact emitted.1.1.2

/-- Going down from graph to graph, lowering never meets one that is missing and
never goes too deep, so that only links fail. -/
theorem lowerWithin_error {depth : Nat} {outer : List NodeId} (acyclic : Acyclic e.asset)
    (valid : e.validate.errors = []) (held : e.asset.graph? owner = some g) (around : Around e.asset owner outer)
    (level : outer.length + depth = e.asset.graphs.size + 1)
    (failed : (e.lowerWithin depth owner self name).result = .error cause) : Unchecked cause := by
  induction depth generalizing owner g outer self name cause with
  | zero =>
    have short := around_length around
    omega
  | succ depth ih =>
    rw [lowerWithin, held] at failed
    dsimp only at failed
    rcases bind_error.mp failed with inNodes | ⟨nodes, -, later⟩
    · -- A node fails if its graph does.
      obtain ⟨n, inside, failed⟩ := mapM_error inNodes
      obtain ⟨member, emitted⟩ := List.mem_filter.mp inside
      split at failed
      · rename_i owns
        obtain ⟨k, found⟩ := graph_of_subroutine valid held member (emitted_text emitted) owns
        rcases bind_error.mp failed with inGraph | ⟨_, -, none⟩
        · obtain ⟨inner, below, rfl⟩ := mapError_error.mp (map_error.mp inGraph)
          have deeper := around_inner acyclic around (nests_of_member held member owns)
          have unchecked : Unchecked inner := ih found deeper (by rw [List.length_cons]; omega) below
          exact unchecked
        · cases none
      · rcases bind_error.mp failed with none | ⟨_, -, none⟩ <;> cases none
    · rcases bind_error.mp later with inLinks | ⟨connections, -, none⟩
      · have report := graphReport_errors_eq_nil_iff.mp (validate_errors_eq_nil_iff.mp valid owner g held)
        exact lowerLinks_error report.2.2.2 inLinks
      · cases none

/-! ## Whole assets -/

theorem construct_valid (valid : e.validate.errors = []) :
    (e.construct session).1 = e.lower.result.mapError .parse := by
  rw [construct]
  simp [valid]

theorem acyclic_ofAsset (acyclic : Acyclic a) (catalog : Catalog) (settings : Settings) (nextId : Nat) :
    Acyclic (Editor.ofAsset a catalog settings nextId).asset := by
  refine acyclic_of_nests acyclic fun outer inner nests => ?_
  have before := ((sameShape_ensureEntries _).nests outer inner).mp nests
  exact (holds_ensureGraph a .root outer inner .subroutine).mp before

theorem root_ofAsset (a : Asset) (catalog : Catalog) (settings : Settings) (nextId : Nat) :
    ∃ g, (Editor.ofAsset a catalog settings nextId).asset.graph? .root = some g := by
  refine hasGraph_iff.mp (((sameShape_ensureEntries _).owners .root).trans ?_)
  exact hasGraph_iff.mpr ⟨_, by rw [graph_ensureGraph, if_pos rfl]⟩

/-- If validation finds no error in an asset whose graphs do not lie inside
themselves, the asset compiles, or fails in whatever depth for want of an event's name
or at an input action. No graph and no pin turns out to be missing. -/
theorem valid_fails_unchecked (acyclic : Acyclic a) (catalog : Catalog) (settings : Settings) (nextId : Nat)
    (session : CompileSession) (valid : (Editor.ofAsset a catalog settings nextId).validate.errors = []) :
    (∃ p, ((Editor.ofAsset a catalog settings nextId).construct session).1 = .ok p) ∨
      ∃ cause, ((Editor.ofAsset a catalog settings nextId).construct session).1 = .error (.parse cause) ∧
        Unchecked cause := by
  rw [construct_valid valid]
  cases lowered : (Editor.ofAsset a catalog settings nextId).lower.result with
  | ok p => exact .inl ⟨p, rfl⟩
  | error cause =>
    obtain ⟨g, held⟩ := root_ofAsset a catalog settings nextId
    exact .inr ⟨cause, rfl, lowerWithin_error (acyclic_ofAsset acyclic catalog settings nextId) valid held
      (around_top _ _) (Nat.zero_add _) lowered⟩

/-- The end of a clip triggers an event inside a state of a state machine. -/
def clipEnding : List Edit :=
  [.createNode "Animation" "Output", .createNode "Animation" "State Machine", .createLink ⟨6⟩ ⟨3⟩, .enterNode ⟨5⟩,
    .createNode "StateMachine" "State", .enterNode ⟨8⟩, .createNode "Animation" "Animation Player",
    .createNode "Animation" "Event", .setPinValue ⟨20⟩ (.ofHandle .animation 7), .createLink ⟨24⟩ ⟨11⟩,
    .createLink ⟨25⟩ ⟨30⟩]

/-- The only clip. -/
def oneClip : Catalog := Table.empty.insert 7 (.animation "Walk")

/-- The asset after these edits, in order. -/
def endingAsset : Asset := (clipEnding.foldl Edit.apply (.ofAsset (.ofName "Wave" ⟨1⟩) oneClip .default 1)).sort.asset

/-- The event has no name, which only lowering finds out, two graphs down. -/
theorem nested_event_unnamed : Acyclic endingAsset ∧ (Editor.ofAsset endingAsset oneClip).validate.errors = [] ∧
    ∃ cause, ((Editor.ofAsset endingAsset oneClip).construct .empty).1 = .error (.parse cause) ∧ Unchecked cause := by
  have acyclic : Acyclic endingAsset := by
    refine acyclic_of_ascending ?_
    rw [endingAsset, sortByInsertion.2]
    decide +kernel
  have valid : (Editor.ofAsset endingAsset oneClip).validate.errors = [] := by
    rw [endingAsset, sortByInsertion.2]
    decide +kernel
  have stopped : ((Editor.ofAsset endingAsset oneClip).construct .empty).1.toOption.isNone = true := by
    rw [endingAsset, sortByInsertion.2]
    decide +kernel
  refine ⟨acyclic, valid, ?_⟩
  rcases valid_fails_unchecked acyclic oneClip .default firstFreshIdentity .empty valid with ⟨p, made⟩ | failed
  · rw [made] at stopped
    cases stopped
  · exact failed

end PoseGraph.LoweringFailures
