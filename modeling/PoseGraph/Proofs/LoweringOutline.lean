import PoseGraph.Proofs.LoweringSemantics
import PoseGraph.Proofs.Validity

/-! What lowering sees of a graph: its links, and its nodes apart from their
entry marks and their exact places. Annotations without pins count for nothing
wherever they are stored. -/
namespace PoseGraph.LoweringOutline
open AssetOrder Editor GraphDependencies LoweringSemantics Rearrangement Validity

variable {α : Type} {e f : Editor} {g h : SubGraph} {n : Node} {p : Pin} {l : Link} {q : Prototype}
variable {owner self : NodeId} {pin : PinId} {name : String} {container : Bool} {depth : Nat}

/-- A node apart from its entry mark, and from its place if it has one. -/
def gist (n : Node) : Node :=
  { n with sortIndex := if n.isSorted then 0 else undefinedSortIndex, isEntry := false }

/-- A graph with the gist of its nodes, annotations last. -/
def outline (g : SubGraph) : SubGraph :=
  ⟨(g.nodes.filter (!·.isComment) ++ g.nodes.filter Node.isComment).map gist, g.links⟩

/-- Annotations have no pins. -/
def MuteComments (g : SubGraph) : Prop := ∀ n ∈ g.nodes, n.isComment = true → n.pins = []

@[simp] theorem gist_id (n : Node) : (gist n).id = n.id := rfl

@[simp] theorem gist_name (n : Node) : (gist n).name = n.name := rfl

@[simp] theorem gist_description (n : Node) : (gist n).description = n.description := rfl

@[simp] theorem gist_isLocalVariable (n : Node) : (gist n).isLocalVariable = n.isLocalVariable := rfl

@[simp] theorem gist_variableName (n : Node) : (gist n).variableName? = n.variableName? := rfl

@[simp] theorem gist_isSorted (n : Node) : (gist n).isSorted = n.isSorted := by
  have placed : (0 != undefinedSortIndex) = true := by decide
  cases sorted : n.sortIndex != undefinedSortIndex
  · simp [gist, Node.isSorted, sorted]
  · simp [gist, Node.isSorted, sorted, placed]

/-! ## Searches -/

theorem outline_filterMap {c : Node → Option α} (blind : ∀ n, c (gist n) = c n)
    (mute : ∀ n ∈ g.nodes, n.isComment = true → c n = none) :
    (outline g).nodes.filterMap c = g.nodes.filterMap c := by
  have comments : (g.nodes.filter Node.isComment).filterMap c = [] :=
    List.filterMap_eq_nil_iff.mpr fun n member => mute n (List.mem_filter.mp member).1 (List.mem_filter.mp member).2
  have others : (g.nodes.filter (!·.isComment)).filterMap c = g.nodes.filterMap c := by
    rw [List.filterMap_filter]
    apply List.filterMap_congr
    intro n member
    by_cases comment : n.isComment = true
    · simp [comment, mute n member comment]
    · simp [comment]
  have whole : c ∘ gist = c := funext blind
  rw [outline, List.filterMap_map, whole, List.filterMap_append, comments, others, List.append_nil]

theorem outline_filter {t : Node → Bool} (blind : ∀ n, t (gist n) = t n)
    (mute : ∀ n ∈ g.nodes, n.isComment = true → t n = false) :
    (outline g).nodes.filter t = (g.nodes.filter t).map gist := by
  have comments : (g.nodes.filter Node.isComment).filter t = [] := by
    apply List.filter_eq_nil_iff.mpr
    intro n member
    simp [mute n (List.mem_filter.mp member).1 (List.mem_filter.mp member).2]
  have others : (g.nodes.filter (!·.isComment)).filter t = g.nodes.filter t := by
    rw [List.filter_filter]
    apply List.filter_congr
    intro n member
    by_cases comment : n.isComment = true
    · simp [comment, mute n member comment]
    · simp [comment]
  have whole : t ∘ gist = t := funext blind
  rw [outline, List.filter_map, whole, List.filter_append, comments, others, List.append_nil]

theorem outline_find {t : Node → Bool} (blind : ∀ n, t (gist n) = t n)
    (mute : ∀ n ∈ g.nodes, n.isComment = true → t n = false) :
    (outline g).nodes.find? t = (g.nodes.find? t).map gist := by
  rw [← List.head?_filter, outline_filter blind mute, List.head?_map, List.head?_filter]

theorem outline_length : (outline g).nodes.length = g.nodes.length := by
  rw [outline, List.length_map, List.length_append]
  simpa [Nat.add_comm] using (List.length_eq_length_filter_add (l := g.nodes) Node.isComment).symm

theorem outline_pin (mute : MuteComments g) : (outline g).pin? pin = g.pin? pin := by
  rw [SubGraph.pin?, SubGraph.pin?, ← List.head?_filterMap, ← List.head?_filterMap,
    outline_filterMap (fun _ => rfl) fun n member comment => ?_]
  rw [Node.pin?, mute n member comment]
  rfl

theorem outline_nodeOfPin (mute : MuteComments g) :
    (outline g).nodeOfPin? pin = (g.nodeOfPin? pin).map gist := by
  refine outline_find (fun _ => rfl) fun n member comment => ?_
  rw [Node.hasPin, mute n member comment]
  rfl

/-- Annotations stand for no variable. -/
theorem comment_no_variable (mute : MuteComments g) (member : n ∈ g.nodes) (comment : n.isComment = true) :
    n.isLocalVariable = false := by
  rw [Node.isLocalVariable, mute n member comment]
  simp

theorem outline_setter (mute : MuteComments g) : (outline g).setter? name = (g.setter? name).map gist := by
  refine outline_find (fun _ => rfl) fun n member comment => ?_
  rw [Node.isSetter, comment_no_variable mute member comment]
  simp

theorem outline_source (mute : MuteComments g) : (outline g).source? name = g.source? name := by
  have producer (pin : PinId) : (outline g).producer? pin = g.producer? pin := by
    have pins : (outline g).pin? = g.pin? := funext fun _ => outline_pin mute
    simp only [SubGraph.producer?, pins]
    rfl
  rw [SubGraph.source?, SubGraph.source?, outline_setter mute, Option.bind_map]
  simp only [producer]
  rfl

theorem outline_resolveWithin (mute : MuteComments g) (hops : Nat) (n : Node) (p : Pin) :
    (outline g).resolveWithin hops (gist n) p =
      (g.resolveWithin hops n p).map fun found => (gist found.1, found.2) := by
  induction hops generalizing n p with
  | zero =>
    by_cases relayed : n.isLocalVariable = true
    · simp only [SubGraph.resolveWithin, gist_isLocalVariable, relayed, ↓reduceIte, Option.map_none]
    · simp only [SubGraph.resolveWithin, gist_isLocalVariable, relayed, Bool.false_eq_true, ↓reduceIte,
        Option.map_some]
  | succ hops ih =>
    by_cases relayed : n.isLocalVariable = true
    · simp only [SubGraph.resolveWithin, gist_isLocalVariable, relayed, ↓reduceIte, gist_variableName,
        outline_source mute, outline_nodeOfPin mute]
      cases n.variableName? with
      | none => rfl
      | some name =>
        simp only [Option.bind_some]
        cases g.source? name with
        | none => rfl
        | some p =>
          simp only [Option.bind_some]
          cases g.nodeOfPin? p.id with
          | none => rfl
          | some m => exact ih m p
    · simp only [SubGraph.resolveWithin, gist_isLocalVariable, relayed, Bool.false_eq_true, ↓reduceIte,
        Option.map_some]

theorem outline_resolve (mute : MuteComments g) (n : Node) (p : Pin) :
    (outline g).resolve (gist n) p = (g.resolve n p).map fun found => (gist found.1, found.2) := by
  rw [SubGraph.resolve, SubGraph.resolve, outline_length, outline_resolveWithin mute]

/-! ## The pieces of a prototype -/

theorem outline_lowerOutputs : e.lowerOutputs (outline g) = e.lowerOutputs g := by
  rw [lowerOutputs, lowerOutputs, outline_find (fun _ => rfl) fun n _ comment => by simp [comment]]
  cases g.nodes.find? fun n => !n.isComment && n.name == "Output" <;> rfl

theorem outline_lowerVariables (mute : MuteComments g) : e.lowerVariables (outline g) = e.lowerVariables g := by
  have literals : namedLiteral? e (outline g) = namedLiteral? e g := by
    funext n
    have setters (name : String) : ((outline g).setter? name).isNone = (g.setter? name).isNone := by
      rw [outline_setter mute, Option.isNone_map]
    simp only [namedLiteral?, variableLiteral?, setters]
  have blind (n : Node) : namedLiteral? e g (gist n) = namedLiteral? e g n := by
    rw [namedLiteral?, namedLiteral?]
    rfl
  rw [lowerVariables_eq, lowerVariables_eq, literals, outline_filterMap blind fun n member comment => ?_]
  have unnamed : n.variableName? = none := by
    simp [Node.variableName?, comment_no_variable mute member comment]
  rw [namedLiteral?, unnamed, Option.bind_none]

private theorem outline_connectVariable (mute : MuteComments g) (producer destination : Node) (p q : Pin) :
    e.connectVariable (outline g) self (gist producer) p (gist destination) q =
      e.connectVariable g self producer p destination q := by
  have setters (name : String) : ((outline g).setter? name).isSome = (g.setter? name).isSome := by
    rw [outline_setter mute, Option.isSome_map]
  have warning (name : String) : untriggeredWarning (outline g) name (gist destination) =
      untriggeredWarning g name destination := by
    unfold untriggeredWarning
    simp only [setters, gist_description]
  rw [connectVariable, connectVariable]
  simp only [warning, gist_variableName]
  split
  · rfl
  · rfl

private theorem connect_gist (m d : Node) (p q : Pin) :
    connect self (gist m) p (gist d) q = connect self m p d q := by
  rw [connect, connect]
  rfl

/-- Lowering a link of the outline yields what lowering the link yields. -/
theorem outline_lowerLink (mute : MuteComments g) :
    e.lowerLink (outline g) container self l = e.lowerLink g container self l := by
  rw [lowerLink, lowerLink, outline_pin mute, outline_pin mute, outline_nodeOfPin mute, outline_nodeOfPin mute]
  cases g.pin? l.source with
  | none => simp only
  | some start =>
    cases g.nodeOfPin? l.source with
    | none => simp only [Option.map_none]
    | some producer =>
      cases g.pin? l.target with
      | none => simp only [Option.map_some]
      | some finish =>
        cases g.nodeOfPin? l.target with
        | none => simp only [Option.map_some, Option.map_none]
        | some destination =>
          simp only [Option.map_some, gist_isSorted, gist_isLocalVariable, outline_resolve mute]
          cases g.resolve producer start with
          | none => simp only [Option.map_none, outline_connectVariable mute]
          | some found => simp only [Option.map_some, connect_gist, gist_id, gist_name]

theorem outline_emitted : (outline g).nodes.filter (Node.isEmitted · container) =
    (g.nodes.filter (Node.isEmitted · container)).map gist := by
  refine outline_filter (fun n => ?_) fun n _ comment => ?_
  · rw [Node.isEmitted, gist_isSorted]
    rfl
  · simp [Node.isEmitted, comment]

/-! ## Whole assets -/

/-- The graph of an owner is lowered if the asset is: it is the top level, or
that of a node that holds a nested prototype. -/
def Nested (a : Asset) (owner : NodeId) : Prop :=
  owner = .root ∨ ∃ n ∈ allNodes a, n.isSubroutine = true ∧ n.id = owner

/-- Two editors of one asset whose lowered graphs have the same outlines. -/
structure SameOutline (e f : Editor) : Prop where
  reordered : Reordered e f
  outlines : ∀ owner g h, Nested e.asset owner → e.asset.graph? owner = some g →
    f.asset.graph? owner = some h → outline g = outline h

/-- The literals of variables do not depend on how graphs are stored. -/
theorem reordered_lowerVariables (reordered : Reordered e f) (g : SubGraph) :
    e.lowerVariables g = f.lowerVariables g := by
  have literals : e.asset.localVariables = f.asset.localVariables :=
    reordered_properties reordered .localVariable
  have runtime : e.toRuntime = f.toRuntime := by
    funext v
    rw [toRuntime, toRuntime, reordered_boneIndex reordered]
  simp only [lowerVariables_eq]
  congr 1
  · funext plugs named
    rw [addPlug, addPlug, runtime]
  · congr 1
    funext n
    simp only [namedLiteral?, variableLiteral?, literals]

theorem reordered_lowerLink (g : SubGraph) :
    (e.lowerLink g container self l).result = (f.lowerLink g container self l).result := by
  have connected (n : Node) (p : Pin) (d : Node) (q : Pin) :
      (e.connectVariable g self n p d q).result = (f.connectVariable g self n p d q).result := by
    rw [connectVariable, connectVariable]
    split <;> rfl
  rw [lowerLink, lowerLink]
  split
  · split
    · rfl
    · split
      · rfl
      · split
        · rfl
        · split
          · exact connected _ _ _ _
          · rfl
  · rfl
  · rfl

theorem reordered_lowerPlugs (reordered : Reordered e f) (n : Node) : e.lowerPlugs n = f.lowerPlugs n := by
  simp only [lowerPlugs, toRuntime, reordered_boneIndex reordered]

theorem reordered_isContainer (reordered : Reordered e f) (identified : Identified e.asset) (owner : NodeId) :
    e.isContainer owner = f.isContainer owner := by
  rw [isContainer, isContainer, rearranged_ownerKind reordered.assets identified]

/-- What is made of a graph's nodes is made of their gists. -/
theorem lowers_gist {r : RuntimeNode Prototype} : Lowers e depth (gist n) r ↔ Lowers e depth n r :=
  ⟨fun lowers => ⟨lowers.type, lowers.id, lowers.plugs, lowers.body⟩,
    fun lowers => ⟨lowers.type, lowers.id, lowers.plugs, lowers.body⟩⟩

theorem outline_lowerLinks (mute : MuteComments g) (also : MuteComments h) (same : outline g = outline h)
    {connections : List Connection} (lowered : (e.lowerLinks g container self).result = .ok connections) :
    (f.lowerLinks h container self).result = .ok connections := by
  obtain ⟨made, each, rfl⟩ := lowerLinks_ok_iff.mp lowered
  have links : h.links = g.links := (congrArg SubGraph.links same).symm
  refine lowerLinks_ok_iff.mpr ⟨made, ?_, rfl⟩
  rw [links]
  apply each.imp
  intro l c result
  rw [← outline_lowerLink also, ← same, outline_lowerLink mute, ← reordered_lowerLink (e := e)]
  exact result

theorem outline_assembled (reordered : Reordered e f) (mute : MuteComments g) (also : MuteComments h)
    (same : outline g = outline h) {nodes : List (RuntimeNode Prototype)} {connections : List Connection} :
    assembled e g owner self name nodes connections = assembled f h owner self name nodes connections := by
  have runtime : e.toRuntime = f.toRuntime := by
    funext v
    rw [toRuntime, toRuntime, reordered_boneIndex reordered]
  have inputs : e.lowerInputs = f.lowerInputs := by
    have entries : e.asset.inputs = f.asset.inputs := reordered_properties reordered .input
    rw [lowerInputs, lowerInputs, entries, runtime]
  have outputs : e.lowerOutputs g = f.lowerOutputs h := by
    rw [← outline_lowerOutputs, same, outline_lowerOutputs, lowerOutputs, lowerOutputs, runtime]
  have plugs : e.lowerVariables g = f.lowerVariables h := by
    rw [← outline_lowerVariables mute, same, outline_lowerVariables also, reordered_lowerVariables reordered]
  have skeleton := congrArg Asset.skeleton reordered.assets.rest
  rw [assembled, assembled, inputs, outputs, plugs, skeleton]

/-- Graphs with the same outlines are lowered to the same prototype. -/
theorem lowered_of_sameOutline (same : SameOutline e f) (identified : Identified e.asset)
    (mute : ∀ owner g, e.asset.graph? owner = some g → MuteComments g)
    (also : ∀ owner h, f.asset.graph? owner = some h → MuteComments h) (nested : Nested e.asset owner)
    (lowered : (e.lowerWithin depth owner self name).result = .ok q) :
    (f.lowerWithin depth owner self name).result = .ok q := by
  induction depth generalizing owner self name q with
  | zero => exact absurd lowered lowerWithin_zero
  | succ depth ih =>
    obtain ⟨g, held, nodes, connections, each, links, rfl⟩ := lowerWithin_ok_iff.mp lowered
    obtain ⟨h, inF, -⟩ := rearranged_graph same.reordered.assets held
    have outlines := same.outlines owner g h nested held inF
    rw [reordered_isContainer same.reordered identified] at each links
    refine lowerWithin_ok_iff.mpr ⟨h, inF, nodes, connections, ?_, ?_, ?_⟩
    · have gists : (g.nodes.filter (Node.isEmitted · (f.isContainer owner))).map gist =
          (h.nodes.filter (Node.isEmitted · (f.isContainer owner))).map gist := by
        rw [← outline_emitted, outlines, outline_emitted]
      have onGists : List.Forall₂ (fun n r => Lowers f depth n r)
          ((g.nodes.filter (Node.isEmitted · (f.isContainer owner))).map gist) nodes := by
        refine List.forall₂_map_left_iff.mpr (((List.forall₂_and_left _ _).mpr ⟨fun n member => member, each⟩).imp ?_)
        rintro n r ⟨member, lowers⟩
        refine lowers_gist.mpr ⟨lowers.type, lowers.id, ?_, ?_⟩
        · rw [← reordered_lowerPlugs same.reordered]
          exact lowers.plugs
        · have body := lowers.body
          split at body
          · rename_i owns
            obtain ⟨q, inner, placed⟩ := body
            have inside : n ∈ allNodes e.asset :=
              mem_allNodes.mpr ⟨owner, g, held, (List.mem_filter.mp member).1⟩
            rw [if_pos owns]
            exact ⟨q, ih (.inr ⟨n, inside, owns, rfl⟩) inner, placed⟩
          · rename_i plain
            rw [if_neg plain]
            exact body
      rw [gists] at onGists
      exact (List.forall₂_map_left_iff.mp onGists).imp fun n r lowers => lowers_gist.mp lowers
    · exact outline_lowerLinks (mute owner g held) (also owner h inF) outlines links
    · exact (outline_assembled same.reordered (mute owner g held) (also owner h inF) outlines).symm

end PoseGraph.LoweringOutline
