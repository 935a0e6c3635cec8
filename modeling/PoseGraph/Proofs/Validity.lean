import PoseGraph.Proofs.AssetOrder
import PoseGraph.Validation

/-! Validity does not depend on the order in which nodes and links are stored. A
check of a node stops at its first problem and asks for the first link at a pin,
but where no link is broken it comes down to questions that have no order: which
pins are linked, and which node is the only output. -/
namespace PoseGraph.Validity
open AssetOrder Editor GraphDependencies Rearrangement

variable {e f : Editor} {g h : SubGraph} {m n : Node} {p q : Pin}
variable {owner : NodeId} {depth : Nat} {label : String} {kind : Option NodeKind}

/-! ## Look-ups in graphs that are alike -/

/-- A pin is found by its identity. -/
theorem pin_of_member (unique : UniqueIds g) (member : n ∈ g.nodes) (held : p ∈ n.pins) :
    g.pin? p.id = some p := by
  have inside : p ∈ g.nodes.flatMap Node.pins := List.mem_flatMap.mpr ⟨n, member, held⟩
  cases found : g.pin? p.id with
  | some q =>
    obtain ⟨k, inK, inPins, same⟩ := pin_spec found
    have also : q ∈ g.nodes.flatMap Node.pins := List.mem_flatMap.mpr ⟨k, inK, inPins⟩
    rw [List.inj_on_of_nodup_map unique.pins also inside same]
  | none =>
    have missing := List.find?_eq_none.mp (List.findSome?_eq_none_iff.mp found n member) p held
    simp at missing

theorem alike_pin (alike : Alike g h) (unique : UniqueIds g) : g.pin? = h.pin? := by
  have forward {g h : SubGraph} (alike : Alike g h) (unique : UniqueIds h) (pin : PinId) (p : Pin)
      (found : g.pin? pin = some p) : h.pin? pin = some p := by
    obtain ⟨n, member, held, rfl⟩ := pin_spec found
    obtain ⟨m, inside, same⟩ := counterpart alike member
    exact pin_of_member unique inside (same_pins same ▸ held)
  funext pin
  exact Option.ext fun p => ⟨forward alike (alike_unique alike unique) pin p,
    forward (alike_symm alike) unique pin p⟩

theorem alike_isLinked (alike : Alike g h) (pin : PinId) : g.isLinked pin = h.isLinked pin :=
  alike.links.any_eq

/-- Where no pin is missing, a pin has a neighbour if it is linked. -/
theorem neighbour_isSome (whole : linkErrors g = []) (pin : PinId) :
    (g.neighbour? pin).isSome = g.isLinked pin := by
  have ends (l : Link) (member : l ∈ g.links) : ∃ p q, g.pin? l.source = some p ∧
      g.pin? l.target = some q := by
    have passes := List.filter_eq_nil_iff.mp (List.map_eq_nil_iff.mp whole) l member
    split at passes
    · exact ⟨_, _, ‹_›, ‹_›⟩
    · simp at passes
  have owned (pin : PinId) (p : Pin) (found : g.pin? pin = some p) : (g.nodeOfPin? pin).isSome := by
    obtain ⟨n, member, held, same⟩ := pin_spec found
    rw [SubGraph.nodeOfPin?, List.find?_isSome]
    exact ⟨n, member, hasPin_iff.mpr ⟨p, held, same⟩⟩
  rw [SubGraph.neighbour?, SubGraph.isLinked, SubGraph.linkAt?]
  cases found : g.links.find? (·.touches pin) with
  | none => simpa using List.find?_eq_none.mp found
  | some l =>
    obtain ⟨p, q, source, target⟩ := ends l (List.mem_of_find?_eq_some found)
    have touches : l.touches pin = true := by simpa using List.find?_some found
    have linked : g.links.any (·.touches pin) = true :=
      List.any_eq_true.mpr ⟨l, List.mem_of_find?_eq_some found, touches⟩
    rw [linked, Option.bind_some]
    split
    · exact owned _ q target
    · exact owned _ p source

/-- A graph with a single output finds it wherever it is stored. -/
theorem alike_output (alike : Alike g h)
    (single : (g.nodes.filter (·.name == "Output")).length ≤ 1) :
    (g.nodeNamed? "Output").map bare = (h.nodeNamed? "Output").map bare := by
  have perm := filter_map_perm (p := (·.name == "Output")) (f := bare) (fun _ => rfl) (fun _ => rfl) alike
  have same : (g.nodes.filter (·.name == "Output")).map bare =
      (h.nodes.filter (·.name == "Output")).map bare := by
    cases outputs : g.nodes.filter (·.name == "Output") with
    | nil =>
      rw [outputs] at perm
      exact perm.nil_eq
    | cons n rest =>
      rw [outputs] at perm single
      obtain rfl : rest = [] := List.eq_nil_of_length_eq_zero (by simpa using single)
      exact List.singleton_perm.mp perm
  have heads := congrArg List.head? same
  rwa [List.head?_map, List.head?_map, List.head?_filter, List.head?_filter] at heads

/-! ## One problem at a time -/

/-- Two editors of one asset whose graphs may be stored in different orders. -/
structure Reordered (e f : Editor) : Prop where
  assets : Rearranged e.asset f.asset
  catalog : f.catalog = e.catalog

theorem reordered_properties (reordered : Reordered e f) (kind : PropertyKind) :
    e.asset.properties kind = f.asset.properties kind := by
  have rest := reordered.assets.rest
  cases kind with
  | input => exact (congrArg Asset.inputs rest).symm
  | output => exact (congrArg Asset.outputs rest).symm
  | localVariable => exact (congrArg Asset.localVariables rest).symm

theorem reordered_boneIndex (reordered : Reordered e f) : e.boneIndex = f.boneIndex := by
  funext bone
  rw [boneIndex, boneIndex, reordered.catalog, congrArg Asset.skeleton reordered.assets.rest]

theorem reordered_size (reordered : Reordered e f) : e.asset.graphs.size = f.asset.graphs.size :=
  reordered.assets.graphs.length_eq

theorem reordered_isKnown (reordered : Reordered e f) (same : bare m = bare n) :
    e.isKnown n = f.isKnown m := by
  have properties : e.asset.isPropertyNode n = f.asset.isPropertyNode n := by
    simp only [Asset.isPropertyNode, Asset.isPropertyNodeOf, reordered_properties reordered]
  rw [same_blind (f := f.isKnown) (fun _ => rfl) same, isKnown, isKnown, properties]

/-- An input has the same problem in both editors. -/
theorem reordered_inputError (reordered : Reordered e f) (alike : Alike g h) (whole : linkErrors g = [])
    (also : linkErrors h = []) (p : Pin) : e.inputError? g p = f.inputError? h p := by
  have neighbours : (g.neighbour? p.id).isNone = (h.neighbour? p.id).isNone := by
    rw [← Option.not_isSome, ← Option.not_isSome, neighbour_isSome whole, neighbour_isSome also,
      alike_isLinked alike]
  simp only [inputError?, neighbours, reordered.catalog, reordered_boneIndex reordered]

/-- Where links are not broken, outputs have no problem. -/
theorem outputError_none (unique : UniqueIds g) (whole : linkErrors g = []) (member : n ∈ g.nodes)
    (held : p ∈ n.pins) : outputError? g p = none := by
  rw [outputError?]
  cases found : g.links.find? (·.source == p.id) with
  | none => rfl
  | some l =>
    have source : l.source = p.id := by simpa using List.find?_some found
    have passes := List.filter_eq_nil_iff.mp (List.map_eq_nil_iff.mp whole) l
      (List.mem_of_find?_eq_some found)
    rw [source, pin_of_member unique member held] at passes
    split at passes
    · rename_i k q start finish
      cases start
      have typed : p.sameType q = true := by simpa using passes
      have reversed : q.sameType p = true := by
        rw [Pin.sameType, beq_iff_eq] at typed ⊢
        exact typed.symm
      simp only [finish, reversed, ↓reduceIte]
    · simp at passes

/-- A node whose pins are in order in one editor has them in order in the other. -/
theorem reordered_pinError (reordered : Reordered e f) (alike : Alike g h) (unique : UniqueIds g)
    (whole : linkErrors g = []) (also : linkErrors h = []) (same : bare m = bare n)
    (member : m ∈ h.nodes) (fine : e.pinError? g n = none) : f.pinError? h m = none := by
  simp only [pinError?, Option.or_eq_none_iff, List.findSome?_eq_none_iff] at fine ⊢
  constructor
  · intro p held
    rw [← reordered_inputError reordered alike whole also]
    exact fine.1 p (same_blind (f := Node.inputs) (fun _ => rfl) same ▸ held)
  · intro p held
    exact outputError_none (alike_unique alike unique) also member (List.mem_append_right _ held)

theorem reordered_bodyError (alike : Alike g h) (same : bare m = bare n)
    (single : (g.nodes.filter (·.name == "Output")).length ≤ 1) : bodyError? n g = bodyError? m h := by
  have outputs := alike_output alike single
  have label : n.description = m.description := same_blind (fun _ => rfl) same.symm
  rw [bodyError?, bodyError?, same_kind same, label]
  cases left : g.nodeNamed? "Output" <;> cases right : h.nodeNamed? "Output" <;>
    simp only [left, right, Option.map_none, Option.map_some, reduceCtorEq, Option.some.injEq] at outputs
  · rfl
  · have inputs := same_blind (f := Node.inputs) (fun _ => rfl) outputs
    simp only [inputs, alike_isLinked alike]
    rfl

/-- The asset of an editor in which every graph has sound links and one output at
most. -/
structure Orderly (e : Editor) : Prop where
  whole : ∀ owner g, e.asset.graph? owner = some g → linkErrors g = []
  single : ∀ owner g, e.asset.graph? owner = some g →
    (g.nodes.filter (·.name == "Output")).length ≤ 1

theorem reordered_body (reordered : Reordered e f) (same : bare m = bare n) (body : e.body? n = some g) :
    ∃ h, f.body? m = some h ∧ Alike g h ∧ e.asset.graph? n.id = some g ∧ f.asset.graph? m.id = some h := by
  obtain ⟨held, large⟩ := Option.filter_eq_some_iff.mp body
  obtain ⟨h, also, alike⟩ := rearranged_graph reordered.assets held
  rw [← same_id same] at also
  refine ⟨h, Option.filter_eq_some_iff.mpr ⟨also, ?_⟩, alike, held, also⟩
  rwa [same_kind same, ← alike_length alike]

/-- A node without a problem in one editor has none in the other. -/
theorem reordered_nodeError (reordered : Reordered e f) (identified : Identified e.asset)
    (orderly : Orderly e) (broken : ∀ owner h, f.asset.graph? owner = some h → linkErrors h = [])
    (same : bare m = bare n) (held : f.asset.graph? owner = some h) (member : m ∈ h.nodes)
    (fine : e.nodeErrorWithin depth owner n = none) : f.nodeErrorWithin depth owner m = none := by
  induction depth generalizing owner h m n with
  | zero => rfl
  | succ depth ih =>
    have subroutine : m.isSubroutine = n.isSubroutine := same_blind (fun _ => rfl) same
    rw [nodeErrorWithin] at fine ⊢
    rw [subroutine]
    split at fine
    · rename_i owns
      rw [if_pos owns]
      split at fine
      · cases fine
      · rename_i g body
        obtain ⟨k, also, alike, inE, inF⟩ := reordered_body reordered same body
        simp only [Option.or_eq_none_iff, List.findSome?_eq_none_iff] at fine
        simp only [also, Option.or_eq_none_iff, List.findSome?_eq_none_iff]
        constructor
        · intro x inside
          obtain ⟨y, inG, bareSame⟩ := counterpart (alike_symm alike) inside
          have above := fine.1 y inG
          rw [← same_id same] at above
          exact ih bareSame.symm inF inside above
        · rw [← reordered_bodyError alike same (orderly.single _ _ inE)]
          exact fine.2
    · rename_i plain
      rw [if_neg plain]
      obtain ⟨g, before, alike⟩ := rearranged_graph (rearranged_symm reordered.assets) held
      rw [before, Option.bind_some] at fine
      rw [held, Option.bind_some]
      exact reordered_pinError reordered (alike_symm alike) (identified_unique identified before)
        (orderly.whole _ _ before) (broken _ _ held) same member fine

/-! ## Reports -/

theorem hasDuplicates_eq_false_iff {points : List Point} :
    hasDuplicates points = false ↔ points.Pairwise fun p q => p.same q = false := by
  induction points with
  | nil => simp [hasDuplicates]
  | cons p ps ih => simp [hasDuplicates, ih]

theorem scalar_same_comm (x y : Scalar) : x.same y = y.same x := by
  simp only [Scalar.same, Bool.beq_comm (a := x.bits), Bool.and_comm (x.magnitude == 0)]
  rw [Bool.and_comm (!x.isNaN)]

theorem hasDuplicates_perm {xs ys : List Point} (perm : xs.Perm ys) : hasDuplicates xs = hasDuplicates ys := by
  have symmetric : ∀ {p q : Point}, p.same q = false → q.same p = false := by
    intro p q apart
    rw [Point.same, scalar_same_comm, scalar_same_comm q.y]
    exact apart
  have iff : hasDuplicates xs = false ↔ hasDuplicates ys = false := by
    rw [hasDuplicates_eq_false_iff, hasDuplicates_eq_false_iff]
    exact perm.pairwise_iff symmetric
  cases left : hasDuplicates xs <;> cases right : hasDuplicates ys <;> simp_all

/-- The errors of all graphs. -/
theorem validate_errors_eq_nil_iff : e.validate.errors = [] ↔
    ∀ owner g, e.asset.graph? owner = some g → (e.graphReport owner g).errors = [] := by
  have fold (entries : List (NodeId × SubGraph)) (r : ValidationReport) :
      (entries.foldl (fun r entry => r.append (e.graphReport entry.1 entry.2)) r).errors = [] ↔
        r.errors = [] ∧ ∀ entry ∈ entries, (e.graphReport entry.1 entry.2).errors = [] := by
    induction entries generalizing r with
    | nil => simp
    | cons entry entries ih =>
      rw [List.foldl_cons, ih]
      simp only [ValidationReport.append, List.append_eq_nil_iff, List.forall_mem_cons, and_assoc]
  rw [validate, fold]
  constructor
  · rintro ⟨-, each⟩ owner g held
    exact each (owner, g) (get_eq_some_iff.mp held)
  · intro each
    exact ⟨rfl, fun entry inside => each entry.1 entry.2 (get_eq_some_iff.mpr inside)⟩

theorem nodeErrors_eq_nil_iff : e.nodeErrors owner g n = [] ↔ e.isKnown n = true ∧
    (∀ p ∈ n.inputs, p.value.isVoid = true → g.isLinked p.id = true ∨ p.isFlow = true) ∧
      e.nodeError? owner n = none := by
  simp only [nodeErrors, List.append_eq_nil_iff, List.map_eq_nil_iff, List.filter_eq_nil_iff,
    Option.toList_eq_nil_iff, ite_eq_left_iff, List.cons_ne_nil, imp_false, Bool.not_eq_true,
    Bool.not_eq_false, and_assoc]
  refine and_congr_right fun _ => and_congr_left fun _ => forall₂_congr fun p _ => ?_
  cases p.value.isVoid <;> cases g.isLinked p.id <;> simp

/-- The node that owns a graph, as messages need it. -/
def ownerNode? (e : Editor) (owner : NodeId) : Option Node :=
  if owner.isRoot then none else e.asset.findNode? owner

theorem graphReport_errors_eq_nil_iff : (e.graphReport owner g).errors = [] ↔
    (∀ n ∈ g.nodes, n.isComment = false → e.nodeErrors owner g n = []) ∧
      outputErrors owner (((ownerNode? e owner).map Node.description).getD "")
        ((ownerNode? e owner).map Node.kind) g = [] ∧
      (e.containerReport (((ownerNode? e owner).map Node.description).getD "")
        ((ownerNode? e owner).map Node.kind) g).errors = [] ∧ linkErrors g = [] := by
  simp only [graphReport, ValidationReport.append, ValidationReport.ofErrors,
    List.append_eq_nil_iff, List.flatMap_eq_nil_iff, List.mem_filter, Bool.not_eq_true', and_imp,
    ownerNode?, and_assoc]

/-- What messages say about the owner of a graph is the same for both. -/
theorem reordered_ownerNode {α : Type} {k : Node → α} (blind : ∀ n, k (bare n) = k n)
    (reordered : Reordered e f) (identified : Identified e.asset) (owner : NodeId) :
    (ownerNode? e owner).map k = (ownerNode? f owner).map k := by
  have nodes : (ownerNode? e owner).map bare = (ownerNode? f owner).map bare := by
    rw [ownerNode?, ownerNode?]
    split
    · rfl
    · exact rearranged_findNode reordered.assets identified owner
  have mapped := congrArg (Option.map k) nodes
  rw [Option.map_map, Option.map_map] at mapped
  have same : k ∘ bare = k := funext blind
  rwa [same] at mapped

theorem reordered_outputErrors (alike : Alike g h) :
    outputErrors owner label kind g = outputErrors owner label kind h := by
  have outputs := (filter_map_perm (p := fun n => !n.isComment && n.name == "Output") (f := Node.id)
    (fun _ => rfl) (fun _ => rfl) alike).length_eq
  rw [List.length_map, List.length_map] at outputs
  simp only [outputErrors, outputs]

/-- The places of a blend space's vertices. -/
def vertexPlaces (g : SubGraph) : List Point :=
  (g.nodes.filter fun n => n.name == "Blend Space Vertex").map Node.offset

theorem blendSpaceReport_errors_eq_nil_iff : (e.blendSpaceReport label g).errors = [] ↔
    vertexPlaces g ≠ [] ∧ hasDuplicates (vertexPlaces g) = false := by
  simp only [blendSpaceReport, ← vertexPlaces.eq_def]
  by_cases empty : vertexPlaces g = []
  · simp [empty, ValidationReport.ofErrors]
  · have some : (vertexPlaces g).isEmpty = false := by simpa using empty
    by_cases repeated : hasDuplicates (vertexPlaces g) = true
    · simp [some, repeated, ValidationReport.ofErrors]
    · simp only [some, repeated, Bool.false_eq_true, ↓reduceIte, empty, ne_eq, not_false_eq_true,
        true_and]
      split <;> simp [ValidationReport.empty]

theorem reordered_containerReport (alike : Alike g h)
    (fine : (e.containerReport label kind g).errors = []) : (f.containerReport label kind h).errors = [] := by
  rw [containerReport.eq_def] at fine ⊢
  split
  · have states : g.nodes.any Node.isState = h.nodes.any Node.isState := by
      have perm := map_perm (f := Node.isState) (fun _ => rfl) alike
      simpa only [List.any_map, Function.comp_def] using perm.any_eq (f := fun x => x)
    simpa only [ValidationReport.ofErrors, machineErrors, states] using fine
  · have places : (vertexPlaces g).Perm (vertexPlaces h) :=
      filter_map_perm (fun _ => rfl) (fun _ => rfl) alike
    obtain ⟨some, apart⟩ := blendSpaceReport_errors_eq_nil_iff.mp fine
    refine blendSpaceReport_errors_eq_nil_iff.mpr ⟨fun none => some ?_, ?_⟩
    · exact (none ▸ places).eq_nil
    · rwa [← hasDuplicates_perm places]
  · rfl

theorem reordered_linkErrors (alike : Alike g h) (unique : UniqueIds g) (whole : linkErrors g = []) :
    linkErrors h = [] := by
  rw [linkErrors, List.map_eq_nil_iff, List.filter_eq_nil_iff] at whole ⊢
  rw [← alike_pin alike unique]
  exact fun l member => whole l (alike.links.mem_iff.mpr member)

/-! ## Whole assets -/

/-- No annotation passes for an output. -/
def PlainComments (a : Asset) : Prop :=
  ∀ n ∈ allNodes a, n.isComment = true → n.name ≠ "Output"

theorem orderly_of_valid (plain : PlainComments e.asset) (valid : e.validate.errors = []) : Orderly e := by
  constructor
  · intro owner g held
    exact (graphReport_errors_eq_nil_iff.mp (validate_errors_eq_nil_iff.mp valid owner g held)).2.2.2
  · intro owner g held
    have outputs :=
      (graphReport_errors_eq_nil_iff.mp (validate_errors_eq_nil_iff.mp valid owner g held)).2.1
    have same : g.nodes.filter (·.name == "Output") =
        g.nodes.filter fun n => !n.isComment && n.name == "Output" := by
      apply List.filter_congr
      intro n member
      by_cases comment : n.isComment = true
      · simpa [comment] using plain n (mem_allNodes.mpr ⟨owner, g, held, member⟩) comment
      · simp [comment]
    rw [same]
    by_contra many
    rw [outputErrors, if_pos (by omega)] at outputs
    cases outputs

/-- A valid asset stays valid however its nodes and links are stored. -/
theorem valid_reordered (reordered : Reordered e f) (identified : Identified e.asset)
    (plain : PlainComments e.asset) (valid : e.validate.errors = []) : f.validate.errors = [] := by
  have orderly := orderly_of_valid plain valid
  have whole : ∀ owner h, f.asset.graph? owner = some h → linkErrors h = [] := by
    intro owner h held
    obtain ⟨g, before, alike⟩ := rearranged_graph (rearranged_symm reordered.assets) held
    exact reordered_linkErrors (alike_symm alike) (identified_unique identified before)
      (orderly.whole _ _ before)
  rw [validate_errors_eq_nil_iff] at valid ⊢
  intro owner h held
  obtain ⟨g, before, backwards⟩ := rearranged_graph (rearranged_symm reordered.assets) held
  have alike := alike_symm backwards
  obtain ⟨nodes, outputs, container, -⟩ := graphReport_errors_eq_nil_iff.mp (valid owner g before)
  have kinds := reordered_ownerNode (k := Node.kind) (fun _ => rfl) reordered identified owner
  have labels := reordered_ownerNode (k := Node.description) (fun _ => rfl) reordered identified owner
  rw [kinds, labels] at outputs container
  refine graphReport_errors_eq_nil_iff.mpr ⟨?_, ?_, ?_, whole owner h held⟩
  · intro m member text
    obtain ⟨n, inside, same⟩ := counterpart (alike_symm alike) member
    have comment : n.isComment = m.isComment := same_blind (fun _ => rfl) same
    obtain ⟨known, linked, fine⟩ := nodeErrors_eq_nil_iff.mp (nodes n inside (comment.trans text))
    refine nodeErrors_eq_nil_iff.mpr ⟨?_, ?_, ?_⟩
    · rw [← reordered_isKnown reordered same.symm]
      exact known
    · intro p held
      rw [← alike_isLinked alike]
      exact linked p (same_blind (f := Node.inputs) (fun _ => rfl) same ▸ held)
    · rw [nodeError?, ← reordered_size reordered]
      exact reordered_nodeError reordered identified orderly whole same.symm held member fine
  · rw [← reordered_outputErrors alike]
    exact outputs
  · exact reordered_containerReport alike container

end PoseGraph.Validity
