import PoseGraph.Proofs.CompiledGraphs
import PoseGraph.Proofs.RenamedValidity

/-! What is compiled from an asset in which a local variable has got another name. The runtime
knows a variable by an identifier made of its name. Where no other variable has the same
identifier, the prototype is the one before with the new identifier in place of the old. -/
namespace PoseGraph.RenamedPrototypes
open CompiledGraphs EditRuns Editor EditorCoherence IndexRanks LoweringSemantics PropertyKeys ReachableEditors
  RenamedValidity RenamedVariables VariableSpelling

variable {α β γ : Type} {e f : Editor} {g : SubGraph} {m n : Node} {p q : Pin} {owner self : NodeId}
variable {depth : Nat} {container : Bool} {old new name : String} {before after : Identifier}
variable {plugs : List Endpoint} {connections : List Connection} {made : Prototype}

/-! ## Replacing an identifier -/

/-- An identifier once another one has taken the place of the old one. -/
def replaced (before after id : Identifier) : Identifier := if id = before then after else id

/-- The literal of a local variable. -/
def replacedPlug (before after : Identifier) (plug : Endpoint) : Endpoint :=
  { plug with id := replaced before after plug.id }

/-- A connection; its source is an identifier of a local variable only if its kind says so. -/
def replacedSource (before after : Identifier) (c : Connection) : Connection :=
  match c.kind with
  | .localVariableToNodeValue | .localVariableToGraphValue =>
    { c with source := { c.source with endpoint := replaced before after c.source.endpoint } }
  | _ => c

mutual

/-- A prototype, at every level. -/
def replacedIn (before after : Identifier) : Prototype → Prototype
  | ⟨name, id, skeleton, inputs, outputs, plugs, nodes, connections⟩ =>
    ⟨name, id, skeleton, inputs, outputs, plugs.map (replacedPlug before after), replacedNodes before after nodes,
      connections.map (replacedSource before after)⟩

/-- The nodes in a list. -/
def replacedNodes (before after : Identifier) : List (RuntimeNode Prototype) → List (RuntimeNode Prototype)
  | [] => []
  | ⟨type, id, plugs, none⟩ :: rest => ⟨type, id, plugs, none⟩ :: replacedNodes before after rest
  | ⟨type, id, plugs, some sub⟩ :: rest =>
    ⟨type, id, plugs, some (replacedIn before after sub)⟩ :: replacedNodes before after rest

end

/-- A node with the prototype that it holds. -/
def replacedNode (before after : Identifier) (r : RuntimeNode Prototype) : RuntimeNode Prototype :=
  { r with subroutine := r.subroutine.map (replacedIn before after) }

theorem replacedNodes_eq (nodes : List (RuntimeNode Prototype)) :
    replacedNodes before after nodes = nodes.map (replacedNode before after) := by
  induction nodes with
  | nil => rw [replacedNodes, List.map_nil]
  | cons r nodes ih =>
    obtain ⟨type, id, plugs, subroutine⟩ := r
    cases subroutine <;> rw [replacedNodes, ih, List.map_cons, replacedNode] <;> rfl

/-- No other variable is known to the runtime by one of the two identifiers. -/
def Apart (old new : String) (e : Editor) : Prop := ∀ name ∈ e.asset.localVariables.keys, name ≠ old →
  Identifier.ofProperty name ≠ .ofProperty old ∧ Identifier.ofProperty name ≠ .ofProperty new

theorem replaced_ofProperty (apart : Apart old new e) (known : name ∈ e.asset.localVariables.keys) :
    replaced (.ofProperty old) (.ofProperty new) (.ofProperty name) = .ofProperty (spelling old new name) := by
  by_cases same : name = old
  · rw [replaced, spelling, if_pos same, if_pos (congrArg _ same)]
  · rw [replaced, spelling, if_neg same, if_neg (apart name known same).1]

/-- Variables that have different identifiers have different ones by their new names, too. -/
theorem ofProperty_spelling (apart : Apart old new e) {x y : String} (knownX : x ∈ e.asset.localVariables.keys)
    (knownY : y ∈ e.asset.localVariables.keys) :
    Identifier.ofProperty (spelling old new x) = .ofProperty (spelling old new y) ↔
      Identifier.ofProperty x = .ofProperty y := by
  by_cases sameX : x = old <;> by_cases sameY : y = old
  · rw [sameX, sameY]
    exact iff_of_true rfl rfl
  · obtain ⟨notOld, notNew⟩ := apart y knownY sameY
    rw [spelling, spelling, if_pos sameX, if_neg sameY, sameX]
    exact iff_of_false notNew.symm notOld.symm
  · obtain ⟨notOld, notNew⟩ := apart x knownX sameX
    rw [spelling, spelling, if_neg sameX, if_pos sameY, sameY]
    exact iff_of_false notNew notOld
  · rw [spelling, spelling, if_neg sameX, if_neg sameY]

/-! ## Literals -/

theorem respelled_toRuntime (related : Respelled old new e f) : f.toRuntime = e.toRuntime := by
  funext v
  rw [toRuntime, toRuntime, respelled_boneIndex related]

theorem respelled_lowerPlugs (related : Respelled old new e f) (n : Node) : f.lowerPlugs n = e.lowerPlugs n := by
  rw [lowerPlugs, lowerPlugs, respelled_toRuntime related]

theorem respelled_lowerInputs (related : Respelled old new e f) : f.lowerInputs = e.lowerInputs := by
  have inputs : f.asset.inputs = e.asset.inputs := (congrArg Asset.inputs related.rest :)
  rw [lowerInputs, lowerInputs, respelled_toRuntime related, inputs]

theorem respelled_lowerOutputs (related : Respelled old new e f) (spelled : Spelled old new g)
    (output : "Output" ≠ old ∧ "Output" ≠ new) : f.lowerOutputs (respell old new g) = e.lowerOutputs g := by
  have outputs := respelled_filter spelled output.1 output.2 (k := fun n => !n.isComment) fun n => by
    rw [respelled_isComment]
  rw [lowerOutputs, lowerOutputs, respelled_toRuntime related, ← List.head?_filter, ← List.head?_filter, outputs,
    List.head?_map]
  cases found : (g.nodes.filter fun n => !n.isComment && n.name == "Output").head? with
  | none => rfl
  | some n =>
    obtain ⟨member, named⟩ := List.mem_filter.mp (List.mem_of_head? found)
    have other : n.variableName? ≠ some old := fun own => by
      simp [spelled.named n member own, output.1.symm] at named
    rw [Option.map_some, respelled_other other]

/-- A node gives its variable the same literal by both names. -/
theorem respelled_namedLiteral (related : Respelled old new e f) (spelled : Spelled old new g) (member : n ∈ g.nodes) :
    namedLiteral? f (respell old new g) (respelled old new n) =
      (namedLiteral? e g n).map fun named => (spelling old new named.1, named.2) := by
  rw [namedLiteral?, namedLiteral?, respelled_variableName]
  cases named : n.variableName? with
  | none => rfl
  | some name =>
    have free : name ≠ new := fun same => spelled.free n member (same ▸ named)
    have literal : f.variableLiteral? (respell old new g) (respelled old new n) (spelling old new name) =
        e.variableLiteral? g n name := by
      have pin : (((respelled old new n).inputs.head?.filter Pin.hasLiteral).map Pin.value) =
          (n.inputs.head?.filter Pin.hasLiteral).map Pin.value := by
        rw [respelled_inputs, List.head?_map]
        cases n.inputs.head? with
        | none => rfl
        | some p =>
          rw [Option.map_some, Option.filter_some, Option.filter_some, respelledPin_hasLiteral]
          split_ifs <;> simp
      rw [variableLiteral?, variableLiteral?, respelled_isSetter, respell_setter spelled free, Option.isNone_map,
        related.values name free, pin]
    rw [Option.map_some, Option.bind_some, Option.bind_some, literal, Option.map_map]
    cases e.variableLiteral? g n name <;> rfl

/-- A literal was there before or is that of the variable that is added. -/
theorem mem_addPlug {plug : Endpoint} {named : String × Value} (member : plug ∈ addPlug e plugs named) :
    plug ∈ plugs ∨ plug.id = .ofProperty named.1 := by
  rw [addPlug] at member
  split at member
  · exact .inl member
  · rcases List.mem_append.mp member with old | new
    · exact .inl old
    · exact .inr (List.mem_singleton.mp new ▸ rfl)

/-- A variable that has a literal already by the one name has one by the other. -/
theorem respelled_addPlug (related : Respelled old new e f) (apart : Apart old new e)
    (plugged : ∀ plug ∈ plugs, ∃ name ∈ e.asset.localVariables.keys, plug.id = .ofProperty name)
    (known : name ∈ e.asset.localVariables.keys) (v : Value) :
    addPlug f (plugs.map (replacedPlug (.ofProperty old) (.ofProperty new))) (spelling old new name, v) =
      (addPlug e plugs (name, v)).map (replacedPlug (.ofProperty old) (.ofProperty new)) := by
  have taken : (plugs.map (replacedPlug (.ofProperty old) (.ofProperty new))).any
        (fun plug => plug.id == .ofProperty (spelling old new name)) =
      plugs.any fun plug => plug.id == .ofProperty name := by
    rw [List.any_map, Bool.eq_iff_iff, List.any_eq_true, List.any_eq_true]
    refine exists_congr fun plug => and_congr_right fun member => ?_
    obtain ⟨other, there, same⟩ := plugged plug member
    rw [Function.comp_apply, beq_iff_eq, beq_iff_eq, replacedPlug, same, replaced_ofProperty apart there]
    exact ofProperty_spelling apart there known
  rw [addPlug, addPlug, taken, respelled_toRuntime related]
  split
  · rfl
  · simp [replacedPlug, replaced_ofProperty apart known]

theorem respelled_addPlugs (related : Respelled old new e f) (apart : Apart old new e) (plugs : List Endpoint)
    (named : List (String × Value)) (known : ∀ x ∈ named, x.1 ∈ e.asset.localVariables.keys)
    (plugged : ∀ plug ∈ plugs, ∃ name ∈ e.asset.localVariables.keys, plug.id = .ofProperty name) :
    (named.map fun x => (spelling old new x.1, x.2)).foldl (addPlug f)
        (plugs.map (replacedPlug (.ofProperty old) (.ofProperty new))) =
      (named.foldl (addPlug e) plugs).map (replacedPlug (.ofProperty old) (.ofProperty new)) := by
  induction named generalizing plugs with
  | nil => rfl
  | cons x named ih =>
    have here := known x (List.mem_cons_self ..)
    rw [List.map_cons, List.foldl_cons, List.foldl_cons, respelled_addPlug related apart plugged here]
    refine ih _ (fun y later => known y (List.mem_cons_of_mem _ later)) fun plug member => ?_
    rcases mem_addPlug member with before | same
    · exact plugged plug before
    · exact ⟨x.1, here, same⟩

theorem respelled_lowerVariables (related : Respelled old new e f) (apart : Apart old new e)
    (spelled : Spelled old new g)
    (declared : ∀ n ∈ g.nodes, ∀ name, n.variableName? = some name → name ∈ e.asset.localVariables.keys) :
    f.lowerVariables (respell old new g) =
      (e.lowerVariables g).map (replacedPlug (.ofProperty old) (.ofProperty new)) := by
  have literals : (respell old new g).nodes.filterMap (namedLiteral? f (respell old new g)) =
      (g.nodes.filterMap (namedLiteral? e g)).map fun x => (spelling old new x.1, x.2) := by
    rw [respell, List.filterMap_map, List.map_filterMap]
    exact List.filterMap_congr fun n member => respelled_namedLiteral related spelled member
  rw [lowerVariables_eq, lowerVariables_eq, literals]
  refine respelled_addPlugs related apart [] _ (fun x member => ?_) fun _ member => (List.not_mem_nil member).elim
  obtain ⟨n, inside, named⟩ := List.mem_filterMap.mp member
  obtain ⟨name, reads, literal⟩ := Option.bind_eq_some_iff.mp named
  obtain ⟨v, -, rfl⟩ := Option.map_eq_some_iff.mp literal
  exact declared n inside name reads

/-! ## Connections -/

/-- Connections between nodes do not speak of variables. -/
theorem replaced_connect (before after : Identifier) (self : NodeId) (m : Node) (p : Pin) (n : Node) (q : Pin) :
    (connect self m p n q).map (replacedSource before after) = connect self m p n q := by
  simp only [connect]
  generalize (m.name == "Input") = fromInput
  by_cases toOutput : n.name = "Output"
  · rw [if_pos toOutput]
    cases fromInput <;> rfl
  · by_cases toEvent : n.name = "Event"
    · rw [if_neg toOutput, if_pos toEvent]
      cases fromInput with
      | true => rfl
      | false =>
        rw [if_neg Bool.false_ne_true]
        split <;> rfl
    · rw [if_neg toOutput, if_neg toEvent]
      cases fromInput <;> cases p.isFlow <;> rfl

/-- Where variables lead nowhere they are read. -/
theorem variable_of_unresolved (unfed : g.resolve n p = none) : n.isLocalVariable = true := by
  by_contra plain
  rw [SubGraph.resolve, SubGraph.resolveWithin.eq_def] at unfed
  simp [plain] at unfed

theorem respelled_connectVariable (apart : Apart old new e) (isVariable : m.isLocalVariable = true)
    (declared : ∀ name, m.variableName? = some name → name ∈ e.asset.localVariables.keys) :
    (f.connectVariable (respell old new g) self (respelled old new m) (pinIn old new g p) n q).result =
      (e.connectVariable g self m p n q).result.map
        (Option.map (replacedSource (.ofProperty old) (.ofProperty new))) := by
  obtain ⟨own, -, named⟩ := GraphDependencies.variable_shape isVariable
  have flow : (pinIn old new g p).isFlow = p.isFlow := by rw [Pin.isFlow, Pin.isFlow, pinIn_type]
  rw [connectVariable, connectVariable, flow, respelled_variableName, named]
  split
  · rfl
  · have source := replaced_ofProperty apart (declared own.name named)
    simp only [Option.map_some, Option.getD_some, ← source]
    split <;> rfl

/-- What becomes of a link goes by the new name if it goes by the old one. -/
theorem respelled_lowerLink (apart : Apart old new e) (spelled : Spelled old new g)
    (declared : ∀ n ∈ g.nodes, ∀ name, n.variableName? = some name → name ∈ e.asset.localVariables.keys) (l : Link) :
    (f.lowerLink (respell old new g) container self l).result =
      (e.lowerLink g container self l).result.map
        (Option.map (replacedSource (.ofProperty old) (.ofProperty new))) := by
  rw [lowerLink, lowerLink, respell_pin, respell_nodeOfPin, respell_pin, respell_nodeOfPin]
  cases starts : g.pin? l.source with
  | none => rfl
  | some start =>
    cases produces : g.nodeOfPin? l.source with
    | none => rfl
    | some producer =>
      cases ends : g.pin? l.target with
      | none => rfl
      | some finish =>
        cases consumes : g.nodeOfPin? l.target with
        | none => rfl
        | some destination =>
          have typed : (pinIn old new g start).sameType (pinIn old new g finish) = start.sameType finish := by
            rw [Pin.sameType, Pin.sameType, pinIn_type, pinIn_type]
          simp only [Option.map_some, typed, respelled_isSorted, respelled_isLocalVariable]
          split_ifs with differ unplaced unset
          · rfl
          · rfl
          · rfl
          · have plain : destination.isLocalVariable = false := by simpa using unset
            have atFinish : pinIn old new g finish = finish := by
              rw [pinIn_eq ((pin_id ends).symm ▸ consumes), respelledPin_plain plain]
            have atStart (plain : producer.isLocalVariable = false) : pinIn old new g start = start := by
              rw [pinIn_eq ((pin_id starts).symm ▸ produces), respelledPin_plain plain]
            have member := List.mem_of_find?_eq_some produces
            rw [respell_resolve spelled member atStart, respelled_plain plain, atFinish]
            cases resolved : g.resolve producer start with
            | none => exact respelled_connectVariable apart (variable_of_unresolved resolved) (declared producer member)
            | some found =>
              obtain ⟨m, s⟩ := found
              by_cases action : m.name = "Input Action"
              · simp only [action, if_true]
                rfl
              · have same := replaced_connect (.ofProperty old) (.ofProperty new) self m s destination finish
                simp only [action, if_false, Lowering.ofResult]
                cases joined : connect self m s destination finish with
                | error cause => rfl
                | ok c =>
                  rw [joined] at same
                  exact congrArg (Except.ok ∘ some) (Except.ok.inj same).symm

/-- Where each element becomes a changed one, the list becomes a changed list. -/
theorem forall₂_changed {R : α → β → Prop} {S : α → γ → Prop} {k : β → γ} {xs : List α} {zs : List γ}
    (each : ∀ x ∈ xs, ∀ z, S x z ↔ ∃ y, R x y ∧ k y = z) :
    List.Forall₂ S xs zs ↔ ∃ ys, List.Forall₂ R xs ys ∧ ys.map k = zs := by
  induction xs generalizing zs with
  | nil => simp
  | cons x xs ih =>
    have rest (zs : List γ) : List.Forall₂ S xs zs ↔ ∃ ys, List.Forall₂ R xs ys ∧ ys.map k = zs :=
      ih fun y later => each y (List.mem_cons_of_mem _ later)
    simp only [List.forall₂_cons_left_iff, each x (List.mem_cons_self ..), rest]
    constructor
    · rintro ⟨_, _, ⟨y, here, rfl⟩, ⟨ys, there, rfl⟩, rfl⟩
      exact ⟨y :: ys, ⟨y, ys, here, there, rfl⟩, rfl⟩
    · rintro ⟨_, ⟨y, ys, here, there, rfl⟩, rfl⟩
      exact ⟨k y, ys.map k, ⟨y, here, rfl⟩, ⟨ys, there, rfl⟩, rfl⟩

theorem respelled_lowerLinks (apart : Apart old new e) (spelled : Spelled old new g)
    (declared : ∀ n ∈ g.nodes, ∀ name, n.variableName? = some name → name ∈ e.asset.localVariables.keys) :
    (f.lowerLinks (respell old new g) container self).result = .ok connections ↔
      ∃ before, (e.lowerLinks g container self).result = .ok before ∧
        before.map (replacedSource (.ofProperty old) (.ofProperty new)) = connections := by
  have each : ∀ l ∈ g.links, ∀ c, (f.lowerLink (respell old new g) container self l).result = .ok c ↔
      ∃ b, (e.lowerLink g container self l).result = .ok b ∧
        Option.map (replacedSource (.ofProperty old) (.ofProperty new)) b = c := fun l _ c => by
    rw [respelled_lowerLink apart spelled declared]
    cases (e.lowerLink g container self l).result <;> simp [Except.map]
  simp only [lowerLinks_ok_iff, respell_links, forall₂_changed each]
  constructor
  · rintro ⟨_, ⟨made, lowered, rfl⟩, rfl⟩
    refine ⟨_, ⟨made, lowered, rfl⟩, ?_⟩
    rw [List.filterMap_map, List.map_filterMap]
    rfl
  · rintro ⟨_, ⟨made, lowered, rfl⟩, rfl⟩
    refine ⟨_, ⟨made, lowered, rfl⟩, ?_⟩
    rw [List.filterMap_map, List.map_filterMap]
    rfl

/-! ## Whole assets -/

theorem respelled_isContainer (related : Respelled old new e f) (renamable : Renamable old new e)
    (plain : Plain old new) (owner : NodeId) : f.isContainer owner = e.isContainer owner := by
  have container (k : Editor) : k.isContainer owner = true ↔
      k.asset.ownerKind? owner = some .stateMachine ∨ k.asset.ownerKind? owner = some .blendSpace := by
    rw [isContainer]
    split <;> simp_all
  rw [Bool.eq_iff_iff, container, container, respelled_ownerKind_iff related renamable plain owner (.inl rfl),
    respelled_ownerKind_iff related renamable plain owner (.inr rfl)]

/-- Nodes of variables are no runtime nodes, and no other node is touched. -/
theorem respelled_emitted : (respell old new g).nodes.filter (Node.isEmitted · container) =
    g.nodes.filter (Node.isEmitted · container) := by
  have emitted (n : Node) : (respelled old new n).isEmitted container = n.isEmitted container := by
    cases isVariable : n.isLocalVariable with
    | true => simp [Node.isEmitted, isVariable]
    | false => rw [respelled_plain isVariable]
  have tests : (Node.isEmitted · container) ∘ respelled old new = (Node.isEmitted · container) := funext emitted
  have kept : ∀ n ∈ g.nodes.filter (Node.isEmitted · container), respelled old new n = n := fun n member => by
    have runs := (List.mem_filter.mp member).2
    simp only [Node.isEmitted, Bool.and_eq_true, Bool.not_eq_true'] at runs
    exact respelled_plain runs.1.1.1
  rw [respell, List.filter_map, tests, List.map_congr_left kept, List.map_id']

/-- A node holds the changed prototype of its graph. -/
theorem respelled_lowers {r : RuntimeNode Prototype} (related : Respelled old new e f)
    (nested : ∀ made, (f.lowerWithin depth n.id n.id n.description).result = .ok made ↔
      ∃ before, (e.lowerWithin depth n.id n.id n.description).result = .ok before ∧
        replacedIn (.ofProperty old) (.ofProperty new) before = made) :
    Lowers f depth n r ↔ ∃ b, Lowers e depth n b ∧ replacedNode (.ofProperty old) (.ofProperty new) b = r := by
  have same := respelled_lowerPlugs related n
  by_cases owns : n.isSubroutine = true
  · constructor
    · rintro ⟨type, id, plugs, body⟩
      rw [if_pos owns] at body
      obtain ⟨q, lowered, held⟩ := body
      obtain ⟨before, first, rfl⟩ := (nested q).mp lowered
      refine ⟨{ r with subroutine := some before }, ⟨type, id, plugs.trans same, ?_⟩, ?_⟩
      · rw [if_pos owns]
        exact ⟨before, first, rfl⟩
      · rw [replacedNode, Option.map_some, ← held]
    · rintro ⟨b, ⟨type, id, plugs, body⟩, rfl⟩
      rw [if_pos owns] at body
      obtain ⟨before, first, held⟩ := body
      refine ⟨type, id, plugs.trans same.symm, ?_⟩
      rw [if_pos owns]
      exact ⟨_, (nested _).mpr ⟨before, first, rfl⟩, congrArg (Option.map _) held⟩
  · constructor
    · rintro ⟨type, id, plugs, body⟩
      rw [if_neg owns] at body
      refine ⟨r, ⟨type, id, plugs.trans same, by rwa [if_neg owns]⟩, ?_⟩
      rw [replacedNode, body, Option.map_none, ← body]
    · rintro ⟨b, ⟨type, id, plugs, body⟩, rfl⟩
      rw [if_neg owns] at body
      refine ⟨type, id, plugs.trans same.symm, ?_⟩
      rw [if_neg owns]
      exact congrArg (Option.map _) body

theorem respelled_assembled (related : Respelled old new e f) (renamable : Renamable old new e)
    (apart : Apart old new e) (held : e.asset.graph? owner = some g) (nodes : List (RuntimeNode Prototype)) :
    assembled f (respell old new g) owner self name (nodes.map (replacedNode (.ofProperty old) (.ofProperty new)))
        (connections.map (replacedSource (.ofProperty old) (.ofProperty new))) =
      replacedIn (.ofProperty old) (.ofProperty new) (assembled e g owner self name nodes connections) := by
  have skeleton : f.asset.skeleton = e.asset.skeleton := (congrArg Asset.skeleton related.rest :)
  have spelled := spelled_of_renamable renamable held
  have declared := declared_of_renamable renamable held
  rw [assembled, assembled, replacedIn, skeleton, respelled_lowerInputs related,
    respelled_lowerOutputs related spelled renamable.output, respelled_lowerVariables related apart spelled declared,
    replacedNodes_eq]

/-- What is lowered from the one asset is what is lowered from the other one, with the
identifier replaced. -/
theorem respelled_lowerWithin (related : Respelled old new e f) (renamable : Renamable old new e)
    (apart : Apart old new e) (plain : Plain old new) :
    (f.lowerWithin depth owner self name).result = .ok made ↔
      ∃ before, (e.lowerWithin depth owner self name).result = .ok before ∧
        replacedIn (.ofProperty old) (.ofProperty new) before = made := by
  induction depth generalizing owner self name made with
  | zero => exact iff_of_false lowerWithin_zero fun ⟨_, lowered, _⟩ => lowerWithin_zero lowered
  | succ depth ih =>
    rw [lowerWithin_ok_iff, respelled_graph related]
    simp only [lowerWithin_ok_iff]
    cases held : e.asset.graph? owner with
    | none => simp
    | some g =>
      have spelled := spelled_of_renamable renamable held
      have declared := declared_of_renamable renamable held
      have each (xs : List Node) (zs : List (RuntimeNode Prototype)) : List.Forall₂ (Lowers f depth) xs zs ↔
          ∃ ys, List.Forall₂ (Lowers e depth) xs ys ∧ ys.map (replacedNode (.ofProperty old) (.ofProperty new)) = zs :=
        forall₂_changed fun n _ r => respelled_lowers related fun _ => ih
      simp only [Option.map_some, Option.some.injEq, exists_eq_left', respelled_emitted,
        respelled_isContainer related renamable plain owner, each, respelled_lowerLinks apart spelled declared]
      constructor
      · rintro ⟨_, _, ⟨nodes, first, rfl⟩, ⟨connections, second, rfl⟩, rfl⟩
        exact ⟨_, ⟨nodes, connections, first, second, rfl⟩,
          (respelled_assembled related renamable apart held nodes).symm⟩
      · rintro ⟨_, ⟨nodes, connections, first, second, rfl⟩, rfl⟩
        exact ⟨_, _, ⟨nodes, first, rfl⟩, ⟨connections, second, rfl⟩,
          respelled_assembled related renamable apart held nodes⟩

/-- Renaming a local variable does not change what is compiled, apart from the identifier by
which the runtime knows the variable. Neither name may mean something by itself, and neither
identifier may be that of another variable. -/
theorem renaming_preserves_compilation (reached : Reached e) (different : old ≠ new)
    (accepted : (e.renameProperty .localVariable old new).2 = true)
    (plain : Plain old new) (apart : Apart old new e) (s t : CompileSession)
    (made : Prototype) : ((e.renameProperty .localVariable old new).1.compile t).2.1 = .ok made ↔
      ∃ before, (e.compile s).2.1 = .ok before ∧ replacedIn (.ofProperty old) (.ofProperty new) before = made := by
  obtain ⟨valid, known⟩ := (renameProperty_accepted different).mp accepted
  have sorted : Reached e.sort := reached_run reached [.sort]
  have also : Reached (e.renameProperty .localVariable old new).1 :=
    reached_run reached [.renameProperty .localVariable old new]
  have identified {k : Editor} (reached : Reached k) := identified_of_coherent (coherent_reachable reached)
  have keys : e.sort.asset.localVariables = e.asset.localVariables := congrFun (sort_properties e) .localVariable
  have renamable : Renamable old new e.sort := by
    refine renamable_reached sorted ?_ ?_
    · rw [keys]
      exact known
    · rw [isPropertyNameValid, sort_properties]
      exact valid
  have related := respelled_sort (respelled_renameProperty (coherent_reachable reached) different accepted)
    (renamable_reached reached known valid) plain (identified reached) (identified also)
  have apart : Apart old new e.sort := by
    rw [Apart, keys]
    exact apart
  have self : (e.renameProperty .localVariable old new).1.sort.asset.id = e.sort.asset.id :=
    (congrArg Asset.id related.rest :)
  have label : (e.renameProperty .localVariable old new).1.sort.asset.name = e.sort.asset.name :=
    (congrArg Asset.name related.rest :)
  simp only [compile_ok_iff, lower, respelled_size related, respelled_valid related renamable plain, self, label,
    respelled_lowerWithin related renamable apart plain, exists_and_left, and_assoc]

/-- A variable is read where the graph ends. It has a setter besides, to which no link leads. -/
def steered : List Edit :=
  [.addProperty .localVariable (.int64 0), .spawnLocalVariable "New Variable" true,
    .spawnLocalVariable "New Variable" false, .createNode "Animation" "Output", .createLink ⟨3⟩ ⟨9⟩]

/-- The editor after these edits. -/
def steeredEditor : Editor := steered.foldl Edit.apply (.ofAsset (.ofName "Wave" ⟨1⟩) .empty .default 1)

/-- By another name the variable leads to the same prototype. By the name of what has to be
linked it leads to none: nothing is linked to the pin of the setter. -/
theorem steered_renamed :
    (∃ p, (steeredEditor.compile .empty).2.1 = .ok p ∧ p.variablePlugs.map Endpoint.id = [.ofProperty "New Variable"] ∧
      ((steeredEditor.renameProperty .localVariable "New Variable" "Speed").1.compile .empty).2.1 =
        .ok (replacedIn (.ofProperty "New Variable") (.ofProperty "Speed") p)) ∧
    (steeredEditor.renameProperty .localVariable "New Variable" "Pose").2 = true ∧
    ∀ q, ((steeredEditor.renameProperty .localVariable "New Variable" "Pose").1.compile .empty).2.1 ≠ .ok q := by
  have reached : Reached steeredEditor := reached_run (.start "Wave" ⟨1⟩ .empty .default 0) steered
  have checked : (steeredEditor.sort.validate.errors.isEmpty && steeredEditor.sort.lower.result.toOption.any fun p =>
      p.variablePlugs.map Endpoint.id == [.ofProperty "New Variable"]) = true := by
    rw [sortByInsertion.2]
    decide +kernel
  obtain ⟨p, ran, shown⟩ := compile_of_check .empty checked
  refine ⟨⟨p, ran, beq_iff_eq.mp shown, ?_⟩, by decide +kernel, fun q compiled => ?_⟩
  · refine (renaming_preserves_compilation reached (by decide) (by decide +kernel) ?_ ?_ .empty .empty _).mpr
      ⟨p, ran, rfl⟩
    · unfold Plain
      decide
    · unfold Apart
      decide +kernel
  · have broken : (steeredEditor.renameProperty .localVariable "New Variable" "Pose").1.sort.validate.errors ≠ [] := by
      rw [sortByInsertion.2]
      decide +kernel
    exact broken (compile_ok_iff.mp compiled).1

end PoseGraph.RenamedPrototypes
