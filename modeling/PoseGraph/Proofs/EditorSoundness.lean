import PoseGraph.Proofs.GraphWiring

/-! What stays true of the graphs of an editor as a whole. Their nodes are made for
their place and their links fit, local variables are declared and set at most once,
and the nodes at which a graph ends lead nowhere. Two kinds of graphs are exempt:
the condition of a transition ends in no pose, and a state machine that belongs to
the node of a variable may have transitions at any of its nodes. -/
namespace PoseGraph.EditorSoundness
open AssetOrder Editor EditorCoherence GraphDependencies GraphWiring LinkEdits NodeCraft NodeEdits NodeFrames

variable {a : Asset} {e f : Editor} {g h : SubGraph} {m n t : Node} {owner self : NodeId}
variable {except : Option NodeId} {change : SubGraph → SubGraph}
variable {names others : String → Prop}

/-! ## Graphs by owner -/

/-- The graph of an owner, which is empty if there is none. -/
def graphOf (a : Asset) (owner : NodeId) : SubGraph := (a.graph? owner).getD .empty

theorem graphOf_eq (held : a.graph? owner = some g) : graphOf a owner = g := by
  rw [graphOf, held]
  rfl

theorem graphOf_missing (missing : a.graph? owner = none) : graphOf a owner = .empty := by
  rw [graphOf, missing]
  rfl

theorem mem_graphOf : n ∈ allNodes a ↔ ∃ owner, n ∈ (graphOf a owner).nodes := by
  rw [mem_allNodes]
  constructor
  · rintro ⟨owner, g, held, member⟩
    exact ⟨owner, graphOf_eq held ▸ member⟩
  · rintro ⟨owner, member⟩
    cases held : a.graph? owner with
    | none =>
      rw [graphOf_missing held] at member
      cases member
    | some g => exact ⟨owner, g, held, graphOf_eq held ▸ member⟩

theorem graphOf_ensureGraph : graphOf (a.ensureGraph owner) self = graphOf a self := by
  rw [graphOf, graph_ensureGraph, graphOf]
  split
  · rename_i here
    rw [here]
    rfl
  · rfl

/-- A new asset has no nodes and no links. -/
theorem graphOf_ofName (name : String) (id owner : NodeId) : graphOf (.ofName name id) owner = .empty := by
  cases held : (Asset.ofName name id).graph? owner with
  | none => exact graphOf_missing held
  | some g =>
    have entry : (owner, g) ∈ [(NodeId.root, SubGraph.empty)] := get_eq_some_iff.mp held
    cases List.mem_singleton.mp entry
    exact graphOf_eq held

theorem graphOf_modifyGraph (held : a.graph? owner = some g) :
    graphOf (a.modifyGraph owner change) self = if self = owner then change g else graphOf a self := by
  rw [graphOf, graph_modifyGraph]
  split
  · rename_i here
    rw [here, held]
    rfl
  · rfl

/-! ## Soundness -/

/-- What stays true of the graphs of an editor whose local variables have the given
names. -/
structure Sound (names : String → Prop) (e : Editor) : Prop where
  made : ∀ n ∈ allNodes e.asset, Made n
  wired : ∀ owner, Wired (graphOf e.asset owner)
  setters : ∀ owner, OneSetter (graphOf e.asset owner)
  declared : ∀ n ∈ allNodes e.asset, ∀ name, n.variableName? = some name → names name
  reserved : ∀ name, names name → name ≠ "Input" ∧ name ≠ "Output" ∧ name ≠ "Event"
  posed : ∀ owner, (∀ n ∈ (graphOf e.asset owner).nodes, Posed n) ∨
    owner.value < e.nextId ∧ ∀ n ∈ allNodes e.asset, n.id = owner → n.kind = .transition
  closed : ∀ owner, (∀ n ∈ (graphOf e.asset owner).nodes, Sealed n) ∨
    owner ≠ .root ∧ owner.value < e.nextId ∧ ∀ n ∈ allNodes e.asset, n.id = owner → n.category = localVariableCategory
  endless : ∀ n ∈ allNodes e.asset, IsMachine n → ∀ m ∈ (graphOf e.asset n.id).nodes, ¬Ends m

theorem setter_named (sets : n.isSetter = true) : ∃ name, n.variableName? = some name := by
  rw [Node.isSetter, Bool.and_eq_true] at sets
  obtain ⟨p, -, named⟩ := variable_shape sets.1
  exact ⟨p.name, named⟩

/-- Soundness is kept if every node stems from one before and links go on fitting.
What no longer is a node at which nothing leaves has to be exempt. -/
theorem sound_grow (rename : String → String) (sound : Sound names e) (draws : e.nextId ≤ f.nextId)
    (grown : ∀ owner, ∀ m ∈ (graphOf f.asset owner).nodes, ∃ n ∈ (graphOf e.asset owner).nodes, Grown rename n m)
    (wired : ∀ owner, Wired (graphOf f.asset owner))
    (closed : ∀ owner, (∀ n ∈ (graphOf e.asset owner).nodes, Sealed n) →
      (∀ m ∈ (graphOf f.asset owner).nodes, Sealed m) ∨ owner ≠ .root ∧ owner.value < f.nextId ∧
        ∀ n ∈ allNodes e.asset, n.id = owner → n.category = localVariableCategory)
    (keeps : ∀ name, names name → others (rename name))
    (apart : ∀ x y, names x → names y → rename x = rename y → x = y)
    (reserved : ∀ name, others name → name ≠ "Input" ∧ name ≠ "Output" ∧ name ≠ "Event") : Sound others f := by
  have origin (m : Node) (member : m ∈ allNodes f.asset) : ∃ n ∈ allNodes e.asset, Grown rename n m := by
    obtain ⟨owner, inside⟩ := mem_graphOf.mp member
    obtain ⟨n, before, grown⟩ := grown owner m inside
    exact ⟨n, mem_graphOf.mpr ⟨owner, before⟩, grown⟩
  have whole (owner : NodeId) (n : Node) (member : n ∈ (graphOf e.asset owner).nodes) : n ∈ allNodes e.asset :=
    mem_graphOf.mpr ⟨owner, member⟩
  refine ⟨?_, wired, ?_, ?_, reserved, ?_, ?_, ?_⟩
  · intro m member
    obtain ⟨n, before, grown⟩ := origin m member
    exact grown.made (sound.made n before)
  · intro owner m₁ in₁ m₂ in₂ sets₁ sets₂ same
    obtain ⟨n₁, before₁, grown₁⟩ := grown owner m₁ in₁
    obtain ⟨n₂, before₂, grown₂⟩ := grown owner m₂ in₂
    obtain ⟨name, named⟩ := setter_named sets₁
    obtain ⟨x, reads₁, rfl⟩ := grown₁.reads name named
    obtain ⟨y, reads₂, equal⟩ := grown₂.reads _ (same ▸ named)
    obtain rfl := apart y x (sound.declared n₂ (whole owner n₂ before₂) y reads₂)
      (sound.declared n₁ (whole owner n₁ before₁) x reads₁) equal
    rw [grown₁.id, grown₂.id]
    exact sound.setters owner n₁ before₁ n₂ before₂ (grown₁.sets sets₁) (grown₂.sets sets₂)
      (reads₁.trans reads₂.symm)
  · intro m member name named
    obtain ⟨n, before, grown⟩ := origin m member
    obtain ⟨x, reads, rfl⟩ := grown.reads name named
    exact keeps x (sound.declared n before x reads)
  · intro owner
    rcases sound.posed owner with posed | ⟨drawn, exempt⟩
    · refine .inl fun m inside => ?_
      obtain ⟨n, before, grown⟩ := grown owner m inside
      exact grown.posed (sound.made n (whole owner n before)) (posed n before)
    · refine .inr ⟨Nat.lt_of_lt_of_le drawn draws, fun m member named => ?_⟩
      obtain ⟨n, before, grown⟩ := origin m member
      exact grown.transition (exempt n before (grown.id.symm.trans named))
  · intro owner
    have exempted (exempt : ∀ n ∈ allNodes e.asset, n.id = owner → n.category = localVariableCategory) :
        ∀ m ∈ allNodes f.asset, m.id = owner → m.category = localVariableCategory := by
      intro m member named
      obtain ⟨n, before, grown⟩ := origin m member
      exact grown.category.trans (exempt n before (grown.id.symm.trans named))
    rcases sound.closed owner with before | ⟨nested, drawn, exempt⟩
    · exact (closed owner before).imp_right fun ⟨nested, drawn, exempt⟩ => ⟨nested, drawn, exempted exempt⟩
    · exact .inr ⟨nested, Nat.lt_of_lt_of_le drawn draws, exempted exempt⟩
  · intro m member machine k inside
    obtain ⟨n, before, grownN⟩ := origin m member
    obtain ⟨k', inK, grownK⟩ := grown m.id k inside
    rw [grownN.id] at inK
    exact fun ends => sound.endless n before (grownN.machine machine) k' inK (grownK.ends ends)

/-- Soundness is kept if the graphs change as they may, the variables being named
as before or by new names. -/
theorem sound_turns (rename : String → String) (sound : Sound names e) (draws : e.nextId ≤ f.nextId)
    (turns : ∀ owner, Turns rename (graphOf e.asset owner) (graphOf f.asset owner))
    (keeps : ∀ name, names name → others (rename name))
    (apart : ∀ x y, names x → names y → rename x = rename y → x = y)
    (reserved : ∀ name, others name → name ≠ "Input" ∧ name ≠ "Output" ∧ name ≠ "Event") : Sound others f := by
  refine sound_grow rename sound draws (fun owner m inside => ?_) (fun owner => (turns owner).wired (sound.wired owner))
    (fun owner before => .inl fun m inside => ?_) keeps apart reserved
  · obtain ⟨n, before, grown, -⟩ := (turns owner).nodes m inside
    exact ⟨n, before, grown⟩
  · obtain ⟨n, member, -, closed⟩ := (turns owner).nodes m inside
    exact closed (before n member)

/-- Changes that leave the variables alone. -/
theorem sound_develop (sound : Sound names e) (draws : e.nextId ≤ f.nextId)
    (turns : ∀ owner, Turns id (graphOf e.asset owner) (graphOf f.asset owner)) : Sound names f :=
  sound_turns id sound draws turns (fun _ named => named) (fun _ _ _ _ equal => equal) sound.reserved

theorem turns_refl (g : SubGraph) : Turns id g g := turns_kept (kept_refl g)

/-- Changes that touch no graph. -/
theorem sound_of_graphs (sound : Sound names e) (graphs : f.asset.graphs = e.asset.graphs)
    (draws : e.nextId ≤ f.nextId) : Sound names f := by
  refine sound_develop sound draws fun owner => ?_
  rw [graphOf, graphOf, Asset.graph?, Asset.graph?, graphs]
  exact turns_refl _

/-- More or fewer names, as long as all variables in the graphs are named. -/
theorem sound_names (sound : Sound names e)
    (declared : ∀ n ∈ allNodes e.asset, ∀ name, n.variableName? = some name → others name)
    (reserved : ∀ name, others name → name ≠ "Input" ∧ name ≠ "Output" ∧ name ≠ "Event") : Sound others e :=
  { sound with declared := declared, reserved := reserved }

/-- Changing one graph. -/
theorem sound_modifyGraph (sound : Sound names e)
    (turns : ∀ g, e.asset.graph? owner = some g → Turns id g (change g)) : Sound names (e.modifyGraph owner change) := by
  cases held : e.asset.graph? owner with
  | none =>
    have same : (e.modifyGraph owner change).asset = e.asset := modifyGraph_missing held
    exact sound_of_graphs sound (congrArg Asset.graphs same) (Nat.le_refl _)
  | some g =>
    refine sound_develop sound (Nat.le_refl _) fun id => ?_
    change Turns _ _ (graphOf (e.asset.modifyGraph owner change) id)
    rw [graphOf_modifyGraph held]
    split
    · rename_i here
      rw [here, graphOf_eq held]
      exact turns g held
    · exact turns_refl _

theorem sound_ensureGraph (sound : Sound names e) (owner : NodeId) :
    Sound names (e.modifyAsset (·.ensureGraph owner)) := by
  refine sound_develop sound (Nat.le_refl _) fun id => ?_
  change Turns _ _ (graphOf (e.asset.ensureGraph owner) id)
  rw [graphOf_ensureGraph]
  exact turns_refl _

/-! ## New nodes -/

/-- A node that may be added to the graph of an owner. A graph that waits for the
node, if there is one, is no exemption yet. -/
structure Welcome (names : String → Prop) (e : Editor) (owner : NodeId) (n : Node) : Prop where
  made : Made n
  closed : Sealed n
  posed : Posed n ∨ ∃ t ∈ allNodes e.asset, t.id = owner ∧ t.kind = .transition
  ends : Ends n → ∀ t ∈ allNodes e.asset, t.id = owner → ¬IsMachine t
  declared : ∀ name, n.variableName? = some name → names name
  unset : n.isSetter = true → ∀ m ∈ (graphOf e.asset owner).nodes, m.isSetter = true →
    m.variableName? ≠ n.variableName?
  awaited : ∀ m ∈ (graphOf e.asset n.id).nodes, Posed m ∧ Sealed m ∧ (IsMachine n → ¬Ends m)
  fresh : ∀ m ∈ allNodes e.asset, m.id ≠ n.id

theorem machine_no_end (machine : IsMachine n) : ¬Ends n := by
  rintro (output | event)
  · have kind := machine.2
    simp [Node.kind, output] at kind
  · have kind := machine.2
    simp [Node.kind, event] at kind

theorem wired_addNode (wired : Wired g) (n : Node) : Wired (g.addNode n) :=
  wired_retained (fun m member => ⟨m, List.mem_append_left _ member, retained_refl m⟩) (.refl _) wired

theorem sound_addNode (coherent : Coherent except e) (sound : Sound names e) (welcome : Welcome names e owner n)
    (held : e.asset.graph? owner = some g) : Sound names (e.modifyGraph owner (·.addNode n)) := by
  have look (id : NodeId) : graphOf (e.modifyGraph owner (·.addNode n)).asset id =
      if id = owner then g.addNode n else graphOf e.asset id := graphOf_modifyGraph held
  have here : graphOf e.asset owner = g := graphOf_eq held
  have inside (id : NodeId) (m : Node) (member : m ∈ (graphOf (e.modifyGraph owner (·.addNode n)).asset id).nodes) :
      m ∈ (graphOf e.asset id).nodes ∨ m = n ∧ id = owner := by
    rw [look] at member
    split at member
    · rename_i same
      rw [same, here]
      exact (List.mem_append.mp member).imp_right fun new => ⟨List.mem_singleton.mp new, rfl⟩
    · exact .inl member
  have origin (m : Node) (member : m ∈ allNodes (e.modifyGraph owner (·.addNode n)).asset) :
      m ∈ allNodes e.asset ∨ m = n := by
    obtain ⟨id, member⟩ := mem_graphOf.mp member
    exact (inside id m member).imp (fun old => mem_graphOf.mpr ⟨id, old⟩) And.left
  refine ⟨?_, ?_, ?_, ?_, sound.reserved, ?_, ?_, ?_⟩
  · intro m member
    rcases origin m member with old | rfl
    · exact sound.made m old
    · exact welcome.made
  · intro id
    rw [look]
    split
    · exact wired_addNode (here ▸ sound.wired owner) n
    · exact sound.wired id
  · intro id m₁ in₁ m₂ in₂ sets₁ sets₂ same
    rcases inside id m₁ in₁ with old₁ | ⟨rfl, rfl⟩
    · rcases inside id m₂ in₂ with old₂ | ⟨rfl, rfl⟩
      · exact sound.setters id m₁ old₁ m₂ old₂ sets₁ sets₂ same
      · exact absurd same (welcome.unset sets₂ m₁ old₁ sets₁)
    · rcases inside id m₂ in₂ with old₂ | ⟨rfl, -⟩
      · exact absurd same.symm (welcome.unset sets₁ m₂ old₂ sets₂)
      · rfl
  · intro m member name named
    rcases origin m member with old | rfl
    · exact sound.declared m old name named
    · exact welcome.declared name named
  · intro id
    by_cases waits : n.id = id ∨ ∀ k ∈ (graphOf e.asset id).nodes, Posed k
    · have before : ∀ k ∈ (graphOf e.asset id).nodes, Posed k := by
        rcases waits with rfl | posed
        · exact fun k inK => (welcome.awaited k inK).1
        · exact posed
      by_cases plain : id = owner → Posed n
      · refine .inl fun m member => ?_
        rcases inside id m member with old | ⟨rfl, same⟩
        · exact before m old
        · exact plain same
      · obtain ⟨rfl, unposed⟩ := Classical.not_imp.mp plain
        obtain ⟨t, inT, same, transition⟩ := welcome.posed.resolve_left unposed
        refine .inr ⟨same ▸ (node_drawn coherent inT).2, fun m member named => ?_⟩
        rcases origin m member with old | rfl
        · rw [List.inj_on_of_nodup_map (identified_of_coherent coherent).nodes old inT (named.trans same.symm)]
          exact transition
        · exact absurd (same.trans named.symm) (welcome.fresh t inT)
    · obtain ⟨other, unposed⟩ := not_or.mp waits
      obtain ⟨drawn, exempt⟩ := (sound.posed id).resolve_left unposed
      refine .inr ⟨drawn, fun m member named => ?_⟩
      rcases origin m member with old | rfl
      · exact exempt m old named
      · exact absurd named other
  · intro id
    by_cases waits : n.id = id ∨ ∀ k ∈ (graphOf e.asset id).nodes, Sealed k
    · have before : ∀ k ∈ (graphOf e.asset id).nodes, Sealed k := by
        rcases waits with rfl | closed
        · exact fun k inK => (welcome.awaited k inK).2.1
        · exact closed
      refine .inl fun m member => ?_
      rcases inside id m member with old | ⟨rfl, -⟩
      · exact before m old
      · exact welcome.closed
    · obtain ⟨other, unsealed⟩ := not_or.mp waits
      obtain ⟨nested, drawn, exempt⟩ := (sound.closed id).resolve_left unsealed
      refine .inr ⟨nested, drawn, fun m member named => ?_⟩
      rcases origin m member with old | rfl
      · exact exempt m old named
      · exact absurd named other
  · intro k member machine m inM
    rcases origin k member with old | rfl
    · rcases inside k.id m inM with before | ⟨rfl, same⟩
      · exact sound.endless k old machine m before
      · exact fun ends => welcome.ends ends k old same machine
    · rcases inside k.id m inM with before | ⟨rfl, -⟩
      · exact (welcome.awaited m before).2.2 machine
      · exact machine_no_end machine

end PoseGraph.EditorSoundness
