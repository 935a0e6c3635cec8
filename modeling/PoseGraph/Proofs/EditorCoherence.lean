import Mathlib.Data.List.Flatten
import Mathlib.Data.List.Perm.Subperm
import PoseGraph.Proofs.EditOutcomes
import PoseGraph.Proofs.LoweringSemantics
import PoseGraph.Proofs.NodeCraft

/-! What stays true of an editor whatever is done with it: no identity is drawn
twice, nodes are well made, and a state machine shows where it begins as soon as
it has a transition. An edit of one graph keeps all of this if it keeps it for
the graph. -/
namespace PoseGraph.EditorCoherence
open AssetOrder Editor GraphDependencies LoweringSemantics NodeCraft Rearrangement

variable {a : Asset} {e f : Editor} {g h k : SubGraph} {m n : Node} {owner id : NodeId}
variable {except : Option NodeId} {fresh : List Nat} {change : SubGraph → SubGraph}

/-- The numbers that the nodes, pins and links of a graph take. -/
def identities (g : SubGraph) : List Nat :=
  g.nodes.flatMap nodeIdentities ++ g.links.map fun l => l.id.value

/-- The numbers that are taken in an asset. -/
def allIdentities (a : Asset) : List Nat := a.graphs.values.flatMap identities

/-- The node owns a graph that is a state machine. -/
def IsMachine (n : Node) : Prop := n.isSubroutine = true ∧ n.kind = .stateMachine

/-- There is no transition in the graph. -/
def Unjoined (g : SubGraph) : Prop := ∀ n ∈ g.nodes, n.kind ≠ .transition

/-- A state machine with transitions and states has an entry. -/
def Entered (g : SubGraph) : Prop :=
  g.nodes.any Node.isEntry = true ∨ Unjoined g ∨ g.nodes.any Node.isState = false

/-- What stays true of an editor. In the middle of an edit, one state machine may
be without an entry. Transitions are in graphs only whose owner has been drawn. -/
structure Coherent (except : Option NodeId) (e : Editor) : Prop where
  positive : 0 < e.nextId
  distinct : (allIdentities e.asset).Nodup
  drawn : ∀ i ∈ allIdentities e.asset, 0 < i ∧ i < e.nextId
  crafted : ∀ n ∈ allNodes e.asset, Crafted n
  named : "Output" ∉ e.asset.localVariables.keys
  entered : ∀ n ∈ allNodes e.asset, IsMachine n → some n.id ≠ except →
    ∀ g, e.asset.graph? n.id = some g → Entered g
  joined : ∀ owner g, e.asset.graph? owner = some g → Unjoined g ∨ owner.value < e.nextId

/-! ## Identities -/

theorem nodes_sublist (g : SubGraph) : (g.nodes.map fun n => n.id.value).Sublist (identities g) := by
  rw [List.map_eq_flatMap]
  refine .trans (.flatMap_right _ fun n _ => ?_) (List.sublist_append_left _ _)
  exact .cons_cons _ (List.nil_sublist _)

theorem pins_sublist (g : SubGraph) :
    ((g.nodes.flatMap Node.pins).map fun p => p.id.value).Sublist (identities g) := by
  rw [List.map_flatMap]
  exact .trans (.flatMap_right _ fun n _ => List.sublist_cons_self _ _) (List.sublist_append_left _ _)

theorem identities_sublist (held : a.graph? owner = some g) :
    (identities g).Sublist (allIdentities a) := by
  obtain ⟨before, after, split⟩ := List.append_of_mem (mem_values.mpr ⟨owner, held⟩)
  rw [allIdentities, split, List.flatMap_append, List.flatMap_cons]
  exact .trans (List.sublist_append_left _ _) (List.sublist_append_right _ _)

theorem identified_of_coherent (coherent : Coherent except e) : Identified e.asset := by
  constructor
  · have nodes : ((allNodes e.asset).map fun n => n.id.value).Sublist (allIdentities e.asset) := by
      rw [allNodes, List.map_flatMap]
      exact .flatMap_right _ fun g _ => nodes_sublist g
    have values := coherent.distinct.sublist nodes
    rw [← Function.comp_def, ← List.map_map] at values
    exact values.of_map
  · intro g inside
    obtain ⟨owner, held⟩ := mem_values.mp inside
    have values := coherent.distinct.sublist ((pins_sublist g).trans (identities_sublist held))
    rw [← Function.comp_def, ← List.map_map] at values
    exact values.of_map

/-- No two links of a graph have one identity. -/
theorem links_distinct (coherent : Coherent except e) (held : e.asset.graph? owner = some g) :
    (g.links.map Link.id).Nodup := by
  have values := coherent.distinct.sublist ((List.sublist_append_right _ _).trans (identities_sublist held))
  rw [← Function.comp_def, ← List.map_map] at values
  exact values.of_map

theorem node_drawn (coherent : Coherent except e) (member : n ∈ allNodes e.asset) :
    0 < n.id.value ∧ n.id.value < e.nextId := by
  obtain ⟨owner, g, held, inside⟩ := mem_allNodes.mp member
  exact coherent.drawn _ ((identities_sublist held).subset
    ((nodes_sublist g).subset (List.mem_map_of_mem inside)))

/-- An owner of a kind is a node of the asset. -/
theorem owner_drawn (coherent : Coherent except e) {kind : NodeKind}
    (owned : e.asset.ownerKind? owner = some kind) : owner.value < e.nextId := by
  obtain ⟨-, n, member, rfl, -⟩ := ownerKind_origin (rearranged_refl _) owned
  exact (node_drawn coherent member).2

/-- The kind of an owner is that of its node. -/
theorem ownerKind_of_member (coherent : Coherent except e) (member : n ∈ allNodes e.asset) {kind : NodeKind}
    (owned : e.asset.ownerKind? n.id = some kind) : n.kind = kind := by
  obtain ⟨-, m, inside, same, rfl⟩ := ownerKind_origin (rearranged_refl _) owned
  exact congrArg Node.kind (List.inj_on_of_nodup_map (identified_of_coherent coherent).nodes member inside same.symm)

/-- The machine that owns a graph makes it a state machine. -/
theorem machine_ownerKind (coherent : Coherent except e) (member : n ∈ allNodes e.asset)
    (machine : IsMachine n) : e.asset.ownerKind? n.id = some .stateMachine := by
  have nested : n.id.isRoot = false := by
    have positive := (node_drawn coherent member).1
    rw [NodeId.isRoot, beq_eq_false_iff_ne]
    intro same
    rw [same] at positive
    exact absurd positive (by decide)
  have found := (findNode_eq_some_iff (identified_of_coherent coherent)).mpr ⟨member, rfl⟩
  rw [Asset.ownerKind?, nested, found]
  exact congrArg some machine.2

/-! ## Changes that touch no graph -/

theorem coherent_of_graphs (coherent : Coherent except e) (graphs : f.asset.graphs = e.asset.graphs)
    (draws : e.nextId ≤ f.nextId) (named : "Output" ∉ f.asset.localVariables.keys) : Coherent except f := by
  have nodes : allNodes f.asset = allNodes e.asset := by rw [allNodes, allNodes, graphs]
  have taken : allIdentities f.asset = allIdentities e.asset := by rw [allIdentities, allIdentities, graphs]
  have look : f.asset.graph? = e.asset.graph? := by
    funext owner
    rw [Asset.graph?, Asset.graph?, graphs]
  refine ⟨Nat.lt_of_lt_of_le coherent.positive draws, ?_, ?_, ?_, named, ?_, ?_⟩
  · rw [taken]
    exact coherent.distinct
  · rw [taken]
    exact fun i inside => ⟨(coherent.drawn i inside).1, Nat.lt_of_lt_of_le (coherent.drawn i inside).2 draws⟩
  · rw [nodes]
    exact coherent.crafted
  · rw [nodes, look]
    exact coherent.entered
  · rw [look]
    exact fun owner g held => (coherent.joined owner g held).imp_right fun drawn => Nat.lt_of_lt_of_le drawn draws

theorem coherent_exempt (coherent : Coherent none e) (except : Option NodeId) : Coherent except e :=
  { coherent with entered := fun n member machine _ => coherent.entered n member machine (by simp) }

theorem coherent_invalidate (coherent : Coherent except e) : Coherent except e.invalidate :=
  coherent_of_graphs coherent rfl (Nat.le_refl _) coherent.named

theorem coherent_spend (coherent : Coherent except e) (count : Nat) : Coherent except (e.spend count) :=
  coherent_of_graphs coherent rfl (Nat.le_add_right _ _) coherent.named

/-! ## Changes to one graph -/

/-- Numbers that were drawn and have not been taken yet. -/
structure Newcomers (e : Editor) (fresh : List Nat) : Prop where
  distinct : fresh.Nodup
  drawn : ∀ i ∈ fresh, 0 < i ∧ i < e.nextId
  untaken : ∀ i ∈ fresh, i ∉ allIdentities e.asset

theorem newcomers_nil : Newcomers e [] := ⟨List.nodup_nil, by simp, by simp⟩

/-- What a change to the graph of an owner has to keep. -/
structure Develops (e : Editor) (except : Option NodeId) (owner : NodeId) (fresh : List Nat)
    (g h : SubGraph) : Prop where
  identities : (identities h).Subperm (identities g ++ fresh)
  crafted : ∀ m ∈ h.nodes, Crafted m
  machines : ∀ m ∈ h.nodes, IsMachine m → (∃ n ∈ g.nodes, IsMachine n ∧ n.id = m.id) ∨
    ∀ k, e.asset.graph? m.id = some k → Unjoined k
  entered : some owner = except ∨ (Entered g → Entered h)
  joined : owner.value < e.nextId ∨ (Unjoined g → Unjoined h)

theorem allIdentities_modifyGraph (held : a.graph? owner = some g)
    (grown : (identities (change g)).Subperm (identities g ++ fresh)) :
    (allIdentities (a.modifyGraph owner change)).Subperm (allIdentities a ++ fresh) := by
  obtain ⟨before, after, split⟩ := List.append_of_mem (get_eq_some_iff.mp held)
  have keys := a.graphs.nodup
  simp only [split, List.map_append, List.map_cons, List.nodup_append, List.nodup_cons, List.mem_cons] at keys
  have others (entries : List (NodeId × SubGraph)) (apart : owner ∉ entries.map Prod.fst) :
      entries.map (fun e => (e.1, if e.1 = owner then change e.2 else e.2)) = entries := by
    refine (List.map_congr_left fun entry inside => ?_).trans (List.map_id _)
    rw [if_neg fun same => apart (List.mem_map.mpr ⟨entry, inside, same⟩)]
    rfl
  have modified : (a.modifyGraph owner change).graphs.entries = before ++ (owner, change g) :: after := by
    change a.graphs.entries.map (fun e => (e.1, if e.1 = owner then change e.2 else e.2)) = _
    rw [split, List.map_append, List.map_cons, others before fun inside => keys.2.2 _ inside _ (.inl rfl) rfl,
      others after keys.2.1.1, if_pos rfl]
  have whole (b : Asset) (h : SubGraph) (shape : b.graphs.entries = before ++ (owner, h) :: after) :
      allIdentities b = (before.map Prod.snd).flatMap identities ++
        (identities h ++ (after.map Prod.snd).flatMap identities) := by
    rw [allIdentities, Table.values, shape, List.map_append, List.map_cons, List.flatMap_append,
      List.flatMap_cons]
  rw [whole _ _ modified, whole a g split, List.append_assoc, List.append_assoc]
  refine (List.subperm_append_left _).mpr (.trans ((List.subperm_append_right _).mpr grown) ?_)
  rw [List.append_assoc]
  exact ((List.perm_append_comm).append_left _).subperm

theorem modifyGraph_missing (missing : a.graph? owner = none) : a.modifyGraph owner change = a := by
  have apart := get_eq_none_iff.mp missing
  have same : a.graphs.modify owner change = a.graphs := by
    refine table_ext ?_ fun id => ?_
    · rw [Table.keys, Table.modify, Table.mapValues, List.map_map]
      rfl
    · rw [get_modify]
      split
      · rename_i here
        rw [here, show a.graphs.get? owner = none from missing]
        rfl
      · rfl
  rw [Asset.modifyGraph, same]

theorem mem_nodes_modifyGraph (held : a.graph? owner = some g) (member : m ∈ allNodes (a.modifyGraph owner change)) :
    m ∈ (change g).nodes ∨ m ∈ allNodes a := by
  obtain ⟨id, h, found, inside⟩ := mem_allNodes.mp member
  rw [graph_modifyGraph] at found
  split at found
  · rename_i here
    rw [here, held] at found
    cases found
    exact .inl inside
  · exact .inr (mem_allNodes.mpr ⟨id, h, found, inside⟩)

/-- A change of one graph keeps what has to be kept if it does so for the graph. -/
theorem coherent_develop (coherent : Coherent except e) (newcomers : Newcomers e fresh)
    (develops : ∀ g, e.asset.graph? owner = some g → Develops e except owner fresh g (change g)) :
    Coherent except (e.modifyGraph owner change) := by
  cases held : e.asset.graph? owner with
  | none =>
    have same : (e.modifyGraph owner change).asset = e.asset := modifyGraph_missing held
    exact coherent_of_graphs coherent (congrArg Asset.graphs same) (Nat.le_refl _) coherent.named
  | some g =>
    obtain ⟨grown, crafted, machines, entered, joined⟩ := develops g held
    have taken : (allIdentities (e.modifyGraph owner change).asset).Subperm (allIdentities e.asset ++ fresh) :=
      allIdentities_modifyGraph held grown
    have look (id : NodeId) : (e.modifyGraph owner change).asset.graph? id =
        if id = owner then (e.asset.graph? id).map change else e.asset.graph? id := graph_modifyGraph change
    have nodes : ∀ m ∈ allNodes (e.modifyGraph owner change).asset,
        m ∈ (change g).nodes ∨ m ∈ allNodes e.asset := by
      intro m member
      exact mem_nodes_modifyGraph held member
    refine ⟨coherent.positive, ?_, ?_, ?_, coherent.named, ?_, ?_⟩
    · have whole : (allIdentities e.asset ++ fresh).Nodup :=
        coherent.distinct.append newcomers.distinct fun i old new => newcomers.untaken i new old
      obtain ⟨part, perm, sublist⟩ := taken
      exact perm.nodup_iff.mp (whole.sublist sublist)
    · intro i inside
      rcases List.mem_append.mp (taken.subset inside) with old | new
      · exact coherent.drawn i old
      · exact newcomers.drawn i new
    · intro m member
      exact (nodes m member).elim (crafted m) (coherent.crafted m)
    · intro m member machine spared h found
      have before : ∀ k, e.asset.graph? m.id = some k → Entered k := by
        intro k old
        rcases nodes m member with here | elsewhere
        · rcases machines m here machine with ⟨n, inside, also, same⟩ | unjoined
          · rw [← same] at old spared
            exact coherent.entered n (mem_allNodes.mpr ⟨owner, g, held, inside⟩) also spared k old
          · exact .inr (.inl (unjoined k old))
        · exact coherent.entered m elsewhere machine spared k old
      rw [look] at found
      split at found
      · rename_i here
        rw [here, held] at found before
        cases found
        exact (entered.resolve_left fun exempt => spared (here ▸ exempt)) (before g rfl)
      · exact before h found
    · intro id h found
      rw [look] at found
      split at found
      · rename_i here
        rw [here, held] at found
        cases found
        rw [here]
        rcases joined with drawn | keeps
        · exact .inr drawn
        · exact (coherent.joined owner g held).imp_left keeps
      · exact coherent.joined id h found

/-! ## Edits in place -/

/-- A graph after edits of its nodes in place; links may be dropped. -/
structure Revised (g h : SubGraph) : Prop where
  nodes : List.Forall₂ Edited g.nodes h.nodes
  links : h.links.Sublist g.links

theorem revised_refl (g : SubGraph) : Revised g g :=
  ⟨List.forall₂_same.mpr fun n _ => edited_refl n, .refl _⟩

theorem revised_trans (first : Revised g h) (second : Revised h k) : Revised g k := by
  refine ⟨?_, second.links.trans first.links⟩
  have joined {xs ys zs : List Node} (left : List.Forall₂ Edited xs ys) (right : List.Forall₂ Edited ys zs) :
      List.Forall₂ Edited xs zs := by
    induction left generalizing zs with
    | nil => cases right; exact .nil
    | cons head tail ih =>
      cases right with
      | cons head' tail' => exact .cons (edited_trans head head') (ih tail')
  exact joined first.nodes second.nodes

theorem edited_flatMap {xs ys : List Node} (each : List.Forall₂ Edited xs ys) :
    ys.flatMap nodeIdentities = xs.flatMap nodeIdentities := by
  induction each with
  | nil => rfl
  | cons head tail ih => rw [List.flatMap_cons, List.flatMap_cons, ih, edited_identities head]

theorem recast_unjoined (each : List.Forall₂ Recast g.nodes h.nodes) (unjoined : Unjoined g) : Unjoined h := by
  intro m inside
  obtain ⟨n, member, recast⟩ := origin_of_mem each inside
  exact mt (recast_transition recast).mp (unjoined n member)

theorem recast_entered (each : List.Forall₂ Recast g.nodes h.nodes) (entered : Entered g) : Entered h := by
  rcases entered with marked | unjoined | stateless
  · obtain ⟨n, member, entry⟩ := List.any_eq_true.mp marked
    obtain ⟨m, inside, recast⟩ := origin_of_mem each.flip member
    exact .inl (List.any_eq_true.mpr ⟨m, inside, recast.entry entry⟩)
  · exact .inr (.inl (recast_unjoined each unjoined))
  · refine .inr (.inr (List.any_eq_false.mpr fun m inside => ?_))
    obtain ⟨n, member, recast⟩ := origin_of_mem each inside
    rw [recast_isState recast]
    exact List.any_eq_false.mp stateless n member

theorem recast_machine (recast : Recast n m) (crafted : Crafted n) : IsMachine m ↔ IsMachine n := by
  rw [IsMachine, IsMachine, recast_isSubroutine recast]
  exact and_congr_right fun owns => by rw [recast_kind recast (crafted.ordinary (.inr owns))]

theorem graph_crafted (coherent : Coherent except e) (held : e.asset.graph? owner = some g) :
    ∀ n ∈ g.nodes, Crafted n :=
  fun n member => coherent.crafted n (mem_allNodes.mpr ⟨owner, g, held, member⟩)

/-- New contents of nodes keep what has to be kept. -/
theorem develops_of_recast (coherent : Coherent except e) (held : e.asset.graph? owner = some g)
    (nodes : List.Forall₂ Recast g.nodes h.nodes)
    (grown : (identities h).Subperm (identities g ++ fresh)) : Develops e except owner fresh g h where
  identities := grown
  crafted := by
    intro m inside
    obtain ⟨n, member, recast⟩ := origin_of_mem nodes inside
    exact recast_crafted recast (graph_crafted coherent held n member)
  machines := by
    intro m inside machine
    obtain ⟨n, member, recast⟩ := origin_of_mem nodes inside
    exact .inl ⟨n, member, (recast_machine recast (graph_crafted coherent held n member)).mp machine,
      recast.id.symm⟩
  entered := .inr (recast_entered nodes)
  joined := .inr (recast_unjoined nodes)

/-- Edits in place, with new links. -/
theorem develops_of_edited (coherent : Coherent except e) (held : e.asset.graph? owner = some g)
    (nodes : List.Forall₂ Edited g.nodes h.nodes)
    (links : (h.links.map fun l => l.id.value).Subperm ((g.links.map fun l => l.id.value) ++ fresh)) :
    Develops e except owner fresh g h := by
  refine develops_of_recast coherent held (nodes.imp fun _ _ => edited_recast) ?_
  rw [identities, identities, edited_flatMap nodes, List.append_assoc]
  exact (List.subperm_append_left _).mpr links

/-- Edits in place keep what has to be kept. -/
theorem coherent_revise (coherent : Coherent except e)
    (revised : ∀ g, e.asset.graph? owner = some g → Revised g (change g)) :
    Coherent except (e.modifyGraph owner change) :=
  coherent_develop coherent newcomers_nil fun g held =>
    develops_of_edited coherent held (revised g held).nodes (by
      rw [List.append_nil]
      exact ((revised g held).links.map _).subperm)

/-! ## New graphs and new nodes -/

theorem graph_insert (missing : a.hasGraph owner = false) :
    (a.graphs.insert owner g).entries = a.graphs.entries ++ [(owner, g)] := by
  have append (entries : List (NodeId × SubGraph)) (apart : entries.any (·.1 == owner) = false) :
      Entries.insert entries owner g = entries ++ [(owner, g)] := by
    induction entries with
    | nil => rfl
    | cons entry entries ih =>
      obtain ⟨id, k⟩ := entry
      rw [List.any_cons, Bool.or_eq_false_iff, beq_eq_false_iff_ne] at apart
      rw [Entries.insert, if_neg apart.1, ih apart.2, List.cons_append]
  exact append _ missing

theorem hasGraph_iff : a.hasGraph owner = true ↔ ∃ g, a.graph? owner = some g := by
  simp only [Asset.hasGraph, Table.contains, List.any_eq_true, beq_iff_eq, Asset.graph?, get_eq_some_iff]
  constructor
  · rintro ⟨⟨id, g⟩, inside, rfl⟩
    exact ⟨g, inside⟩
  · rintro ⟨g, inside⟩
    exact ⟨(owner, g), inside, rfl⟩

/-- An asset that gives a node an empty graph has that graph besides the others. -/
theorem graph_ensureGraph : (a.ensureGraph owner).graph? id =
    if id = owner then some ((a.graph? owner).getD .empty) else a.graph? id := by
  rw [Asset.ensureGraph]
  cases present : a.hasGraph owner with
  | true =>
    obtain ⟨g, held⟩ := hasGraph_iff.mp present
    by_cases here : id = owner
    · simp [here, held]
    · simp [here]
  | false =>
    have missing : a.graph? owner = none := by
      cases held : a.graph? owner with
      | none => rfl
      | some g => simp [hasGraph_iff.mpr ⟨g, held⟩] at present
    have entries := graph_insert (g := .empty) present
    apply Option.ext
    intro h
    simp only [Bool.false_eq_true, ↓reduceIte, Asset.graph?, get_eq_some_iff, entries, List.mem_append,
      List.mem_singleton, Prod.mk.injEq]
    by_cases here : id = owner
    · subst here
      have apart : (id, h) ∉ a.graphs.entries := fun inside => by
        rw [Asset.graph?, get_eq_some_iff.mpr inside] at missing
        cases missing
      simp [apart, show a.graphs.get? id = none from missing, eq_comm]
    · simp [here, get_eq_some_iff]

theorem ensureGraph_entries (a : Asset) (owner : NodeId) :
    (a.ensureGraph owner).graphs.entries = a.graphs.entries ∨
      (a.ensureGraph owner).graphs.entries = a.graphs.entries ++ [(owner, .empty)] := by
  rw [Asset.ensureGraph]
  cases present : a.hasGraph owner with
  | true => exact .inl rfl
  | false => exact .inr (graph_insert present)

theorem allNodes_ensureGraph (a : Asset) (owner : NodeId) : allNodes (a.ensureGraph owner) = allNodes a := by
  rw [allNodes, allNodes, Table.values, Table.values]
  rcases ensureGraph_entries a owner with same | more
  · rw [same]
  · rw [more]
    simp [SubGraph.empty]

theorem allIdentities_ensureGraph (a : Asset) (owner : NodeId) :
    allIdentities (a.ensureGraph owner) = allIdentities a := by
  rw [allIdentities, allIdentities, Table.values, Table.values]
  rcases ensureGraph_entries a owner with same | more
  · rw [same]
  · rw [more]
    simp [identities, SubGraph.empty]

theorem unjoined_empty : Unjoined .empty := fun _ inside => nomatch inside

theorem origin_ensureGraph (found : (a.ensureGraph owner).graph? id = some h) :
    a.graph? id = some h ∨ h = .empty := by
  rw [graph_ensureGraph] at found
  split at found
  · rename_i here
    cases before : a.graph? owner with
    | none => exact .inr (by simpa [before, eq_comm] using found)
    | some g => exact .inl (by simpa [before, here] using found)
  · exact .inl found

theorem coherent_ensureGraph (coherent : Coherent except e) (owner : NodeId) :
    Coherent except (e.modifyAsset (·.ensureGraph owner)) := by
  have nodes : allNodes (e.asset.ensureGraph owner) = allNodes e.asset := allNodes_ensureGraph _ _
  have taken : allIdentities (e.asset.ensureGraph owner) = allIdentities e.asset := allIdentities_ensureGraph _ _
  have named : (e.asset.ensureGraph owner).localVariables = e.asset.localVariables := by
    rw [Asset.ensureGraph]
    split <;> rfl
  refine ⟨coherent.positive, ?_, ?_, ?_, ?_, ?_, ?_⟩
  · exact taken ▸ coherent.distinct
  · exact taken ▸ coherent.drawn
  · exact nodes ▸ coherent.crafted
  · change "Output" ∉ (e.asset.ensureGraph owner).localVariables.keys
    exact named ▸ coherent.named
  · intro n member machine spared h found
    rcases origin_ensureGraph found with before | rfl
    · exact coherent.entered n (nodes ▸ member) machine spared h before
    · exact .inr (.inl unjoined_empty)
  · intro id h found
    rcases origin_ensureGraph found with before | rfl
    · exact coherent.joined id h before
    · exact .inl unjoined_empty

/-- A node that has just been made. A graph that waits for it, if there is one,
holds no transition. -/
structure Newcomer (e : Editor) (n : Node) : Prop where
  identities : Newcomers e (nodeIdentities n)
  crafted : Crafted n
  unjoined : ∀ k, e.asset.graph? n.id = some k → Unjoined k

theorem newcomer_ensureGraph (newcomer : Newcomer e n) (owner : NodeId) :
    Newcomer (e.modifyAsset (·.ensureGraph owner)) n := by
  obtain ⟨⟨distinct, drawn, untaken⟩, crafted, unjoined⟩ := newcomer
  refine ⟨⟨distinct, drawn, ?_⟩, crafted, fun k found => ?_⟩
  · change ∀ i ∈ nodeIdentities n, i ∉ allIdentities (e.asset.ensureGraph owner)
    rw [allIdentities_ensureGraph]
    exact untaken
  · rcases origin_ensureGraph found with before | rfl
    · exact unjoined k before
    · exact unjoined_empty

/-- Adding a new node to a graph. The graph may be left without an entry, unless
it has no transition. -/
theorem coherent_addNode (coherent : Coherent except e) (newcomer : Newcomer e n)
    (machine : some owner = except ∨ n.kind ≠ .transition ∧ ∀ g, e.asset.graph? owner = some g → Unjoined g)
    (joined : owner.value < e.nextId ∨ n.kind ≠ .transition) :
    Coherent except (e.modifyGraph owner (·.addNode n)) := by
  have unjoined (g : SubGraph) (plain : n.kind ≠ .transition) (before : Unjoined g) : Unjoined (g.addNode n) := by
    intro m inside
    rcases List.mem_append.mp inside with old | new
    · exact before m old
    · rw [List.mem_singleton.mp new]
      exact plain
  refine coherent_develop coherent newcomer.identities fun g held => ⟨?_, ?_, ?_, ?_, ?_⟩
  · rw [identities, identities, SubGraph.addNode, List.flatMap_append, List.flatMap_singleton,
      List.append_assoc, List.append_assoc]
    exact (List.perm_append_comm.append_left _).subperm
  · intro m inside
    rcases List.mem_append.mp inside with old | new
    · exact graph_crafted coherent held m old
    · rw [List.mem_singleton.mp new]
      exact newcomer.crafted
  · intro m inside machine
    rcases List.mem_append.mp inside with old | new
    · exact .inl ⟨m, old, machine, rfl⟩
    · rw [List.mem_singleton.mp new]
      exact .inr newcomer.unjoined
  · exact machine.imp_right fun both _ => .inr (.inl (unjoined g both.1 (both.2 g held)))
  · exact joined.imp_right (unjoined g)

/-! ## Entries -/

theorem revised_ensureEntry (g : SubGraph) : Revised g g.ensureEntry := by
  rw [SubGraph.ensureEntry]
  split
  · exact revised_refl g
  · refine ⟨?_, .refl _⟩
    exact forall₂_modifyFirst edited_refl fun n _ _ => ⟨rfl, rfl, rfl, rfl, rfl, .inl rfl, fun _ => rfl⟩

theorem entered_ensureEntry (g : SubGraph) : Entered g.ensureEntry := by
  rw [SubGraph.ensureEntry]
  split
  · exact .inl ‹_›
  · cases found : g.nodes.find? Node.isState with
    | none =>
      have stateless : ∀ n ∈ g.nodes, n.isState = false := by
        simpa using List.find?_eq_none.mp found
      rw [modifyFirst_none stateless]
      exact .inr (.inr (List.any_eq_false.mpr fun n member => by simp [stateless n member]))
    | some n =>
      obtain ⟨before, after, -, modified, -⟩ :=
        modifyFirst_eq (f := fun n => { n with isEntry := true }) found
      rw [modified]
      exact .inl (by simp)

theorem coherent_ensureEntryIn (coherent : Coherent except e) (owner : NodeId) :
    Coherent except (e.ensureEntryIn owner) :=
  coherent_revise coherent fun g _ => revised_ensureEntry g

/-- An exception for a graph that is no state machine is none. -/
theorem coherent_unexempt (coherent : Coherent (some owner) e)
    (other : e.asset.ownerKind? owner ≠ some .stateMachine) : Coherent none e := by
  refine { coherent with entered := fun n member machine _ h found => ?_ }
  by_cases here : n.id = owner
  · exact absurd (here ▸ machine_ownerKind coherent member machine) other
  · exact coherent.entered n member machine (fun same => here (Option.some.inj same)) h found

/-- The one state machine that may be without an entry gets one. -/
theorem coherent_ensureEntryOfMachine (coherent : Coherent (some owner) e) :
    Coherent none (e.ensureEntryOfMachine owner) := by
  rw [ensureEntryOfMachine]
  split
  · have after : Coherent (some owner) (e.ensureEntryIn owner) := coherent_ensureEntryIn coherent owner
    refine { after with entered := fun n member machine _ h found => ?_ }
    by_cases here : n.id = owner
    · rw [here, ensureEntryIn, Editor.modifyGraph, modifyAsset, graph_modifyGraph, if_pos rfl] at found
      obtain ⟨g, -, rfl⟩ := Option.map_eq_some_iff.mp found
      exact entered_ensureEntry g
    · exact after.entered n member machine (fun same => here (Option.some.inj same)) h found
  · exact coherent_unexempt coherent ‹_›

/-! ## Order -/

/-- Rearranging a graph keeps what has to be kept, as long as entry marks stay. -/
theorem develops_of_alike (coherent : Coherent except e) (held : e.asset.graph? owner = some g)
    (alike : Alike g h) (marks : g.nodes.any Node.isEntry = h.nodes.any Node.isEntry) :
    Develops e except owner [] g h := by
  have unjoined (before : Unjoined g) : Unjoined h := by
    intro m inside
    obtain ⟨n, member, same⟩ := counterpart (alike_symm alike) inside
    rw [← same_kind same]
    exact before n member
  refine ⟨?_, ?_, ?_, .inr ?_, .inr unjoined⟩
  · rw [List.append_nil]
    have nodes := (map_perm (f := nodeIdentities) (fun _ => rfl) alike).flatten
    rw [← List.flatMap_def, ← List.flatMap_def] at nodes
    exact (nodes.append (alike.links.map _)).symm.subperm
  · intro m inside
    obtain ⟨n, member, same⟩ := counterpart (alike_symm alike) inside
    have crafted := graph_crafted coherent held n member
    have blind : Crafted n = Crafted m := same_blind (f := Crafted) (fun n => propext
      ⟨fun bare => ⟨bare.comment, bare.output, bare.ordinary⟩,
        fun whole => ⟨whole.comment, whole.output, whole.ordinary⟩⟩) same
    exact blind ▸ crafted
  · intro m inside machine
    obtain ⟨n, member, same⟩ := counterpart (alike_symm alike) inside
    exact .inl ⟨n, member, ⟨(same_blind (f := Node.isSubroutine) (fun _ => rfl) same).trans machine.1,
      (same_kind same).trans machine.2⟩, same_id same⟩
  · rintro (marked | before | stateless)
    · exact .inl (marks ▸ marked)
    · exact .inr (.inl (unjoined before))
    · have states : g.nodes.any Node.isState = h.nodes.any Node.isState := by
        have perm := map_perm (f := Node.isState) (fun _ => rfl) alike
        simpa only [List.any_map, Function.comp_def] using perm.any_eq (f := fun x => x)
      exact .inr (.inr (states ▸ stateless))

theorem entryFirst_marks (g : SubGraph) : g.nodes.any Node.isEntry = g.entryFirst.nodes.any Node.isEntry := by
  rw [SubGraph.entryFirst, (List.mergeSort_perm _ _).any_eq, List.any_map]
  rfl

theorem inEvaluationOrder_marks (g : SubGraph) :
    g.nodes.any Node.isEntry = g.inEvaluationOrder.nodes.any Node.isEntry := by
  rw [SubGraph.inEvaluationOrder, IndexRanks.applyIndices_eq, List.any_map, (List.mergeSort_perm _ _).any_eq]
  rfl

theorem coherent_sort (coherent : Coherent except e) : Coherent except e.sort := by
  have step (e : Editor) (owner : NodeId) (coherent : Coherent except e) :
      Coherent except (e.modifyAsset (·.sortGraph owner)) := by
    rw [modifyAsset, Asset.sortGraph]
    split
    · exact coherent_develop coherent newcomers_nil fun g held =>
        develops_of_alike coherent held (alike_entryFirst g) (entryFirst_marks g)
    · exact coherent_develop coherent newcomers_nil fun g held =>
        develops_of_alike coherent held (alike_inEvaluationOrder g) (inEvaluationOrder_marks g)
  have fold (owners : List NodeId) (e : Editor) (coherent : Coherent except e) :
      Coherent except (e.modifyAsset (owners.foldl Asset.sortGraph)) := by
    induction owners generalizing e with
    | nil => exact coherent
    | cons owner owners ih => exact ih _ (step e owner coherent)
  exact fold e.asset.owners e coherent

end PoseGraph.EditorCoherence
