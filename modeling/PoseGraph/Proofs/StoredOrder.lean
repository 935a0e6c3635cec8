import PoseGraph.Proofs.PrototypeTree
import PoseGraph.Proofs.Validity

/-! Assets whose graphs list the same nodes and links, each in an order of its own. Checks meet problems in
that order, so that it decides which of several problems is told; but it does not decide whether there is one.
Ordering an asset is one way to list it anew. -/
namespace PoseGraph.StoredOrder
open AssetOrder EditRuns Editor LoweringFailures PrototypeTree Rearrangement Validity

variable {e f : Editor} {a b : Asset} {g h : SubGraph}

/-- Two graphs that list the same nodes and the same links. -/
structure SameListed (g h : SubGraph) : Prop where
  nodes : g.nodes.Perm h.nodes
  links : g.links.Perm h.links

/-- Two assets that differ only in the orders in which their graphs list nodes and links. -/
structure Relisted (a b : Asset) : Prop where
  graphs : List.Forall₂ (fun e f => e.1 = f.1 ∧ SameListed e.2 f.2) a.graphs.entries b.graphs.entries
  rest : b = { a with graphs := b.graphs }

theorem rearranged_of_relisted (relisted : Relisted a b) : Rearranged a b := by
  refine ⟨relisted.graphs.imp fun _ _ same => ⟨same.1, same.2.nodes.map bare, same.2.links⟩, ?_⟩
  rw [relisted.rest]

theorem relisted_mapValues {change : NodeId → SubGraph → SubGraph} (same : ∀ owner g, SameListed g (change owner g)) :
    Relisted a { a with graphs := a.graphs.mapValues change } :=
  ⟨LoweringSemantics.each_mapped fun entry _ => ⟨rfl, same entry.1 entry.2⟩, rfl⟩

theorem reordered_symm (reordered : Reordered e f) : Reordered f e :=
  ⟨rearranged_symm reordered.assets, reordered.catalog.symm⟩

theorem reordered_sort (e : Editor) : Reordered e e.sort := ⟨rearranged_sorted e.asset, rfl⟩

instance : Decidable (PlainComments a) :=
  inferInstanceAs (Decidable (∀ n ∈ allNodes a, n.isComment = true → n.name ≠ "Output"))

theorem plainComments_rearranged (related : Rearranged a b) (plain : PlainComments a) : PlainComments b := by
  intro n member comment
  obtain ⟨m, inside, same⟩ := rearranged_node (rearranged_symm related) member
  have name : m.name = n.name := same_blind (fun _ => rfl) same
  have remark : m.isComment = n.isComment := same_blind (fun _ => rfl) same
  exact name ▸ plain m inside (remark.trans comment)

/-- If one of two such assets has an error, so has the other one. -/
theorem reordered_isValid (reordered : Reordered e f) (identified : Identified e.asset) (plain : PlainComments e.asset) :
    f.validate.isValid = e.validate.isValid := by
  rw [Bool.eq_iff_iff, ValidationReport.isValid, ValidationReport.isValid, List.isEmpty_iff, List.isEmpty_iff]
  exact ⟨valid_reordered (reordered_symm reordered) (rearranged_identified reordered.assets identified)
    (plainComments_rearranged reordered.assets plain), valid_reordered reordered identified plain⟩

/-- Where nodes and pins are told apart and no annotation passes for an output, an asset is valid or not
however its graphs list their nodes and links. Ordering it makes no difference either. -/
theorem validity_whatever_order (identified : Identified e.asset) (plain : PlainComments e.asset) :
    (∀ b, Relisted e.asset b → ({ e with asset := b } : Editor).validate.isValid = e.validate.isValid) ∧
      e.sort.validate.isValid = e.validate.isValid :=
  ⟨fun _ relisted => reordered_isValid ⟨rearranged_of_relisted relisted, rfl⟩ identified plain,
    reordered_isValid (reordered_sort e) identified plain⟩

/-- The same asset with every graph listed backwards. -/
def listedBackwards (a : Asset) : Asset := { a with graphs := a.graphs.mapValues fun _ => backwards }

theorem relisted_backwards (a : Asset) : Relisted a (listedBackwards a) :=
  relisted_mapValues fun _ g => ⟨(List.reverse_perm g.nodes).symm, (List.reverse_perm g.links).symm⟩

/-- From the state that plays a clip, a transition leads to a quick state. -/
def crossing : List Edit :=
  clipPlaying ++ [.setPath (some ⟨5⟩), .createNode stateMachineCategory "Quick State", .createTransition ⟨8⟩ ⟨29⟩]

/-- The quick state gets a clip and the transition occurs. -/
def crossingMended : List Edit :=
  crossing ++ [.setPinValue ⟨30⟩ (.ofHandle .animation 7), .setPath (some ⟨31⟩), .setPinValue ⟨36⟩ (.bool true)]

/-- The editor after some edits of a new asset. -/
def edited (edits : List Edit) : Editor := edits.foldl Edit.apply (.ofAsset (.ofName "Wave" ⟨1⟩) oneClip .default 1)

/-- Before it is mended, the state machine has two problems, and its order decides which of them is told.
But the asset is at fault either way, and valid either way once both are mended. -/
theorem crossing_backwards : Identified (edited crossing).asset ∧ PlainComments (edited crossing).asset ∧
    Identified (edited crossingMended).asset ∧ PlainComments (edited crossingMended).asset ∧
    (edited crossing).validate.errors ≠
      ({ edited crossing with asset := listedBackwards (edited crossing).asset } : Editor).validate.errors ∧
    ({ edited crossing with asset := listedBackwards (edited crossing).asset } : Editor).validate.isValid = false ∧
    ({ edited crossingMended with asset := listedBackwards (edited crossingMended).asset } : Editor).validate.isValid =
      true ∧ (edited crossingMended).sort.validate.isValid = true := by
  have before : Identified (edited crossing).asset := ⟨by decide +kernel, by decide +kernel⟩
  have after : Identified (edited crossingMended).asset := ⟨by decide +kernel, by decide +kernel⟩
  have plain : PlainComments (edited crossing).asset := by decide +kernel
  have also : PlainComments (edited crossingMended).asset := by decide +kernel
  have faulty : (edited crossing).validate.isValid = false := by decide +kernel
  have valid : (edited crossingMended).validate.isValid = true := by decide +kernel
  have same := validity_whatever_order before plain
  have mended := validity_whatever_order after also
  exact ⟨before, plain, after, also, by decide +kernel, (same.1 _ (relisted_backwards _)).trans faulty,
    (mended.1 _ (relisted_backwards _)).trans valid, mended.2.trans valid⟩

/-- An annotation called like an output would hide a transition that never occurs, if it were listed first. -/
example : let remark : Node := { Node.ofName "Output" ⟨0, 0, 0⟩ with id := ⟨99⟩, type := .comment }
    let clad := edited (crossing ++ [.setPinValue ⟨30⟩ (.ofHandle .animation 7)])
    (clad.modifyGraph ⟨31⟩ fun g => { g with nodes := remark :: g.nodes }).validate.isValid = true ∧
      (clad.modifyGraph ⟨31⟩ fun g => { g with nodes := g.nodes ++ [remark] }).validate.isValid = false := by
  decide +kernel

end PoseGraph.StoredOrder
