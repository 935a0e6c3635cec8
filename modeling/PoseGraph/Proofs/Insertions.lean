import PoseGraph.Proofs.IndexRanks

/-! Lists with elements inserted anywhere. Where a test tells the elements that
were there from those that came in, filtering gives the old list back; searches
that miss all new elements find the same in both, and a stable sort commutes with
the filter, so that what is sorted beside them leaves the old elements in order.
-/
namespace PoseGraph.Insertions
open IndexRanks SubGraph

variable {α β : Type} {new : α → Prop} {xs ys : List α} {keep : α → Bool} {x : α}

/-- The second list is the first one with new elements inserted. -/
inductive Inserted (new : α → Prop) : List α → List α → Prop where
  | nil : Inserted new [] []
  | keep (x : α) {xs ys : List α} (rest : Inserted new xs ys) : Inserted new (x :: xs) (x :: ys)
  | insert {y : α} {xs ys : List α} (added : new y) (rest : Inserted new xs ys) : Inserted new xs (y :: ys)

theorem inserted_sublist (inserted : Inserted new xs ys) : xs.Sublist ys := by
  induction inserted with
  | nil => exact .slnil
  | keep x _ ih => exact ih.cons_cons x
  | insert _ _ ih => exact ih.cons _

theorem inserted_origin (inserted : Inserted new xs ys) (member : x ∈ ys) : x ∈ xs ∨ new x := by
  induction inserted with
  | nil => cases member
  | keep y _ ih =>
    rcases List.mem_cons.mp member with rfl | inner
    · exact .inl List.mem_cons_self
    · exact (ih inner).imp_left (List.mem_cons_of_mem y)
  | insert added _ ih =>
    rcases List.mem_cons.mp member with rfl | inner
    · exact .inr added
    · exact ih inner

/-- A test that the old elements pass and the new ones fail gives the old list back. -/
theorem inserted_filter (inserted : Inserted new xs ys) (old : ∀ x ∈ xs, keep x = true)
    (fresh : ∀ y ∈ ys, new y → keep y = false) : ys.filter keep = xs := by
  induction inserted with
  | nil => rfl
  | keep x _ ih =>
    obtain ⟨first, old⟩ := List.forall_mem_cons.mp old
    rw [List.filter_cons_of_pos first, ih old (List.forall_mem_cons.mp fresh).2]
  | insert added _ ih =>
    obtain ⟨first, fresh⟩ := List.forall_mem_cons.mp fresh
    rw [List.filter_cons_of_neg (by simp [first added]), ih old fresh]

/-! ## Searches that miss what is dropped -/

theorem filterMap_kept {f : α → Option β} (mute : ∀ y ∈ ys, keep y = false → f y = none) :
    (ys.filter keep).filterMap f = ys.filterMap f := by
  rw [List.filterMap_filter]
  apply List.filterMap_congr
  intro y member
  by_cases kept : keep y = true
  · rw [if_pos kept]
  · rw [if_neg kept, mute y member (Bool.eq_false_iff.mpr kept)]

theorem filter_kept {test : α → Bool} (mute : ∀ y ∈ ys, keep y = false → test y = false) :
    (ys.filter keep).filter test = ys.filter test := by
  rw [List.filter_filter]
  apply List.filter_congr
  intro y member
  cases kept : keep y
  · rw [mute y member kept, Bool.and_false]
  · exact Bool.and_true _

theorem find_kept {test : α → Bool} (mute : ∀ y ∈ ys, keep y = false → test y = false) :
    (ys.filter keep).find? test = ys.find? test := by
  rw [← List.head?_filter, ← List.head?_filter, filter_kept mute]

theorem findSome_kept {f : α → Option β} (mute : ∀ y ∈ ys, keep y = false → f y = none) :
    (ys.filter keep).findSome? f = ys.findSome? f := by
  rw [← List.head?_filterMap, ← List.head?_filterMap, filterMap_kept mute]

/-! ## Stable sorts -/

section Sorts

variable {le : α → α → Bool} (trans : ∀ a b c, le a b = true → le b c = true → le a c = true)
  (total : ∀ a b, (le a b || le b a) = true)
include trans

private theorem orderedInsert_filter (sorted : ys.Pairwise fun a b => le a b = true) (x : α) :
    (ys.orderedInsert (fun a b => le a b = true) x).filter keep =
      if keep x then (ys.filter keep).orderedInsert (fun a b => le a b = true) x else ys.filter keep := by
  induction ys with
  | nil => cases kept : keep x <;> simp [kept]
  | cons y ys ih =>
    obtain ⟨least, sorted⟩ := List.pairwise_cons.mp sorted
    by_cases first : le x y = true
    · -- All elements after `y` are greater still, so that `x` stays first whichever are dropped.
      have front : ∀ z ∈ (y :: ys).filter keep, le x z = true := by
        intro z member
        rcases List.mem_cons.mp (List.mem_of_mem_filter member) with rfl | inner
        · exact first
        · exact trans x y z first (least z inner)
      rw [List.orderedInsert_cons_of_le _ ys first, List.filter_cons]
      by_cases kept : keep x = true
      · rw [if_pos kept, if_pos kept]
        cases rest : (y :: ys).filter keep with
        | nil => rfl
        | cons z zs =>
          rw [rest] at front
          exact (List.orderedInsert_cons_of_le _ zs (front z List.mem_cons_self)).symm
      · rw [if_neg kept, if_neg kept]
    · rw [List.orderedInsert_of_not_le _ ys first, List.filter_cons, ih sorted, List.filter_cons]
      by_cases kept : keep x = true
      · by_cases second : keep y = true
        · rw [if_pos kept, if_pos kept, if_pos second, if_pos second,
            List.orderedInsert_of_not_le (r := fun a b => le a b = true) _ first]
        · rw [if_neg second, if_neg second]
      · rw [if_neg kept, if_neg kept]

include total

/-- Dropping elements after a stable sort is sorting what is left. -/
theorem mergeSort_filter (ys : List α) : (ys.mergeSort le).filter keep = (ys.filter keep).mergeSort le := by
  rw [mergeSort_eq_insertionSort trans total, mergeSort_eq_insertionSort trans total]
  induction ys with
  | nil => rfl
  | cons y ys ih =>
    have sorted : (ys.insertionSort fun a b => le a b = true).Pairwise fun a b => le a b = true := by
      rw [← mergeSort_eq_insertionSort trans total]
      exact List.pairwise_mergeSort trans total ys
    rw [List.insertionSort_cons, orderedInsert_filter trans sorted, ih, List.filter_cons]
    by_cases kept : keep y = true
    · rw [if_pos kept, if_pos kept, List.insertionSort_cons]
    · rw [if_neg kept, if_neg kept]

end Sorts

/-- A sort only compares the elements of its list. -/
theorem mergeSort_congr {le other : α → α → Bool} (same : ∀ a ∈ xs, ∀ b ∈ xs, le a b = other a b) :
    xs.mergeSort le = xs.mergeSort other := by
  have mapped := List.map_mergeSort (f := id) (fun a inside b also => same a inside b also)
  rwa [List.map_id, List.map_id] at mapped

/-! ## Positions -/

variable {m : Node} {nodes : List Node} {pin : PinId}

theorem lastPosition_cons : lastPosition? (m :: nodes) pin =
    match lastPosition? nodes pin with
    | some i => some (i + 1)
    | none => if m.hasPin pin then some 0 else none := by
  unfold lastPosition?
  rw [List.reverse_cons, List.findIdx?_append]
  cases found : nodes.reverse.findIdx? (·.hasPin pin) with
  | some i =>
    have inside : i < nodes.length := by
      simpa using (List.findIdx?_eq_some_iff_findIdx_eq.mp found).1
    simp only [Option.some_or, Option.map_some, List.length_cons, Option.some.injEq]
    omega
  | none => by_cases has : m.hasPin pin = true <;> simp [has]

/-- Positions of the last nodes with given pins are in the same order whether or not other nodes stand between them. -/
theorem lastPosition_filter (keep : Node → Bool) (nodes : List Node) : ∃ place : Nat → Nat, StrictMono place ∧
    ∀ pin, (∀ n ∈ nodes, keep n = false → n.hasPin pin = false) →
      lastPosition? nodes pin = (lastPosition? (nodes.filter keep) pin).map place := by
  induction nodes with
  | nil => exact ⟨id, strictMono_id, fun _ _ => rfl⟩
  | cons m nodes ih =>
    obtain ⟨place, increasing, moved⟩ := ih
    by_cases kept : keep m = true
    · refine ⟨fun i => Nat.casesOn i 0 fun i => place i + 1, strictMono_nat_of_lt_succ ?_, ?_⟩
      · rintro (_ | i)
        · exact Nat.succ_pos _
        · exact Nat.succ_lt_succ (increasing (Nat.lt_succ_self i))
      · intro pin absent
        rw [List.filter_cons_of_pos kept, lastPosition_cons, lastPosition_cons,
          moved pin (List.forall_mem_cons.mp absent).2]
        cases lastPosition? (nodes.filter keep) pin with
        | some i => rfl
        | none => by_cases has : m.hasPin pin = true <;> simp [has]
    · refine ⟨fun i => place i + 1, fun i j less => Nat.succ_lt_succ (increasing less), ?_⟩
      intro pin absent
      obtain ⟨first, absent⟩ := List.forall_mem_cons.mp absent
      rw [List.filter_cons_of_neg kept, lastPosition_cons, moved pin absent, first (Bool.eq_false_iff.mpr kept)]
      cases lastPosition? (nodes.filter keep) pin with
      | some i => rfl
      | none => rfl

theorem indexLe_map {place : Nat → Nat} (increasing : StrictMono place) (i j : Option Nat) :
    indexLe (i.map place) (j.map place) = indexLe i j := by
  cases i <;> cases j <;> simp [indexLe, increasing.le_iff_le]

end PoseGraph.Insertions
