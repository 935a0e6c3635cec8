import PoseGraph.Triangulation
import Mathlib.Data.List.Induction
import Mathlib.Data.List.Pairwise
import Mathlib.Order.Basic

/-! Which triples of vertices a triangulation takes. Candidates are met in lexicographic order,
so what keeps one out has been taken before it. None can be added in the end: whatever was left
out is no candidate or overlaps an earlier triangle of the choice. -/
namespace PoseGraph.TriangleChoice
open Triangle

variable {n : Nat} {s t : Triangle} {candidates : List Triangle} {before : Triangle → Triangle → Prop}
variable {flat : Triangle → Bool} {inCircle : Triangle → Nat → Bool} {overlap separates : Triangle → Triangle → Bool}

/-! ## Triples in order -/

/-- The corners are different ones of `n` vertices, by increasing index. -/
def Ascends (n : Nat) (t : Triangle) : Prop := t.first < t.second ∧ t.second < t.third ∧ t.third < n

instance : Decidable (Ascends n t) := inferInstanceAs (Decidable (_ ∧ _ ∧ _))

/-- Triples are compared by their first corners, then by their second and third ones. -/
def Precedes (s t : Triangle) : Prop := s.corners < t.corners

theorem precedes_iff : Precedes s t ↔ s.first < t.first ∨ s.first = t.first ∧
    (s.second < t.second ∨ s.second = t.second ∧ s.third < t.third) := by
  simp [Precedes, corners, List.cons_lt_cons_iff]

theorem mem_increasing : t ∈ increasing n ↔ Ascends n t := by
  simp only [increasing, Ascends, List.mem_flatMap, List.mem_map, List.mem_range, List.mem_range'_1]
  constructor
  · rintro ⟨i, first, j, second, k, third, rfl⟩
    exact ⟨show i < j by omega, show j < k by omega, show k < n by omega⟩
  · rintro ⟨first, second, third⟩
    exact ⟨t.first, by omega, t.second, by omega, t.third, by omega, rfl⟩

theorem increasing_ordered (n : Nat) : (increasing n).Pairwise Precedes := by
  rw [increasing, List.pairwise_flatMap]
  refine ⟨fun i _ => List.pairwise_flatMap.mpr ⟨fun j _ => ?_, ?_⟩, ?_⟩
  · rw [List.pairwise_map]
    refine (List.pairwise_lt_range' 1).imp fun later => ?_
    exact precedes_iff.mpr (.inr ⟨rfl, .inr ⟨rfl, later⟩⟩)
  · refine (List.pairwise_lt_range' 1).imp fun later s left t right => ?_
    obtain ⟨_, -, rfl⟩ := List.mem_map.mp left
    obtain ⟨_, -, rfl⟩ := List.mem_map.mp right
    exact precedes_iff.mpr (.inr ⟨rfl, .inl later⟩)
  · refine List.pairwise_lt_range.imp fun later s left t right => ?_
    simp only [List.mem_flatMap, List.mem_map] at left right
    obtain ⟨_, -, _, -, rfl⟩ := left
    obtain ⟨_, -, _, -, rfl⟩ := right
    exact precedes_iff.mpr (.inl later)

theorem isDelaunay_iff : isDelaunay n flat inCircle t = true ↔
    flat t = false ∧ ∀ v < n, v ∉ t.corners → inCircle t v = false := by
  simp only [isDelaunay, Bool.and_eq_true, Bool.not_eq_true', List.all_eq_true, List.mem_range, Bool.or_eq_true,
    List.contains_iff_mem, or_iff_not_imp_left]

/-! ## Taking what does not overlap -/

/-- One more candidate is taken unless it overlaps one that has been taken. -/
theorem takeDisjoint_concat (candidates : List Triangle) (t : Triangle) : takeDisjoint overlap (candidates ++ [t]) =
    if (takeDisjoint overlap candidates).any (overlap · t) then takeDisjoint overlap candidates
    else takeDisjoint overlap candidates ++ [t] := by
  rw [takeDisjoint, List.foldl_append]
  rfl

theorem taken_sublist (candidates : List Triangle) : (takeDisjoint overlap candidates).Sublist candidates := by
  induction candidates using List.reverseRecOn with
  | nil => exact .refl []
  | append_singleton candidates t ih =>
    rw [takeDisjoint_concat]
    split
    · exact ih.trans (List.sublist_append_left _ _)
    · exact ih.append (.refl [t])

theorem taken_apart (candidates : List Triangle) :
    (takeDisjoint overlap candidates).Pairwise fun s t => overlap s t = false := by
  induction candidates using List.reverseRecOn with
  | nil => exact .nil
  | append_singleton candidates t ih =>
    rw [takeDisjoint_concat]
    split
    · exact ih
    · rename_i free
      refine List.pairwise_append.mpr ⟨ih, List.pairwise_singleton _ t, fun s taken u last => ?_⟩
      rw [List.mem_singleton.mp last]
      by_contra meets
      exact free (List.any_eq_true.mpr ⟨s, taken, by simpa using meets⟩)

/-- Every candidate is taken, or it overlaps one that was taken earlier. -/
theorem taken_or_overlaps (ordered : candidates.Pairwise before) (candidate : t ∈ candidates) :
    t ∈ takeDisjoint overlap candidates ∨ ∃ s ∈ takeDisjoint overlap candidates, before s t ∧ overlap s t = true := by
  induction candidates using List.reverseRecOn with
  | nil => cases candidate
  | append_singleton candidates u ih =>
    obtain ⟨earlier, -, last⟩ := List.pairwise_append.mp ordered
    have keeps : takeDisjoint overlap candidates ⊆ takeDisjoint overlap (candidates ++ [u]) := by
      rw [takeDisjoint_concat]
      split
      · exact fun _ taken => taken
      · exact List.subset_append_left _ _
    rcases List.mem_append.mp candidate with old | new
    · exact (ih earlier old).imp (keeps ·) fun ⟨s, taken, clash⟩ => ⟨s, keeps taken, clash⟩
    · obtain rfl := List.mem_singleton.mp new
      by_cases clash : (takeDisjoint overlap candidates).any (overlap · t) = true
      · obtain ⟨s, taken, meets⟩ := List.any_eq_true.mp clash
        exact .inr ⟨s, keeps taken, last s ((taken_sublist candidates).subset taken) t new, meets⟩
      · rw [takeDisjoint_concat, if_neg clash]
        exact .inl (by simp)

/-! ## The choice -/

/-- The chosen triples of `n` vertices are candidates in lexicographic order that do not overlap, and
no triple can be added to them: what is flat, has another vertex in its circle, or overlaps an
earlier triple of the choice is no loss, and there is nothing else. -/
structure MaximalChoice (n : Nat) (flat : Triangle → Bool) (inCircle : Triangle → Nat → Bool)
    (overlap : Triangle → Triangle → Bool) (chosen : List Triangle) : Prop where
  ascending : ∀ t ∈ chosen, Ascends n t
  ordered : chosen.Pairwise Precedes
  wide : ∀ t ∈ chosen, flat t = false
  clear : ∀ t ∈ chosen, ∀ v < n, v ∉ t.corners → inCircle t v = false
  apart : ∀ s ∈ chosen, ∀ t ∈ chosen, s ≠ t → overlap s t = false
  maximal : ∀ t, Ascends n t → t ∉ chosen → flat t = true ∨ (∃ v < n, v ∉ t.corners ∧ inCircle t v = true) ∨
    ∃ s ∈ chosen, Precedes s t ∧ overlap s t = true

/-- Two triangles overlap if an edge of neither has the other one on its outer side. -/
def meets (separates : Triangle → Triangle → Bool) (s t : Triangle) : Bool := !separates s t && !separates t s

theorem meets_comm (s t : Triangle) : meets separates s t = meets separates t s := Bool.and_comm _ _

theorem chosen_maximal (n : Nat) (flat : Triangle → Bool) (inCircle : Triangle → Nat → Bool)
    (separates : Triangle → Triangle → Bool) :
    MaximalChoice n flat inCircle (meets separates) (chooseTriangles n flat inCircle (meets separates)) := by
  have candidates : ((increasing n).filter (isDelaunay n flat inCircle)).Pairwise Precedes :=
    (increasing_ordered n).filter _
  have chosen {t : Triangle} (taken : t ∈ chooseTriangles n flat inCircle (meets separates)) :
      Ascends n t ∧ flat t = false ∧ ∀ v < n, v ∉ t.corners → inCircle t v = false := by
    obtain ⟨triple, passes⟩ := List.mem_filter.mp ((taken_sublist _).subset taken)
    exact ⟨mem_increasing.mp triple, isDelaunay_iff.mp passes⟩
  have symmetric : Std.Symm fun s t => meets separates s t = false := ⟨fun s t apart => (meets_comm t s).trans apart⟩
  refine ⟨fun t taken => (chosen taken).1, candidates.sublist (taken_sublist _), fun t taken => (chosen taken).2.1,
    fun t taken => (chosen taken).2.2, fun s left t right => (taken_apart _).forall left right, fun t ascends missing => ?_⟩
  by_cases passes : isDelaunay n flat inCircle t = true
  · have candidate := List.mem_filter.mpr ⟨mem_increasing.mpr ascends, passes⟩
    exact .inr (.inr ((taken_or_overlaps candidates candidate).resolve_left missing))
  · rw [isDelaunay_iff, not_and_or] at passes
    refine passes.imp (by simp) fun inside => .inl ?_
    push Not at inside
    simpa using inside

/-- A triangulation is a maximal choice, whatever one takes for flat triples, circles and the outer sides
of edges, and so it is for points of the plane, however their coordinates are rounded. -/
theorem triangulation_maximal :
    (∀ n flat inCircle separates,
      MaximalChoice n flat inCircle (meets separates) (chooseTriangles n flat inCircle (meets separates))) ∧
    ∀ points : List Point, MaximalChoice points.length (isFlat (vertices points)) (inCircumcircle (vertices points))
      (overlaps (vertices points)) (triangulate points) :=
  ⟨chosen_maximal, fun points => chosen_maximal _ _ _ (separates (vertices points))⟩

/-- The corners of a square are on one circle, so that all four triangles are candidates. Of each two that
share a diagonal, the choice takes those at the first one. -/
example : chooseTriangles 4 (fun _ => false) (fun _ _ => false)
    (meets fun s t => [(⟨0, 1, 2⟩, ⟨0, 2, 3⟩), (⟨0, 1, 3⟩, ⟨1, 2, 3⟩)].contains (s, t)) = [⟨0, 1, 2⟩, ⟨0, 2, 3⟩] := by
  decide

end PoseGraph.TriangleChoice
