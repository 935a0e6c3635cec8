import PoseGraph.Proofs.PropertyEdits

/-! Names for new properties. Suffixes are tried one after another, and nothing limits how
many. That comes to an end since numbers are written differently: the base and a suffix
for each property would be more names than there are properties. -/
namespace PoseGraph.FreshNames
open Properties PropertyEdits

variable {ps : Properties} {base name other : String} {i k first : Nat}

/-- Trying suffixes, from a number on and one after another, comes to a name that is not taken. -/
inductive Tries (ps : Properties) (base : String) : Nat → String → Prop where
  | free {k : Nat} (free : suffixed base k ∉ ps.keys) : Tries ps base k (suffixed base k)
  | taken {k : Nat} {name : String} (taken : suffixed base k ∈ ps.keys) (further : Tries ps base (k + 1) name) :
      Tries ps base k name

/-! ## Suffixes -/

theorem suffixed_ne (base : String) (k : Nat) : suffixed base k ≠ base := fun same => by
  have lengths := congrArg String.length same
  simp only [suffixed, String.length_append] at lengths
  have underscore : "_".length = 1 := rfl
  omega

theorem suffixed_inj (same : suffixed base i = suffixed base k) : i = k := by
  rw [suffixed, suffixed, String.append_right_inj, Nat.repr, Nat.repr, String.ofList_inj] at same
  have read := congrArg (Nat.ofDigitChars 10 · 0) same
  simpa only [Nat.ofDigitChars_ten_toDigits] using read

/-- Where the base is taken, one suffix for each property cannot be taken as well. -/
theorem suffix_free (taken : base ∈ ps.keys) : ∃ k ∈ List.range' 2 ps.size, suffixed base k ∉ ps.keys := by
  by_contra none
  push Not at none
  have distinct : (base :: (List.range' 2 ps.size).map (suffixed base)).Nodup := by
    refine List.nodup_cons.mpr ⟨fun member => ?_, (List.nodup_range' ..).map fun _ _ => suffixed_inj⟩
    obtain ⟨k, -, same⟩ := List.mem_map.mp member
    exact suffixed_ne base k same
  have within : base :: (List.range' 2 ps.size).map (suffixed base) ⊆ ps.keys := by
    refine List.cons_subset.mpr ⟨taken, fun name member => ?_⟩
    obtain ⟨k, inside, rfl⟩ := List.mem_map.mp member
    exact none k inside
  have fewer := (distinct.subperm within).length_le
  simp only [Table.keys, Table.size, List.length_cons, List.length_map, List.length_range'] at fewer
  omega

/-! ## The search -/

/-- The search goes over all suffixes that are taken to the first that is free. -/
theorem tries_of_least (from_ : first ≤ k) (free : suffixed base k ∉ ps.keys)
    (taken : ∀ j, first ≤ j → j < k → suffixed base j ∈ ps.keys) : Tries ps base first (suffixed base k) := by
  induction from_ using Nat.decreasingInduction with
  | self => exact .free free
  | of_succ j before ih =>
    exact .taken (taken j (Nat.le_refl j) before) (ih fun i later => taken i (Nat.le_of_succ_le later))

theorem tries_unique (one : Tries ps base first name) (another : Tries ps base first other) : name = other := by
  induction one with
  | free free =>
    cases another with
    | free => rfl
    | taken taken => exact absurd taken free
  | taken taken _ ih =>
    cases another with
    | free free => exact absurd taken free
    | taken _ further => exact ih further

theorem uniqueName_of_free (free : base ∉ ps.keys) : ps.uniqueName base = base := by
  rw [uniqueName, if_neg (mt contains_iff.mp free)]

theorem uniqueName_of_taken (taken : base ∈ ps.keys) : ∃ k, 2 ≤ k ∧ k ≤ ps.size + 1 ∧
    ps.uniqueName base = suffixed base k ∧ suffixed base k ∉ ps.keys ∧
    ∀ j, 2 ≤ j → j < k → suffixed base j ∈ ps.keys := by
  have free (k : Nat) : (!ps.contains (suffixed base k)) = true ↔ suffixed base k ∉ ps.keys := by
    rw [Bool.not_eq_true', ← Bool.not_eq_true, contains_iff]
  obtain ⟨i, near, available⟩ := suffix_free taken
  have some_ : ((List.range' 2 ps.size).find? fun k => !ps.contains (suffixed base k)).isSome = true :=
    List.find?_isSome.mpr ⟨i, near, (free i).mpr available⟩
  obtain ⟨k, found⟩ := Option.isSome_iff_exists.mp some_
  obtain ⟨passes, inside, before⟩ := List.find?_range'_eq_some.mp found
  rw [List.mem_range'_1] at inside
  refine ⟨k, inside.1, by omega, ?_, (free k).mp passes, fun j low high => ?_⟩
  · rw [uniqueName, if_pos (contains_iff.mpr taken), found]
  · by_contra missing
    have skipped := before j low high
    rw [(free j).mpr missing] at skipped
    cases skipped

/-- A new name is not taken. -/
theorem uniqueName_fresh (ps : Properties) (base : String) : ps.uniqueName base ∉ ps.keys := by
  by_cases taken : base ∈ ps.keys
  · obtain ⟨k, -, -, chosen, free, -⟩ := uniqueName_of_taken taken
    rwa [chosen]
  · rwa [uniqueName_of_free taken]

/-- A new name is not taken. It is the base if that is free; else the search for a suffix
comes to an end, which is the new name, at the least suffix from 2 on that is free, and
that is found among as many as there are properties. -/
theorem uniqueName_least (ps : Properties) (base : String) :
    ps.uniqueName base ∉ ps.keys ∧
      (base ∉ ps.keys ∧ ps.uniqueName base = base ∨
        base ∈ ps.keys ∧ (∀ name, Tries ps base 2 name ↔ name = ps.uniqueName base) ∧
          ∃ k, 2 ≤ k ∧ k ≤ ps.size + 1 ∧ ps.uniqueName base = base ++ "_" ++ toString k ∧
            ∀ j, 2 ≤ j → j < k → base ++ "_" ++ toString j ∈ ps.keys) := by
  refine ⟨uniqueName_fresh ps base, ?_⟩
  by_cases taken : base ∈ ps.keys
  · obtain ⟨k, low, high, chosen, free, before⟩ := uniqueName_of_taken taken
    have search : Tries ps base 2 (ps.uniqueName base) := chosen ▸ tries_of_least low free before
    refine .inr ⟨taken, fun name => ⟨fun tries => tries_unique tries search, ?_⟩, k, low, high, chosen, before⟩
    rintro rfl
    exact search
  · exact .inl ⟨taken, uniqueName_of_free taken⟩

/-- The bound is met where all suffixes before are taken. -/
example : uniqueName (.ofList [("Gait", .bool true), ("Gait_2", .bool true)]) "Gait" = "Gait_3" := by decide +kernel

end PoseGraph.FreshNames
