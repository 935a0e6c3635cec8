import Mathlib.Algebra.Order.Field.Power
import Mathlib.Data.Int.Log
import Mathlib.Data.Rat.Floor
import Mathlib.Tactic.NormNum
import PoseGraph.Scalar.Decimal

/-! Rounding to the nearest single depends on the ratio alone and not on how a decimal or a
fraction spells it, and it does nothing to a ratio that some single has already. -/
namespace PoseGraph.NearestScalars
open Scalar

variable {num den : Nat} {q : Int} {x : Scalar}

/-! ## The last place -/

theorem unscale_pos (positive : 0 < den) (q : Int) : 0 < (unscale num den q).2 := by
  unfold unscale
  split
  · exact Nat.mul_pos positive (Nat.pow_pos (by decide))
  · exact positive

theorem unscale_quotient (num den : Nat) (q : Int) :
    ((unscale num den q).1 : ℚ) / (unscale num den q).2 = num / den * 2 ^ (-q) := by
  unfold unscale
  split
  case isTrue above =>
    obtain ⟨k, rfl⟩ := Int.eq_ofNat_of_zero_le above
    rw [zpow_neg, ← div_eq_mul_inv, div_div]
    simp [Nat.pow_eq]
  case isFalse below =>
    obtain ⟨k, rfl⟩ : ∃ k : Nat, q = -k := ⟨(-q).toNat, by omega⟩
    simp [div_mul_eq_mul_div, Nat.pow_eq]

theorem quotient_lt (positive : 0 < den) (num : Nat) (q : Int) (bits : Nat) :
    (unscale num den q).1 / (unscale num den q).2 < 2 ^ bits ↔ (num : ℚ) / den < 2 ^ (bits + q) := by
  have below : (0 : ℚ) < (unscale num den q).2 := by exact_mod_cast unscale_pos positive q
  calc (unscale num den q).1 / (unscale num den q).2 < 2 ^ bits
      ↔ ((unscale num den q).1 : ℚ) / (unscale num den q).2 < 2 ^ bits := by
        rw [Nat.div_lt_iff_lt_mul (unscale_pos positive q), div_lt_iff₀ below]
        exact_mod_cast Iff.rfl
    _ ↔ (num : ℚ) / den * 2 ^ (-q) < 2 ^ bits := by rw [unscale_quotient]
    _ ↔ (num : ℚ) / den < 2 ^ (bits + q) := by
        rw [zpow_neg, ← div_eq_mul_inv, div_lt_iff₀ (by positivity), zpow_add₀ (by decide), zpow_natCast]

theorem log_eq {r : ℚ} {k : Int} (low : 2 ^ k ≤ r) (high : r < 2 ^ (k + 1)) : Int.log 2 r = k := by
  have positive : 0 < r := lt_of_lt_of_le (by positivity) low
  have above := (Int.zpow_le_iff_le_log (b := 2) (by decide) positive).mp low
  have below := (Int.lt_zpow_iff_log_lt (b := 2) (by decide) positive).mp high
  omega

/-- A ratio is within a factor of two of that of the leading bits of its parts. -/
theorem leading_bits (num_pos : 0 < num) (den_pos : 0 < den) :
    (2 : ℚ) ^ ((Nat.log2 num : Int) - Nat.log2 den - 1) ≤ num / den ∧
    (num : ℚ) / den < 2 ^ ((Nat.log2 num : Int) - Nat.log2 den + 1) := by
  have num_low : (2 : ℚ) ^ Nat.log2 num ≤ num := by exact_mod_cast Nat.log2_self_le num_pos.ne'
  have num_high : (num : ℚ) < 2 ^ (Nat.log2 num + 1) := by exact_mod_cast Nat.lt_log2_self
  have den_low : (2 : ℚ) ^ Nat.log2 den ≤ den := by exact_mod_cast Nat.log2_self_le den_pos.ne'
  have den_high : (den : ℚ) < 2 ^ (Nat.log2 den + 1) := by exact_mod_cast Nat.lt_log2_self
  have spread (a b : Nat) : (2 : ℚ) ^ ((a : Int) - b) = 2 ^ a / 2 ^ b := by
    rw [zpow_sub₀ (by decide), zpow_natCast, zpow_natCast]
  constructor
  · calc (2 : ℚ) ^ ((Nat.log2 num : Int) - Nat.log2 den - 1) = 2 ^ Nat.log2 num / 2 ^ (Nat.log2 den + 1) := by
          rw [← spread]
          push_cast
          ring_nf
      _ ≤ num / den := by gcongr
  · calc (num : ℚ) / den < 2 ^ (Nat.log2 num + 1) / 2 ^ Nat.log2 den := by gcongr
      _ = 2 ^ ((Nat.log2 num : Int) - Nat.log2 den + 1) := by
          rw [← spread]
          push_cast
          ring_nf

/-- The last place is told by the logarithm of the ratio. -/
theorem lastPlace_eq (num_pos : 0 < num) (den_pos : 0 < den) :
    lastPlace num den = max (Int.log 2 ((num : ℚ) / den) - 23) (-149) := by
  obtain ⟨low, high⟩ := leading_bits num_pos den_pos
  have fits := quotient_lt den_pos num ((Nat.log2 num : Int) - Nat.log2 den - 24) 24
  rw [show ((24 : Nat) : Int) + ((Nat.log2 num : Int) - Nat.log2 den - 24) = Nat.log2 num - Nat.log2 den by omega] at fits
  simp only [lastPlace, Nat.pow_eq, fits]
  split
  case isTrue small =>
    rw [log_eq low (by rwa [sub_add_cancel])]
    omega
  case isFalse large =>
    rw [log_eq (not_lt.mp large) high]
    omega

/-! ## Rounding -/

theorem roundDivEven_mul {k : Nat} (positive : 0 < k) (num den : Nat) :
    roundDivEven (k * num) (k * den) = roundDivEven num den := by
  simp only [roundDivEven, Nat.mul_div_mul_left _ _ positive, Nat.mul_mod_mul_left]
  have twice : 2 * (k * (num % den)) = k * (2 * (num % den)) := Nat.mul_left_comm ..
  simp [twice, Nat.mul_lt_mul_left positive, Nat.mul_left_cancel_iff positive]

/-- Nothing is rounded where nothing is left over. -/
theorem roundDivEven_exact (positive : 0 < den) (m : Nat) : roundDivEven (m * den) den = m := by
  simp only [roundDivEven, Nat.mul_div_cancel m positive, Nat.mul_mod_left]
  simp [positive.ne]

theorem unscale_mul (k num den : Nat) (q : Int) :
    unscale (k * num) (k * den) q = (k * (unscale num den q).1, k * (unscale num den q).2) := by
  unfold unscale
  split <;> simp [Nat.mul_assoc]

/-- A ratio may be extended. -/
theorem nearestRatio_mul {k : Nat} (positive : 0 < k) (num : Nat) (den_pos : 0 < den) :
    nearestRatio (k * num) (k * den) = nearestRatio num den := by
  by_cases zero : num = 0
  · simp [nearestRatio, zero]
  · have num_pos : 0 < num := Nat.pos_of_ne_zero zero
    have same : lastPlace (k * num) (k * den) = lastPlace num den := by
      rw [lastPlace_eq (Nat.mul_pos positive num_pos) (Nat.mul_pos positive den_pos), lastPlace_eq num_pos den_pos]
      rw [Nat.cast_mul, Nat.cast_mul, mul_div_mul_left _ _ (by exact_mod_cast positive.ne')]
    simp [nearestRatio, zero, positive.ne', same, unscale_mul, roundDivEven_mul positive]

/-- A ratio that a single has is rounded to that single: a number of at most twenty-four bits times a power of two
that is not below the last place of the least numbers, and not above it where there are fewer bits. -/
theorem nearestRatio_exact {m : Nat} (m_pos : 0 < m) (short : m < 2 ^ 24) (least : -149 ≤ q)
    (full : 2 ^ 23 ≤ m ∨ q = -149) (finite : (q + 149).toNat * 2 ^ 23 + m < 0x7f800000) (den_pos : 0 < den)
    (same : (num : ℚ) / den = m * 2 ^ q) :
    nearestRatio num den = ⟨UInt32.ofNat ((q + 149).toNat * 2 ^ 23 + m)⟩ := by
  have value : (0 : ℚ) < num / den := by
    rw [same]
    positivity
  have num_pos : 0 < num := by
    by_contra zero
    simp [Nat.eq_zero_of_not_pos zero] at value
  have bits : Int.log 2 ((num : ℚ) / den) = Nat.log2 m + q := by
    rw [same]
    refine log_eq ?_ ?_
    · rw [zpow_add₀ (by decide), zpow_natCast]
      gcongr
      exact_mod_cast Nat.log2_self_le m_pos.ne'
    · rw [add_right_comm, zpow_add₀ (by decide)]
      gcongr
      exact_mod_cast Nat.lt_log2_self
  have place : lastPlace num den = q := by
    rw [lastPlace_eq num_pos den_pos, bits]
    have below : Nat.log2 m < 24 := (Nat.log2_lt m_pos.ne').mpr short
    rcases full with full | rfl
    · have above : 23 ≤ Nat.log2 m := (Nat.le_log2 m_pos.ne').mpr full
      omega
    · omega
  have whole : (unscale num den q).1 = m * (unscale num den q).2 := by
    have below : ((unscale num den q).2 : ℚ) ≠ 0 := by exact_mod_cast (unscale_pos den_pos q).ne'
    have quotient := unscale_quotient num den q
    rw [same, mul_assoc, ← zpow_add₀ (by decide), add_neg_cancel, zpow_zero, mul_one, div_eq_iff below] at quotient
    exact_mod_cast quotient
  simp only [nearestRatio, num_pos.ne', if_false, place, whole, roundDivEven_exact (unscale_pos den_pos q), Nat.pow_eq,
    finite, if_true]

/-! ## Numbers as ratios -/

/-- The ratio of a number: some bits times a power of two, of which its own bits are made. -/
theorem ratio_spec (x : Scalar) : ∃ (m : Nat) (q : Int), m < 2 ^ 24 ∧ -149 ≤ q ∧
    (2 ^ 23 ≤ m ∨ q = -149) ∧ (q + 149).toNat * 2 ^ 23 + m = x.magnitude.toNat ∧
    x.ratio = if 0 ≤ q then (m * 2 ^ q.toNat, 1) else (m, 2 ^ (-q).toNat) := by
  have field : (x.magnitude >>> 23).toNat = x.magnitude.toNat / 2 ^ 23 := by
    rw [UInt32.toNat_shiftRight, Nat.shiftRight_eq_div_pow]
    rfl
  have fraction : (x.magnitude &&& 0x7fffff).toNat = x.magnitude.toNat % 2 ^ 23 := by
    rw [UInt32.toNat_and]
    exact Nat.and_two_pow_sub_one_eq_mod _ 23
  simp only [ratio, field, fraction, Nat.pow_eq]
  by_cases small : x.magnitude.toNat / 2 ^ 23 = 0
  · refine ⟨x.magnitude.toNat % 2 ^ 23, -149, by omega, by omega, .inr rfl, by omega, ?_⟩
    rw [small]
    simp
  · refine ⟨x.magnitude.toNat % 2 ^ 23 + 2 ^ 23, (x.magnitude.toNat / 2 ^ 23 : Nat) - 150, by omega, by omega,
      .inl (by omega), by omega, ?_⟩
    rw [if_neg small, Nat.max_eq_left (by omega)]

/-- Each finite number is the one nearest to its ratio. -/
theorem nearestRatio_ratio (finite : x.magnitude < 0x7f800000) (nonzero : x.magnitude ≠ 0) :
    nearestRatio x.ratio.1 x.ratio.2 = ⟨x.magnitude⟩ := by
  obtain ⟨m, q, short, least, full, bits, ratio⟩ := ratio_spec x
  have positive : 0 < x.magnitude.toNat := Nat.pos_of_ne_zero fun zero => nonzero (UInt32.toNat_inj.mp zero)
  have below : x.magnitude.toNat < 0x7f800000 := finite
  have m_pos : 0 < m := by omega
  rw [← UInt32.ofNat_toNat (x := x.magnitude), ← bits, ratio]
  split
  case isTrue above =>
    refine nearestRatio_exact m_pos short least full (by omega) Nat.one_pos ?_
    obtain ⟨k, rfl⟩ := Int.eq_ofNat_of_zero_le above
    simp
  case isFalse under =>
    refine nearestRatio_exact m_pos short least full (by omega) (Nat.pow_pos (by decide)) ?_
    obtain ⟨k, rfl⟩ : ∃ k : Nat, q = -k := ⟨(-q).toNat, by omega⟩
    simp [div_eq_mul_inv]

/-! ## Decimals -/

theorem digitCount_le_iff {n k : Nat} (positive : 0 < k) : Decimal.digitCount n ≤ k ↔ n < 10 ^ k :=
  Nat.length_toDigits_le_iff (by decide) positive

theorem nearest_eq {d : Decimal} (nonzero : d.coefficient ≠ 0)
    (low : -46 ≤ (Decimal.digitCount d.coefficient : Int) + d.exponent)
    (high : (Decimal.digitCount d.coefficient : Int) + d.exponent ≤ 40) : nearest d = nearestRatio d.ratio.1 d.ratio.2 := by
  simp [nearest, nonzero, not_lt.mpr low, not_lt.mpr high]

theorem digitCount_mul {n : Nat} (positive : 0 < n) (k : Nat) :
    Decimal.digitCount (n * 10 ^ k) = Decimal.digitCount n + k := by
  induction k with
  | zero => simp
  | succ k ih =>
    have digits := Nat.toDigits_append_toDigits (b := 10) (n := n * 10 ^ k) (d := 0) (by decide) (by positivity) (by decide)
    rw [pow_succ, ← mul_assoc, mul_comm _ 10, ← Nat.add_zero (10 * _), Decimal.digitCount, ← digits, List.length_append]
    exact congrArg (· + 1) ih

theorem ratio_bounds (finite : x.magnitude < 0x7f800000) (nonzero : x.magnitude ≠ 0) :
    ∃ num places : Nat, x.ratio = (num, 2 ^ places) ∧ 0 < num ∧ num < 2 ^ 128 ∧ places ≤ 149 := by
  obtain ⟨m, q, short, least, full, bits, ratio⟩ := ratio_spec x
  have positive : 0 < x.magnitude.toNat := Nat.pos_of_ne_zero fun zero => nonzero (UInt32.toNat_inj.mp zero)
  have below : x.magnitude.toNat < 0x7f800000 := finite
  have m_pos : 0 < m := by omega
  rw [ratio]
  split
  case isTrue above =>
    refine ⟨m * 2 ^ q.toNat, 0, rfl, by positivity, ?_, by omega⟩
    calc m * 2 ^ q.toNat < 2 ^ 24 * 2 ^ q.toNat := by gcongr
      _ ≤ 2 ^ 24 * 2 ^ 104 := by gcongr <;> omega
      _ = 2 ^ 128 := by rw [← pow_add]
  case isFalse under =>
    refine ⟨m, (-q).toNat, rfl, m_pos, ?_, by omega⟩
    exact Nat.lt_trans short (Nat.pow_lt_pow_right (by decide) (by decide))

/-- Five to the power of some places has about as many digits as there are places, or all of
them but forty-six where there are few. -/
theorem le_digitCount {num places : Nat} (num_pos : 0 < num) (few : places ≤ 149) :
    places ≤ Decimal.digitCount (num * 5 ^ places) + 46 := by
  by_contra less
  obtain ⟨k, rfl⟩ : ∃ k, places = k + 47 := ⟨places - 47, by omega⟩
  have count_pos : 0 < Decimal.digitCount (num * 5 ^ (k + 47)) := Nat.length_toDigits_pos
  have shorter := (digitCount_le_iff (n := num * 5 ^ (k + 47)) (k := k) (by omega)).mp (by omega)
  have longer : 10 ^ k ≤ num * 5 ^ (k + 47) := by
    have twos : 2 ^ k ≤ 5 ^ 47 := Nat.le_trans (Nat.pow_le_pow_right (by decide) (by omega : k ≤ 102)) (by norm_num)
    calc 10 ^ k = 5 ^ k * 2 ^ k := (mul_pow 5 2 k)
      _ ≤ 5 ^ k * 5 ^ 47 := Nat.mul_le_mul_left _ twos
      _ = 5 ^ (k + 47) := (pow_add 5 k 47).symm
      _ ≤ num * 5 ^ (k + 47) := Nat.le_mul_of_pos_left _ num_pos
  omega

theorem digitCount_le {num : Nat} (small : num < 2 ^ 128) (places : Nat) :
    Decimal.digitCount (num * 5 ^ places) ≤ 40 + places := by
  have fewer : num < 10 ^ 40 := Nat.lt_trans small (by norm_num)
  rw [digitCount_le_iff (by omega), pow_add]
  calc num * 5 ^ places ≤ num * 10 ^ places := by gcongr; decide
    _ < 10 ^ 40 * 10 ^ places := by gcongr

/-- All digits of a finite number lead back to it. -/
theorem nearest_allDigits (finite : x.magnitude < 0x7f800000) (nonzero : x.magnitude ≠ 0) :
    nearest x.allDigits = ⟨x.magnitude⟩ := by
  obtain ⟨num, places, ratio, num_pos, num_small, few⟩ := ratio_bounds finite nonzero
  have digits : x.allDigits = ⟨num * 5 ^ places, -(places : Int)⟩ := by
    simp [allDigits, ratio, Nat.log2_two_pow, Nat.pow_eq]
  have extended : (⟨num * 5 ^ places, -(places : Int)⟩ : Decimal).ratio = (5 ^ places * num, 5 ^ places * 2 ^ places) := by
    rcases Nat.eq_zero_or_pos places with rfl | some
    · simp [Decimal.ratio]
    · simp [Decimal.ratio, some.ne', ← mul_pow, mul_comm, Nat.pow_eq]
  have low := le_digitCount num_pos few
  have high := digitCount_le num_small places
  rw [digits, nearest_eq (by positivity) (by dsimp only; omega) (by dsimp only; omega), extended,
    nearestRatio_mul (by positivity) num (by positivity)]
  simpa [ratio] using nearestRatio_ratio finite nonzero

theorem reads_of_neighbour? {reads : Decimal → Bool} {d : Decimal} {n : Nat} {place : Int} {ratio : Nat × Nat}
    (found : neighbour? reads n place ratio = some d) : reads d = true := by
  have chosen {below above : Decimal} {nearer : Bool}
      (found : (if reads below && nearer then some below else if reads above then some above else none) = some d) :
      reads d = true := by
    grind
  exact chosen found

/-- What is tried of the digits of a number leads back to it. -/
theorem nearest_withDigits {d : Decimal} {n : Nat} (found : x.withDigits n = some d) :
    (nearest d).bits = x.magnitude := by
  unfold withDigits at found
  exact eq_of_beq (reads_of_neighbour? found)

/-- The shortest decimal leads back to the number. -/
theorem nearest_shortest (finite : x.magnitude < 0x7f800000) (nonzero : x.magnitude ≠ 0) :
    nearest x.shortest = ⟨x.magnitude⟩ := by
  unfold shortest
  cases found : (List.range' 1 9).findSome? x.withDigits with
  | none => exact nearest_allDigits finite nonzero
  | some d =>
    obtain ⟨n, -, tried⟩ := List.exists_of_findSome?_eq_some found
    rw [Option.getD_some, ← nearest_withDigits tried]

/-- A decimal may be spelled with zeros and a point behind it. -/
theorem nearest_shifted (c k : Nat) : nearest ⟨c * 10 ^ (k + 1), -1⟩ = nearest ⟨c, k⟩ := by
  rcases Nat.eq_zero_or_pos c with rfl | positive
  · simp [nearest]
  · have ratio : nearestRatio (c * 10 ^ (k + 1)) 10 = nearestRatio (c * 10 ^ k) 1 := by
      have extended := nearestRatio_mul (k := 10) (by decide) (c * 10 ^ k) Nat.one_pos
      rwa [mul_left_comm, ← pow_succ'] at extended
    have leading : ((Decimal.digitCount c + (k + 1) : Nat) : Int) + -1 = Decimal.digitCount c + k := by omega
    simp only [nearest, digitCount_mul positive, leading]
    simp [positive.ne', Decimal.ratio, Nat.pow_eq, ratio]

end PoseGraph.NearestScalars
