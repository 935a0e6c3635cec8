import PoseGraph.Proofs.NearestScalars
import PoseGraph.Proofs.WrittenDigits

/-! Every number in single precision that is not a NaN is read back from its text bit for
bit, the sign of zero included. -/
namespace PoseGraph.ScalarTexts
open Document NearestScalars Scalar WrittenDigits

variable {x : Scalar} {whole fraction : List Char}

/-! ## Signs -/

theorem toNat_magnitude (x : Scalar) : x.magnitude.toNat = x.bits.toNat % 2 ^ 31 := by
  rw [magnitude, UInt32.toNat_and]
  exact Nat.and_two_pow_sub_one_eq_mod _ 31

theorem magnitude_of_positive (positive : x.isNegative = false) : (⟨x.magnitude⟩ : Scalar) = x := by
  have same : x.bits = x.magnitude := by simpa [isNegative] using positive
  rw [← same]

theorem negate_magnitude (negative : x.isNegative = true) : (⟨x.magnitude⟩ : Scalar).negate = x := by
  have other : x.bits ≠ x.magnitude := by simpa [isNegative] using negative
  have high : 2 ^ 31 ≤ x.bits.toNat := by
    by_contra low
    exact other (UInt32.toNat_inj.mp (by rw [toNat_magnitude, Nat.mod_eq_of_lt (not_le.mp low)]))
  have below : x.bits.toNat < 2 ^ 32 := UInt32.toNat_lt x.bits
  have bits : x.magnitude.toNat ^^^ 2 ^ 31 = x.bits.toNat := by
    refine Nat.eq_of_testBit_eq fun i => ?_
    rw [Nat.testBit_xor, toNat_magnitude, Nat.testBit_mod_two_pow, Nat.testBit_two_pow]
    rcases Nat.lt_trichotomy i 31 with lower | rfl | higher
    · simp [lower, lower.ne']
    · simp [Nat.testBit_eq_decide_div_mod_eq]
      omega
    · have beyond : x.bits.toNat < 2 ^ i := Nat.lt_of_lt_of_le below (Nat.pow_le_pow_right (by decide) higher)
      simp [higher.ne, Nat.testBit_lt_two_pow beyond]
  have same : x.magnitude ^^^ 0x80000000 = x.bits := UInt32.toNat_inj.mp (by rw [UInt32.toNat_xor]; exact bits)
  rw [negate, same]

/-- A number by its sign and its magnitude. -/
theorem signed_magnitude (x : Scalar) :
    (if x.isNegative then (⟨x.magnitude⟩ : Scalar).negate else ⟨x.magnitude⟩) = x := by
  cases sign : x.isNegative with
  | true => exact negate_magnitude sign
  | false => exact magnitude_of_positive sign

/-! ## Digits around a point -/

/-- In positional notation a decimal is spelled with digits on both sides of a point, which
stand for it. -/
theorem positional_spec (d : Decimal) : ∃ whole fraction, (positional d).toList = whole ++ '.' :: fraction ∧
    whole ≠ [] ∧ (∀ c ∈ whole ++ fraction, c.isDigit = true) ∧
    nearest ⟨digitsValue (whole ++ fraction), -(fraction.length : Int)⟩ = nearest d := by
  obtain ⟨c, e⟩ := d
  have zeros (count : Nat) : ∀ d ∈ List.replicate count '0', d.isDigit = true := fun d inside => by
    rw [List.eq_of_mem_replicate inside]
    rfl
  have digits : ∀ d ∈ Nat.toDigits 10 c, d.isDigit = true := fun d => isDigit_of_mem
  unfold positional
  split
  case isTrue above =>
    obtain ⟨k, rfl⟩ := Int.eq_ofNat_of_zero_le above
    refine ⟨Nat.toDigits 10 c ++ List.replicate k '0', ['0'], by simp, by simp, ?_, ?_⟩
    · simp only [List.forall_mem_append, List.forall_mem_singleton]
      exact ⟨⟨digits, zeros k⟩, rfl⟩
    · have value : digitsValue (Nat.toDigits 10 c ++ List.replicate k '0' ++ ['0']) = c * 10 ^ (k + 1) := by
        simp [digitsValue_eq, Nat.ofDigitChars_append, Nat.ofDigitChars_cons]
        ring
      rw [value]
      exact nearest_shifted c k
  case isFalse below =>
    obtain ⟨p, rfl⟩ : ∃ p : Nat, e = -(p : Int) := ⟨(-e).toNat, by simp only at below; omega⟩
    -- As many zeros in front as leave one digit in front of the point.
    generalize spelled : List.replicate (p + 1 - (Nat.toDigits 10 c).length) '0' ++ Nat.toDigits 10 c = padded
    have long : p + 1 ≤ padded.length := by
      rw [← spelled, List.length_append, List.length_replicate]
      omega
    have value : digitsValue padded = c := by
      simp [← spelled, digitsValue_eq, Nat.ofDigitChars_append]
    refine ⟨padded.take (padded.length - p), padded.drop (padded.length - p), ?_, ?_, ?_, ?_⟩
    · simp [spelled]
    · refine List.ne_nil_of_length_pos ?_
      rw [List.length_take]
      omega
    · rw [List.take_append_drop, ← spelled, List.forall_mem_append]
      exact ⟨zeros _, digits⟩
    · rw [List.take_append_drop, value, List.length_drop, Nat.sub_sub_self (by omega)]

/-- Digits around a point are read. -/
theorem readUnsigned_point (spelled : ∀ c ∈ whole ++ fraction, c.isDigit = true) (some_whole : whole ≠ []) :
    readUnsigned (whole ++ '.' :: fraction) =
      some (nearest ⟨digitsValue (whole ++ fraction), -(fraction.length : Int)⟩) := by
  obtain ⟨whole_digits, fraction_digits⟩ := List.forall_mem_append.mp spelled
  have front : (whole ++ '.' :: fraction).takeWhile Char.isDigit = whole := by
    rw [List.takeWhile_append_of_pos whole_digits]
    simp
  have behind : (whole ++ '.' :: fraction).dropWhile Char.isDigit = '.' :: fraction := by
    rw [List.dropWhile_append_of_pos whole_digits]
    rfl
  simp only [readUnsigned, front, behind, List.takeWhile_eq_self_iff.mpr fraction_digits,
    List.dropWhile_eq_nil_iff.mpr fraction_digits]
  simp [some_whole]

/-! ## Reading back -/

theorem underscoresFit_of_not_mem {cs : List Char} (absent : '_' ∉ cs) (allowed : Bool) :
    Number.underscoresFit allowed cs = true := by
  induction cs generalizing allowed with
  | nil => rfl
  | cons c cs ih =>
    rw [List.mem_cons, not_or] at absent
    simp [Number.underscoresFit, Ne.symm absent.1, ih absent.2]

theorem dropSuffix_of_not_mem {suffix cs : List Char} {c : Char} (inside : c ∈ suffix) (absent : c ∉ cs) :
    Number.dropSuffix suffix cs = cs := by
  have other : ¬ suffix <:+ cs := fun behind => absent (behind.subset inside)
  simp [Number.dropSuffix, other]

/-- The sign in front of a number. -/
def sign (isNegative : Bool) : List Char := if isNegative then ['-'] else []

/-- Behind a sign a digit begins a number, which no name is. -/
theorem readUnsuffixed_digits {c : Char} (cs : List Char) (digit : c.isDigit = true) (absent : '_' ∉ c :: cs)
    (isNegative : Bool) : Number.readUnsuffixed (sign isNegative ++ c :: cs) =
      (readUnsigned (c :: cs)).map fun x => if isNegative then x.negate else x := by
  have split : Number.splitSign (sign isNegative ++ c :: cs) = (isNegative, c :: cs) := by
    cases isNegative with
    | true => rfl
    | false => exact splitSign_of_isDigit digit cs
  have unsigned : readDigits (sign isNegative ++ c :: cs) =
      (readUnsigned (c :: cs)).map fun x => if isNegative then x.negate else x := by
    cases isNegative with
    | true => rfl
    | false =>
      simp only [sign, Bool.false_eq_true, if_false, List.nil_append, Option.map_id']
      unfold readDigits
      split <;> simp_all
  have plain : '_' ∉ sign isNegative ++ c :: cs := by
    cases isNegative <;> simpa [sign] using absent
  unfold Number.readUnsuffixed
  rw [split]
  split
  case h_1 same => simp_all
  case h_2 same => simp_all
  case h_3 =>
    have kept : (sign isNegative ++ c :: cs).filter (· != '_') = sign isNegative ++ c :: cs :=
      List.filter_eq_self.mpr fun d inside => by simpa using ne_of_mem_of_not_mem inside plain
    rw [if_pos (underscoresFit_of_not_mem plain false), kept, unsigned]

/-- Digits around a point are read behind a sign. -/
theorem readScalar_point (spelled : ∀ c ∈ whole ++ fraction, c.isDigit = true) (some_whole : whole ≠ [])
    (isNegative : Bool) : Number.readScalar (sign isNegative ++ (whole ++ '.' :: fraction)) =
      let x := nearest ⟨digitsValue (whole ++ fraction), -(fraction.length : Int)⟩
      some (if isNegative then x.negate else x) := by
  have value := readUnsigned_point spelled some_whole
  have absent (d : Char) (point : d ≠ '.') (other : d.isDigit = false) : d ∉ whole ++ '.' :: fraction := by
    intro inside
    have digit := spelled d (by simpa [point] using inside)
    simp [digit] at other
  have unsuffixed : 'f' ∉ sign isNegative ++ (whole ++ '.' :: fraction) := by
    have plain := absent 'f' (by decide) rfl
    cases isNegative <;> simpa [sign] using plain
  obtain ⟨c, cs, rfl⟩ := List.exists_cons_of_ne_nil some_whole
  rw [Number.readScalar, dropSuffix_of_not_mem (by decide) unsuffixed]
  have digits := readUnsuffixed_digits (cs ++ '.' :: fraction) (spelled c (by simp)) (absent '_' (by decide) rfl)
  exact (digits isNegative).trans (congrArg (Option.map _) value)

theorem toText_infinite (infinite : x.isInfinite = true) :
    x.toText.toList = sign x.isNegative ++ ['i', 'n', 'f'] := by
  have number : x.isNaN = false := by
    rw [isNaN, eq_of_beq infinite]
    rfl
  cases negative : x.isNegative <;> simp [toText, sign, number, infinite, negative]

/-- Whatever is neither infinite nor a NaN is spelled with digits around a point. -/
theorem toText_finite (finite : x.magnitude < 0x7f800000) : ∃ whole fraction,
    x.toText.toList = sign x.isNegative ++ (whole ++ '.' :: fraction) ∧ whole ≠ [] ∧
    (∀ c ∈ whole ++ fraction, c.isDigit = true) ∧
    nearest ⟨digitsValue (whole ++ fraction), -(fraction.length : Int)⟩ = ⟨x.magnitude⟩ := by
  have number : x.isNaN = false := by simpa [isNaN] using UInt32.le_of_lt finite
  have bounded : x.isInfinite = false := by simpa [isInfinite] using UInt32.ne_of_lt finite
  have text (s : String) : ((if x.isNegative then "-" else "") ++ s).toList = sign x.isNegative ++ s.toList := by
    cases x.isNegative <;> simp [sign]
  by_cases zero : x.magnitude = 0
  · refine ⟨['0'], ['0'], ?_, by decide, List.all_eq_true.mp (by decide), ?_⟩
    · simp only [toText, number, bounded, zero, text, Bool.false_eq_true, if_false, if_true]
      simp
    · rw [zero]
      rfl
  · obtain ⟨whole, fraction, spelling, some_whole, digits, value⟩ := positional_spec x.shortest
    refine ⟨whole, fraction, ?_, some_whole, digits, value.trans (nearest_shortest finite zero)⟩
    simp only [toText, number, bounded, zero, text, spelling, Bool.false_eq_true, if_false]

theorem magnitude_lt (number : x.isNaN = false) (finite : x.isInfinite = false) : x.magnitude < 0x7f800000 := by
  have largest : x.magnitude ≤ 0x7f800000 := UInt32.not_lt.mp (by simpa [isNaN] using number)
  exact UInt32.lt_of_le_of_ne largest (by simpa [isInfinite] using finite)

/-- A number that is not a NaN is read back from its text. -/
theorem readScalar_toText (number : x.isNaN = false) : Number.readScalar x.toText.toList = some x := by
  cases infinite : x.isInfinite with
  | true =>
    have magnitude : x.magnitude = 0x7f800000 := eq_of_beq infinite
    rw [toText_infinite infinite]
    conv => rhs; rw [← signed_magnitude x, magnitude]
    cases x.isNegative <;> decide +kernel
  | false =>
    obtain ⟨whole, fraction, spelling, some_whole, digits, value⟩ := toText_finite (magnitude_lt number infinite)
    conv => rhs; rw [← signed_magnitude x]
    rw [spelling, readScalar_point digits some_whole, value]

end PoseGraph.ScalarTexts
