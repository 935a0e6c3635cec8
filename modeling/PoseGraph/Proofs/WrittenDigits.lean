import Mathlib.Algebra.Group.Nat.Defs
import Mathlib.Data.List.TakeWhile
import PoseGraph.Document.Number

/-! Runs of digits stand for the number that was written, and a whole number that belongs
to its type is read back from its text. -/
namespace PoseGraph.WrittenDigits
open Document Quotation

variable {base n : Nat} {c : Char} {cs : List Char}

/-- To take digits one by one, in any effect, is to come to the number that they were
written for. -/
theorem foldlM_toDigits {m : Type → Type} [Monad m] [LawfulMonad m] {step : Nat → Char → m Nat} (valid : 1 < base)
    (digit : ∀ n d, d < base → step n d.digitChar = pure (base * n + d)) (n : Nat) :
    (Nat.toDigits base n).foldlM step 0 = pure n := by
  induction n using Nat.base_induction base valid with
  | single d small => simp [Nat.toDigits_of_lt_base small, digit 0 d small]
  | digit n d small positive ih =>
    rw [← Nat.toDigits_append_toDigits valid positive small, List.foldlM_append, ih, Nat.toDigits_of_lt_base small]
    simp [digit n d small]

theorem digit_of_mem (valid : 1 < base) (inside : c ∈ Nat.toDigits base n) : ∃ d < base, c = d.digitChar := by
  induction n using Nat.base_induction base valid with
  | single d small =>
    rw [Nat.toDigits_of_lt_base small, List.mem_singleton] at inside
    exact ⟨d, small, inside⟩
  | digit n d small positive ih =>
    rw [← Nat.toDigits_append_toDigits valid positive small, List.mem_append, Nat.toDigits_of_lt_base small,
      List.mem_singleton] at inside
    exact inside.elim ih fun last => ⟨d, small, last⟩

theorem isDigit_of_mem (inside : c ∈ Nat.toDigits 10 n) : c.isDigit = true :=
  Nat.isDigit_of_mem_toDigits (by decide) (by decide) inside

/-! ## Hexadecimal digits -/

theorem hexDigit?_digitChar {d : Nat} (small : d < 16) : hexDigit? d.digitChar = some d := by
  revert d
  decide

theorem hexDigit?_of_mem (inside : c ∈ Nat.toDigits 16 n) : (hexDigit? c).isSome = true := by
  obtain ⟨d, small, rfl⟩ := digit_of_mem (by decide) inside
  rw [hexDigit?_digitChar small]
  rfl

theorem hexValue_toDigits (n : Nat) : hexValue (Nat.toDigits 16 n) = n := by
  rw [hexValue, List.foldl_eq_foldlM]
  exact foldlM_toDigits (m := Id) (by decide) (fun n d small => by simp [hexDigit?_digitChar small]) n

/-! ## Decimal digits -/

theorem digitsValue_eq (cs : List Char) : Scalar.digitsValue cs = Nat.ofDigitChars 10 cs 0 := rfl

theorem isDigitLike_of_isDigit (digit : c.isDigit = true) : Number.isDigitLike c = true := by
  simp [Number.isDigitLike, hexDigit?, digit]

theorem ne_of_isDigit {d : Char} (digit : c.isDigit = true) (other : d.isDigit = false) : c ≠ d := by
  rintro rfl
  simp [digit] at other

theorem splitSign_of_isDigit (digit : c.isDigit = true) (cs : List Char) :
    Number.splitSign (c :: cs) = (false, c :: cs) := by
  unfold Number.splitSign
  split <;> simp_all

theorem splitBase_of_isDigit (digits : ∀ c ∈ cs, c.isDigit = true) : Number.splitBase cs = (10, cs) := by
  unfold Number.splitBase
  split <;> simp_all

theorem digitsIn?_toDigits (n : Nat) : Number.digitsIn? 10 (Nat.toDigits 10 n) = some n := by
  obtain ⟨c, cs, same⟩ := List.exists_cons_of_ne_nil (Nat.toDigits_ne_nil (n := n) (b := 10))
  have digit (d : Char) (inside : d ∈ Nat.toDigits 10 n) : d ≠ '_' := ne_of_isDigit (isDigit_of_mem inside) rfl
  have first : c ≠ '_' := digit c (by simp [same])
  rw [Number.digitsIn?, List.filter_eq_self.mpr (by simpa using digit)]
  rw [if_neg (by simp [same, first])]
  refine foldlM_toDigits (m := Option) (by decide) (fun n d small => ?_) n
  rw [hexDigit?_digitChar (Nat.lt_trans small (by decide))]
  simp [small]

/-! ## Whole numbers -/

/-- Digits behind an optional sign are a number of each type that it belongs to. -/
theorem readWhole_toDigits {t : WholeType} {lexeme : List Char} {isNegative : Bool}
    (split : Number.splitSign lexeme = (isNegative, Nat.toDigits 10 n))
    (fits : t.contains (if isNegative then -(n : Int) else n) = true) :
    Number.readWhole t lexeme = some (if isNegative then -(n : Int) else n) := by
  have digitLike (c : Char) (inside : c ∈ Nat.toDigits 10 n) : Number.isDigitLike c = true :=
    isDigitLike_of_isDigit (isDigit_of_mem inside)
  have whole : (Nat.toDigits 10 n).takeWhile Number.isDigitLike = Nat.toDigits 10 n :=
    List.takeWhile_eq_self_iff.mpr digitLike
  have suffix : (Nat.toDigits 10 n).dropWhile Number.isDigitLike = [] := List.dropWhile_eq_nil_iff.mpr digitLike
  simp only [Number.readWhole, split, splitBase_of_isDigit fun c => isDigit_of_mem, suffix, whole, true_or, if_true,
    digitsIn?_toDigits]
  simpa using fits

/-- A whole number is read back as each type that it belongs to. -/
theorem readWhole_repr {t : WholeType} {n : Int} (fits : t.contains n = true) :
    Number.readWhole t (Int.repr n).toList = some n := by
  cases n with
  | ofNat n =>
    obtain ⟨c, cs, same⟩ := List.exists_cons_of_ne_nil (Nat.toDigits_ne_nil (n := n) (b := 10))
    have digit : c.isDigit = true := isDigit_of_mem (n := n) (by simp [same])
    have split : Number.splitSign (Int.repr (.ofNat n)).toList = (false, Nat.toDigits 10 n) := by
      rw [Int.repr, Nat.toList_repr, same, splitSign_of_isDigit digit]
    exact readWhole_toDigits split fits
  | negSucc n =>
    have split : Number.splitSign (Int.repr (.negSucc n)).toList = (true, Nat.toDigits 10 (n + 1)) := by
      simp [Int.repr, Number.splitSign]
    exact readWhole_toDigits split fits

end PoseGraph.WrittenDigits
