import PoseGraph.Proofs.WrittenDigits

/-! Any text is read back from between quotes, whatever characters are in it and whichever of
them are written by escapes. -/
namespace PoseGraph.QuotedTexts
open Document Quotation WrittenDigits

variable {c letter : Char} {rest : List Char}

/-- Each letter stands for the character that it was chosen for, and no number follows it. -/
theorem escapeLetter?_spec (chosen : escapeLetter? c = some letter) :
    escaped? letter = some c ∧ letter ≠ 'x' ∧ letter ≠ 'u' := by
  unfold escapeLetter? at chosen
  split_ifs at chosen with itself
  · cases chosen
    rcases itself with rfl | rfl | rfl <;> decide
  all_goals
    cases chosen
    subst_vars
    decide

/-- A character that no letter stands for needs none. -/
theorem ne_of_escapeLetter? (plain : escapeLetter? c = none) : c ≠ '"' ∧ c ≠ '\\' := by
  constructor <;>
  · rintro rfl
    exact absurd plain (by decide)

/-- A code point is read back from its hexadecimal digits in braces. -/
theorem readCodePoint_toDigits (c : Char) (rest : List Char) :
    readCodePoint ('\x7b' :: (Nat.toDigits 16 c.toNat ++ '\x7d' :: rest)) = some (c, rest) := by
  have valid : c.toNat.isValidChar := c.valid
  have digits (d : Char) (inside : d ∈ Nat.toDigits 16 c.toNat) : (hexDigit? d).isSome = true := hexDigit?_of_mem inside
  have few : ¬ 6 < (Nat.toDigits 16 c.toNat).length := by
    rw [not_lt, Nat.length_toDigits_le_iff (by decide) (by decide)]
    unfold Nat.isValidChar at valid
    omega
  have front : (Nat.toDigits 16 c.toNat ++ '\x7d' :: rest).takeWhile (fun d => (hexDigit? d).isSome) =
      Nat.toDigits 16 c.toNat := by
    rw [List.takeWhile_append_of_pos digits]
    simp [hexDigit?]
  have behind : (Nat.toDigits 16 c.toNat ++ '\x7d' :: rest).dropWhile (fun d => (hexDigit? d).isSome) =
      '\x7d' :: rest := by
    rw [List.dropWhile_append_of_pos digits]
    simp [hexDigit?]
  simp only [readCodePoint, front, behind, hexValue_toDigits]
  simp only [Nat.toDigits_ne_nil, few, or_self, if_false, valid, if_true, Char.ofNat_toNat]

/-- Behind a backslash an escape is read as one character. -/
theorem readBody_backslash {cs : List Char} (read : readEscape .text cs = some (c, rest)) :
    readBody .text ('\\' :: cs) = (readBody .text rest).map fun (body, rest) => (c :: body, rest) := by
  rw [readBody, if_neg (by decide), if_pos rfl]
  split <;> simp_all

/-- What is written for a character is read as that character. -/
theorem readBody_escape (c : Char) (rest : List Char) :
    readBody .text (escape c ++ rest) = (readBody .text rest).map fun (body, rest) => (c :: body, rest) := by
  cases chosen : escapeLetter? c with
  | some letter =>
    obtain ⟨stands, not_byte, not_code⟩ := escapeLetter?_spec chosen
    have read : readEscape .text (letter :: rest) = some (c, rest) := by
      unfold readEscape
      split <;> simp_all
    simpa [escape, chosen] using readBody_backslash read
  | none =>
    obtain ⟨not_quote, not_backslash⟩ := ne_of_escapeLetter? chosen
    rw [escape, chosen]
    dsimp only
    split
    case isTrue hidden =>
      have read := readCodePoint_toDigits c rest
      have escaped : readEscape .text ('u' :: '\x7b' :: (Nat.toDigits 16 c.toNat ++ '\x7d' :: rest)) = some (c, rest) := by
        simpa [readEscape] using read
      simpa using readBody_backslash escaped
    case isFalse shown => simp [readBody, not_quote, not_backslash]

/-- What is written between quotes is read back from there. -/
theorem readBody_flatMap (cs rest : List Char) :
    readBody .text (cs.flatMap escape ++ '"' :: rest) = some (cs, rest) := by
  induction cs with
  | nil => simp [readBody]
  | cons c cs ih => rw [List.flatMap_cons, List.append_assoc, readBody_escape, ih, Option.map_some]

end PoseGraph.QuotedTexts
