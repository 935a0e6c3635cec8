import PoseGraph.Document.Layout
import PoseGraph.Document.Reader
import PoseGraph.Proofs.QuotedTexts

/-! The text of a term is scanned into the tokens that its structure says: blanks disappear,
and no word or number runs into what stands behind it. This is for terms whose words and
numbers are plain, as those of everything that is written are. -/
namespace PoseGraph.TermTokens
open Document QuotedTexts WrittenDigits
open Token (next? scan)

variable {outlook : List Char → Outlook} {c : Char} {cs rest : List Char} {tail : List Token} {w lexeme : String}

/-! ## Characters -/

/-- Whether a character may stand in a plain word. -/
def isWordLike (c : Char) : Bool := c.isAlphanum || c == '_'

/-- All such characters are in ASCII. -/
theorem of_isWordLike {p : Char → Bool} (each : ∀ n < 128, isWordLike (Char.ofNat n) = true → p (Char.ofNat n) = true)
    (like : isWordLike c = true) : p c = true := by
  have small : c.toNat < 128 := by
    delta isWordLike Char.isAlphanum Char.isAlpha Char.isUpper Char.isLower Char.isDigit at like
    simp only [Bool.or_eq_true, Bool.and_eq_true, decide_eq_true_eq, beq_iff_eq, ge_iff_le,
      UInt32.le_iff_toNat_le] at like
    rcases like with (((⟨-, upper⟩ | ⟨-, lower⟩) | ⟨-, digit⟩) | rfl)
    · exact Nat.lt_of_le_of_lt upper (by decide)
    · exact Nat.lt_of_le_of_lt lower (by decide)
    · exact Nat.lt_of_le_of_lt digit (by decide)
    · decide
  have known := each c.toNat small
  rw [Char.ofNat_toNat] at known
  exact known like

/-- Whether something begins with a character, and not a blank. -/
def isDark (c : Char) : Bool := c != '/' && !CharSet.patternWhiteSpace.contains c

theorem isDark_of_isWordLike (like : isWordLike c = true) : isDark c = true := of_isWordLike (by decide +kernel) like

theorem continuesWord_of_isWordLike (like : isWordLike c = true) : continuesWord c = true :=
  of_isWordLike (by decide +kernel) like

theorem isWordLike_of_isAlpha (letter : c.isAlpha = true) : isWordLike c = true := by
  simp [isWordLike, Char.isAlphanum, letter]

theorem isWordLike_of_isDigit (digit : c.isDigit = true) : isWordLike c = true := by
  simp [isWordLike, Char.isAlphanum, digit]

theorem beginsWord_of_isAlpha (letter : c.isAlpha = true) : beginsWord c = true := by
  have each := of_isWordLike (p := fun c => !c.isAlpha || beginsWord c) (by decide +kernel) (isWordLike_of_isAlpha letter)
  simpa [letter] using each

/-! ## Words and numbers -/

/-- Whether a word is spelled with letters, digits and underscores, and taken for nothing else. -/
def isPlainWord (w : String) : Bool :=
  match w.toList with
  | [] => false
  | c :: cs => c.isAlpha && c != 'r' && c != 'b' && cs.all isWordLike && w != someWord

/-- Whether a number is spelled with an optional minus, a digit, and what can go on with it. -/
def isPlainNumber (lexeme : String) : Bool :=
  match lexeme.toList with
  | [] => false
  | c :: cs => (c.isDigit || c == '-') && cs.all continuesRaw

/-- Nothing of a word or a number goes on at the front. -/
def Apart (cs : List Char) : Prop := ∀ c, cs.head? = some c → continuesRaw c = false

theorem apart_nil : Apart [] := by simp [Apart]

theorem apart_cons (sign : continuesRaw c = false) (cs : List Char) : Apart (c :: cs) := by simp [Apart, sign]

/-- A run goes as far as it can. -/
theorem run_append {p : Char → Bool} (inside : ∀ c ∈ cs, p c = true) (behind : ∀ c, rest.head? = some c → p c = false) :
    run p (cs ++ rest) = (cs, rest) := by
  rw [run, List.takeWhile_append_of_pos inside, List.dropWhile_append_of_pos inside]
  cases rest with
  | nil => simp
  | cons c rest => simp [behind c rfl]

/-! ## Scanning -/

theorem skipBlank_of_isDark (dark : isDark c = true) (cs : List Char) :
    skipBlank .space (c :: cs) = some (c :: cs) := by
  simp only [isDark, Bool.and_eq_true, bne_iff_ne, ne_eq, Bool.not_eq_true'] at dark
  unfold skipBlank
  split <;> simp_all

/-- Scanning by what stands behind blanks. -/
theorem scan_eq (outlook : List Char → Outlook) (cs : List Char) : scan outlook cs = (skipBlank .space cs).bind fun
    | [] => some []
    | c :: cs => (next? outlook (c :: cs)).bind fun (t, rest) => (scan outlook rest).map (t :: ·) := by
  rw [scan]
  split
  case h_1 broken => rw [broken, Option.bind_none]
  case h_2 nothing => rw [nothing, Option.bind_some]
  case h_3 something =>
    rw [something, Option.bind_some]
    dsimp only
    split
    case h_1 broken => rw [broken, Option.bind_none]
    case h_2 first => rw [first, Option.bind_some]

theorem scan_nil (outlook : List Char → Outlook) : scan outlook [] = some [] := by
  rw [scan_eq]
  rfl

/-- What follows a token is scanned on its own. -/
theorem scan_token {t : Token} (dark : isDark c = true) (first : next? outlook (c :: cs) = some (t, rest))
    (behind : scan outlook rest = some tail) : scan outlook (c :: cs) = some (t :: tail) := by
  rw [scan_eq, skipBlank_of_isDark dark, Option.bind_some]
  dsimp only
  rw [first, Option.bind_some, behind, Option.map_some]

theorem scan_blank (outlook : List Char → Outlook) (blank : CharSet.patternWhiteSpace.contains c = true) (bright : c ≠ '/') (cs : List Char) :
    scan outlook (c :: cs) = scan outlook cs := by
  have skipped : skipBlank .space (c :: cs) = skipBlank .space cs := by
    conv => lhs; unfold skipBlank
    split <;> simp_all
  rw [scan_eq, skipped, ← scan_eq]

theorem scan_newLine (outlook : List Char → Outlook) (level : Nat) (cs : List Char) : scan outlook (Term.newLine level ++ cs) = scan outlook cs := by
  have spaces (count : Nat) : scan outlook (List.replicate count ' ' ++ cs) = scan outlook cs := by
    induction count with
    | zero => rfl
    | succ count ih =>
      rw [List.replicate_succ, List.cons_append, scan_blank outlook (by decide) (by decide), ih]
  rw [Term.newLine, List.cons_append, scan_blank outlook (by decide) (by decide), Term.indent, spaces]

theorem scan_comma (behind : scan outlook rest = some tail) : scan outlook (',' :: rest) = some (.comma :: tail) :=
  scan_token (by decide) rfl behind

theorem scan_colon (behind : scan outlook rest = some tail) : scan outlook (':' :: rest) = some (.colon :: tail) :=
  scan_token (by decide) rfl behind

theorem scan_square (behind : scan outlook rest = some tail) : scan outlook ('[' :: rest) = some (.opening .square :: tail) :=
  scan_token (by decide) rfl behind

theorem scan_endSquare (behind : scan outlook rest = some tail) : scan outlook (']' :: rest) = some (.closing .square :: tail) :=
  scan_token (by decide) rfl behind

theorem scan_curly (behind : scan outlook rest = some tail) : scan outlook ('\x7b' :: rest) = some (.opening .curly :: tail) :=
  scan_token (by decide) rfl behind

theorem scan_endCurly (behind : scan outlook rest = some tail) : scan outlook ('\x7d' :: rest) = some (.closing .curly :: tail) :=
  scan_token (by decide) rfl behind

theorem scan_endRound (behind : scan outlook rest = some tail) : scan outlook (')' :: rest) = some (.closing .round :: tail) :=
  scan_token (by decide) rfl behind

/-- A round bracket stands for itself where the closing one does not touch it. -/
theorem scan_round (filled : rest.head? ≠ some ')') (behind : scan outlook rest = some tail) :
    scan outlook ('(' :: rest) = some (.opening .round :: tail) := by
  have first : Token.readRound rest = (.opening .round, rest) := by
    unfold Token.readRound
    split
    · simp at filled
    · rfl
  exact scan_token (by decide) (congrArg some first) behind

theorem scan_quote (s : String) (behind : scan outlook rest = some tail) : scan outlook (quote s ++ rest) = some (.text s :: tail) := by
  have first : next? outlook (quote s ++ rest) = some (.text s, rest) := by
    have body := readBody_flatMap s.toList rest
    simp [quote, next?, body]
  exact scan_token (by decide) first behind

/-- What begins with a letter or a digit, and with no letter that stands in front of quotes. -/
theorem next?_of_isWordLike (like : isWordLike c = true) (not_r : c ≠ 'r') (not_b : c ≠ 'b') (cs : List Char) :
    next? outlook (c :: cs) =
      if Token.beginsNumber c then some (Token.readNumber c cs)
      else if String.ofList (c :: (run continuesWord cs).1) = someWord then
        some (Token.readOptional outlook (run continuesWord cs).2)
      else if beginsWord c then Token.readWord c cs
      else none := by
  unfold next?
  split
  any_goals simp [isWordLike] at like
  all_goals simp_all

theorem beginsNumber_of_isAlpha (letter : c.isAlpha = true) : Token.beginsNumber c = false := by
  have each := of_isWordLike (p := fun c => !c.isAlpha || !Token.beginsNumber c) (by decide +kernel)
    (isWordLike_of_isAlpha letter)
  simpa [letter] using each

theorem scan_optional (behind : scan outlook rest = some tail) :
    scan outlook (someWord.toList ++ '(' :: rest) = some (.optional (outlook rest) :: tail) := by
  have goes_on : run continuesWord (['o', 'm', 'e'] ++ '(' :: rest) = (['o', 'm', 'e'], '(' :: rest) :=
    run_append (List.all_eq_true.mp (by decide +kernel)) (by simp; decide +kernel)
  have bracket : skipBlank .space ('(' :: rest) = some ('(' :: rest) := skipBlank_of_isDark (by decide) rest
  have whole : String.ofList ['S', 'o', 'm', 'e'] = someWord := rfl
  have first : next? outlook ('S' :: (['o', 'm', 'e'] ++ '(' :: rest)) = some (.optional (outlook rest), rest) := by
    rw [next?_of_isWordLike (by decide) (by decide) (by decide), if_neg (by decide), goes_on, if_pos whole,
      Token.readOptional, bracket]
    rfl
  exact scan_token (by decide) first behind

theorem scan_number (plain : isPlainNumber lexeme = true) (apart : Apart rest) (behind : scan outlook rest = some tail) :
    scan outlook (lexeme.toList ++ rest) = some (.number lexeme :: tail) := by
  unfold isPlainNumber at plain
  split at plain
  case h_1 => simp at plain
  case h_2 c cs spelled =>
    simp only [Bool.and_eq_true, Bool.or_eq_true, List.all_eq_true, beq_iff_eq] at plain
    obtain ⟨start, goes_on⟩ := plain
    have read : Token.readNumber c (cs ++ rest) = (.number lexeme, rest) := by
      simp only [Token.readNumber, run_append goes_on apart, ← spelled, String.ofList_toList]
    have first : next? outlook (c :: (cs ++ rest)) = some (.number lexeme, rest) := by
      rcases start with digit | rfl
      · have begins : Token.beginsNumber c = true := by simp [Token.beginsNumber, digit]
        rw [next?_of_isWordLike (isWordLike_of_isDigit digit) (ne_of_isDigit digit rfl) (ne_of_isDigit digit rfl),
          if_pos begins, read]
      · exact congrArg some read
    have dark : isDark c = true := by
      rcases start with digit | rfl
      · exact isDark_of_isWordLike (isWordLike_of_isDigit digit)
      · decide
    rw [spelled, List.cons_append]
    exact scan_token dark first behind

theorem scan_word (plain : isPlainWord w = true) (apart : Apart rest) (behind : scan outlook rest = some tail) :
    scan outlook (w.toList ++ rest) = some (.word w :: tail) := by
  unfold isPlainWord at plain
  split at plain
  case h_1 => simp at plain
  case h_2 c cs spelled =>
    simp only [Bool.and_eq_true, List.all_eq_true, bne_iff_ne, ne_eq] at plain
    obtain ⟨⟨⟨⟨letter, not_r⟩, not_b⟩, like⟩, other⟩ := plain
    have goes_on : run continuesWord (cs ++ rest) = (cs, rest) := by
      refine run_append (fun d inside => continuesWord_of_isWordLike (like d inside)) fun d next => ?_
      have sign := apart d next
      simp only [continuesRaw, Bool.or_eq_false_iff] at sign
      exact sign.1.1.1
    have whole : String.ofList (c :: cs) = w := by rw [← spelled, String.ofList_toList]
    have ends : rest.head?.any continuesRaw = false := by
      rw [Option.any_eq_false]
      exact fun c next => by simp [apart c next]
    have first : next? outlook (c :: (cs ++ rest)) = some (.word w, rest) := by
      rw [next?_of_isWordLike (isWordLike_of_isAlpha letter) not_r not_b, beginsNumber_of_isAlpha letter, goes_on, whole]
      simp [other, beginsWord_of_isAlpha letter, Token.readWord, goes_on, whole, ends]
    rw [spelled, List.cons_append]
    exact scan_token (isDark_of_isWordLike (isWordLike_of_isAlpha letter)) first behind

/-! ## Terms -/

/-- The tokens of a name in front of a bracket. -/
def labelTokens (name : Option String) : List Token := (name.map .word).toList

mutual

/-- The tokens of a term. -/
def tokens : Term → List Token
  | .word spelling => [.word spelling]
  | .number lexeme => [.number lexeme]
  | .text s => [.text s]
  | .char c => [.char c]
  | .bytes => [.bytes]
  | .unit => [.unit]
  | .tuple name items => labelTokens name ++ .opening .round :: (tupleTokens items ++ [.closing .round])
  | .padded name items => labelTokens name ++ .opening .round :: (tupleTokens items ++ [.comma, .comma, .closing .round])
  | .present t => .word someWord :: tokens t
  | .optional outlook brackets => .optional outlook :: (tokens brackets).tail
  | .record name fields => labelTokens name ++ .opening .round :: (fieldTokens fields ++ [.closing .round])
  | .list items => .opening .square :: (lineTokens items ++ [.closing .square])
  | .map entries => .opening .curly :: (entryTokens entries ++ [.closing .curly])

/-- The tokens of terms in a line, parted by commas. -/
def tupleTokens : List Term → List Token
  | [] => []
  | [t] => tokens t
  | t :: ts => tokens t ++ .comma :: tupleTokens ts

/-- The tokens of terms, a line each. -/
def lineTokens : List Term → List Token
  | [] => []
  | t :: ts => tokens t ++ .comma :: lineTokens ts

/-- The tokens of named terms, a line each. -/
def fieldTokens : List (String × Term) → List Token
  | [] => []
  | (name, t) :: fs => .word name :: .colon :: (tokens t ++ .comma :: fieldTokens fs)

/-- The tokens of pairs of terms, a line each. -/
def entryTokens : List (Term × Term) → List Token
  | [] => []
  | (k, v) :: es => tokens k ++ .colon :: (tokens v ++ .comma :: entryTokens es)

end

/-- The tokens of a named term. -/
def namedTokens (f : String × Term) : List Token := .word f.1 :: .colon :: tokens f.2

/-- The tokens of a pair of terms. -/
def pairTokens (e : Term × Term) : List Token := tokens e.1 ++ .colon :: tokens e.2

/-- Terms that are read back from their text, with the number of terms that may be one inside the
other: words and numbers are plain, and round brackets hold something. -/
inductive Legible : Nat → Term → Prop where
  | word {nesting : Nat} {w : String} (plain : isPlainWord w = true) : Legible (nesting + 1) (.word w)
  | number {nesting : Nat} {lexeme : String} (plain : isPlainNumber lexeme = true) :
      Legible (nesting + 1) (.number lexeme)
  | text {nesting : Nat} (s : String) : Legible (nesting + 1) (.text s)
  | tuple {nesting : Nat} {name : Option String} {items : List Term} (label : ∀ w ∈ name, isPlainWord w = true)
      (filled : items ≠ []) (each : ∀ t ∈ items, Legible nesting t) : Legible (nesting + 1) (.tuple name items)
  | record {nesting : Nat} {fields : List (String × Term)} (filled : fields ≠ [])
      (names : ∀ f ∈ fields, isPlainWord f.1 = true) (each : ∀ f ∈ fields, Legible nesting f.2) :
      Legible (nesting + 1) (.record none fields)
  | list {nesting : Nat} {items : List Term} (each : ∀ t ∈ items, Legible nesting t) :
      Legible (nesting + 1) (.list items)
  | map {nesting : Nat} {entries : List (Term × Term)} (keys : ∀ e ∈ entries, Legible nesting e.1)
      (values : ∀ e ∈ entries, Legible nesting e.2) : Legible (nesting + 1) (.map entries)
  | optional {nesting : Nat} {t : Term} (value : Legible nesting t) :
      Legible (nesting + 1) (.optional .single (.tuple none [t]))

/-- What may nest deeper is no less legible. -/
theorem Legible.mono {nesting deeper : Nat} {t : Term} (legible : Legible nesting t) (deep : nesting ≤ deeper) :
    Legible deeper t := by
  obtain ⟨k, rfl⟩ := Nat.exists_eq_add_of_le' deep
  clear deep
  induction legible with
  | word plain => exact .word plain
  | number plain => exact .number plain
  | text s => exact .text s
  | tuple label filled _ each => exact .tuple label filled each
  | record filled names _ each => exact .record filled names each
  | list _ each => exact .list each
  | map _ _ keys values => exact .map keys values
  | optional _ value => exact .optional value

/-! ## Scanning terms -/

theorem layoutLines_eq (level : Nat) (ts : List Term) : Term.layoutLines level ts =
    ts.flatMap fun t => Term.newLine level ++ (Term.layout level t ++ [',']) := by
  induction ts with
  | nil => rfl
  | cons t ts ih => simp [Term.layoutLines, ih]

theorem lineTokens_eq (ts : List Term) : lineTokens ts = ts.flatMap fun t => tokens t ++ [.comma] := by
  induction ts with
  | nil => rfl
  | cons t ts ih => simp [lineTokens, ih]

theorem layoutFields_eq (level : Nat) (fs : List (String × Term)) : Term.layoutFields level fs =
    fs.flatMap fun f => Term.newLine level ++ (f.1.toList ++ ':' :: ' ' :: (Term.layout level f.2 ++ [','])) := by
  induction fs with
  | nil => rfl
  | cons f fs ih => simp [Term.layoutFields, ih]

theorem fieldTokens_eq (fs : List (String × Term)) :
    fieldTokens fs = fs.flatMap fun f => namedTokens f ++ [.comma] := by
  induction fs with
  | nil => rfl
  | cons f fs ih => simp [fieldTokens, ih, namedTokens]

theorem layoutEntries_eq (level : Nat) (es : List (Term × Term)) : Term.layoutEntries level es =
    es.flatMap fun e => Term.newLine level ++ (Term.layout level e.1 ++ ':' :: ' ' :: (Term.layout level e.2 ++ [','])) := by
  induction es with
  | nil => rfl
  | cons e es ih => simp [Term.layoutEntries, ih]

theorem entryTokens_eq (es : List (Term × Term)) :
    entryTokens es = es.flatMap fun e => pairTokens e ++ [.comma] := by
  induction es with
  | nil => rfl
  | cons e es ih => simp [entryTokens, ih, pairTokens]

/-- Elements are scanned one by one. -/
theorem scan_flatMap {α : Type} {write : α → List Char} {spell : α → List Token} {xs : List α}
    (each : ∀ x ∈ xs, ∀ rest tail, scan outlook rest = some tail → scan outlook (write x ++ rest) = some (spell x ++ tail))
    (behind : scan outlook rest = some tail) :
    scan outlook (xs.flatMap write ++ rest) = some (xs.flatMap spell ++ tail) := by
  induction xs with
  | nil => exact behind
  | cons x xs ih =>
    rw [List.flatMap_cons, List.append_assoc, List.flatMap_cons, List.append_assoc]
    exact each x List.mem_cons_self _ _ (ih fun y inside => each y (List.mem_cons_of_mem x inside))

theorem scan_label {name : Option String} (label : ∀ w ∈ name, isPlainWord w = true)
    (behind : scan outlook ('(' :: rest) = some tail) :
    scan outlook (Term.label name ++ '(' :: rest) = some (labelTokens name ++ tail) := by
  cases name with
  | none => exact behind
  | some w => exact scan_word (label w rfl) (apart_cons (by decide +kernel) _) behind

/-- No term begins with a closing bracket. -/
theorem head_layout {nesting level : Nat} {t : Term} (legible : Legible nesting t) (rest : List Char) :
    (Term.layout level t ++ rest).head? ≠ some ')' := by
  have word {w : String} (plain : isPlainWord w = true) (rest : List Char) : (w.toList ++ rest).head? ≠ some ')' := by
    unfold isPlainWord at plain
    split at plain
    case h_1 => simp at plain
    case h_2 c cs spelled =>
      rw [spelled]
      rintro ⟨⟩
      simp at plain
  have number {lexeme : String} (plain : isPlainNumber lexeme = true) : (lexeme.toList ++ rest).head? ≠ some ')' := by
    unfold isPlainNumber at plain
    split at plain
    case h_1 => simp at plain
    case h_2 c cs spelled =>
      rw [spelled]
      rintro ⟨⟩
      simp at plain
  cases legible with
  | word plain => exact word plain rest
  | number plain => exact number plain
  | @tuple _ name items label filled each =>
    cases name with
    | none => simp [Term.layout, Term.label]
    | some w =>
      rw [Term.layout, List.append_assoc]
      exact word (label w rfl) _
  | @list _ items each => cases items <;> simp [Term.layout]
  | @map _ entries keys values => cases entries <;> simp [Term.layout]
  | _ => simp [Term.layout, quote, someWord, Term.label]

/-- Terms in a line are scanned one by one. -/
theorem scan_tuple {level : Nat} {items : List Term} (filled : items ≠ [])
    (each : ∀ t ∈ items, ∀ rest tail, Apart rest → scan outlook rest = some tail →
      scan outlook (Term.layout level t ++ rest) = some (tokens t ++ tail))
    (apart : Apart rest) (behind : scan outlook rest = some tail) :
    scan outlook (Term.layoutTuple level items ++ rest) = some (tupleTokens items ++ tail) := by
  induction items with
  | nil => contradiction
  | cons t ts ih =>
    cases ts with
    | nil => exact each t List.mem_cons_self rest tail apart behind
    | cons t' ts =>
      have others := ih (List.cons_ne_nil t' ts) fun t inside => each t (List.mem_cons_of_mem _ inside)
      rw [Term.layoutTuple, tupleTokens, List.append_assoc, List.append_assoc]
      · refine each t List.mem_cons_self _ _ (apart_cons (by decide +kernel) _) (scan_comma ?_)
        exact (scan_blank outlook (by decide) (by decide) _).trans others
      · exact List.cons_ne_nil t' ts
      · exact List.cons_ne_nil t' ts

theorem head_layoutTuple {nesting level : Nat} {items : List Term} (filled : items ≠ [])
    (each : ∀ t ∈ items, Legible nesting t) (rest : List Char) :
    (Term.layoutTuple level items ++ rest).head? ≠ some ')' := by
  obtain ⟨t, ts, rfl⟩ := List.exists_cons_of_ne_nil filled
  cases ts with
  | nil => exact head_layout (each t List.mem_cons_self) rest
  | cons t' ts =>
    rw [Term.layoutTuple, List.append_assoc]
    · exact head_layout (each t List.mem_cons_self) _
    · exact List.cons_ne_nil t' ts

/-- The text of a term is scanned into its tokens. -/
theorem scan_layout (single : ∀ cs, outlook cs = .single) {nesting : Nat} {t : Term} (legible : Legible nesting t)
    (level : Nat) (apart : Apart rest) (behind : scan outlook rest = some tail) :
    scan outlook (Term.layout level t ++ rest) = some (tokens t ++ tail) := by
  have comma (rest : List Char) : Apart (',' :: rest) := apart_cons (by decide +kernel) rest
  have colon (rest : List Char) : Apart (':' :: rest) := apart_cons (by decide +kernel) rest
  have closing (rest : List Char) : Apart (')' :: rest) := apart_cons (by decide +kernel) rest
  have space (cs : List Char) : scan outlook (' ' :: cs) = scan outlook cs := scan_blank outlook (by decide) (by decide) cs
  induction legible generalizing level rest tail with
  | word plain => exact scan_word plain apart behind
  | number plain => exact scan_number plain apart behind
  | text s => exact scan_quote s behind
  | @tuple nesting name items label filled each ih =>
    have inside := scan_tuple filled (fun t inside rest tail => ih t inside level) (closing rest) (scan_endRound behind)
    have brackets := scan_round (head_layoutTuple filled each _) inside
    simpa [Term.layout, tokens] using scan_label label brackets
  | @record nesting fields filled names each ih =>
    have field (f : String × Term) (inside : f ∈ fields) (rest : List Char) (tail : List Token)
        (behind : scan outlook rest = some tail) :
        scan outlook (Term.newLine (level + 1) ++
          (f.1.toList ++ ':' :: ' ' :: (Term.layout (level + 1) f.2 ++ [','])) ++ rest) =
          some (namedTokens f ++ [.comma] ++ tail) := by
      have value := ih f inside (level + 1) (comma rest) (scan_comma behind)
      have named := scan_word (names f inside) (colon _) (scan_colon ((space _).trans value))
      simpa [scan_newLine, namedTokens] using named
    have inside := scan_flatMap field ((scan_newLine outlook level _).trans (scan_endRound behind))
    have line : (fields.flatMap (fun f => Term.newLine (level + 1) ++
        (f.1.toList ++ ':' :: ' ' :: (Term.layout (level + 1) f.2 ++ [',']))) ++
        (Term.newLine level ++ ')' :: rest)).head? ≠ some ')' := by
      obtain ⟨f, fs, rfl⟩ := List.exists_cons_of_ne_nil filled
      simp [Term.newLine]
    have brackets := scan_round line inside
    simpa [Term.layout, Term.label, tokens, labelTokens, layoutFields_eq, fieldTokens_eq] using brackets
  | @list nesting items each ih =>
    have line (t : Term) (inside : t ∈ items) (rest : List Char) (tail : List Token) (behind : scan outlook rest = some tail) :
        scan outlook (Term.newLine (level + 1) ++ (Term.layout (level + 1) t ++ [',']) ++ rest) =
          some (tokens t ++ [.comma] ++ tail) := by
      have value := ih t inside (level + 1) (comma rest) (scan_comma behind)
      simpa [scan_newLine] using value
    have inside := scan_flatMap line ((scan_newLine outlook level _).trans (scan_endSquare behind))
    cases items with
    | nil => exact scan_square (scan_endSquare behind)
    | cons t ts => simpa [Term.layout, tokens, layoutLines_eq, lineTokens_eq] using scan_square inside
  | @map nesting entries keys values key value =>
    have line (e : Term × Term) (inside : e ∈ entries) (rest : List Char) (tail : List Token)
        (behind : scan outlook rest = some tail) :
        scan outlook (Term.newLine (level + 1) ++
          (Term.layout (level + 1) e.1 ++ ':' :: ' ' :: (Term.layout (level + 1) e.2 ++ [','])) ++ rest) =
          some (pairTokens e ++ [.comma] ++ tail) := by
      have second := value e inside (level + 1) (comma rest) (scan_comma behind)
      have first := key e inside (level + 1) (colon _) (scan_colon ((space _).trans second))
      simpa [scan_newLine, pairTokens] using first
    have inside := scan_flatMap line ((scan_newLine outlook level _).trans (scan_endCurly behind))
    cases entries with
    | nil => exact scan_curly (scan_endCurly behind)
    | cons e es => simpa [Term.layout, tokens, layoutEntries_eq, entryTokens_eq] using scan_curly inside
  | @optional nesting t value ih =>
    have inside := ih level (closing rest) (scan_endRound behind)
    have whole := scan_optional inside
    rw [single] at whole
    simpa [Term.layout, Term.layoutTuple, Term.label, tokens, tupleTokens, labelTokens] using whole

end PoseGraph.TermTokens
