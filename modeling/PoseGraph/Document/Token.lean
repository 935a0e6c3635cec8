import PoseGraph.Document.Number
import PoseGraph.Document.Outlook

/-!
Tokens of documents.

Blanks part tokens and mean nothing otherwise. A word or a number takes all characters that it can, so
that two of them never touch. Round brackets that touch each other are one token, and so are the word
for optional values that are present and an opening bracket behind it.
-/

namespace PoseGraph.Document

/-- A kind of brackets. -/
inductive Bracket
  | round
  | square
  | curly
  deriving DecidableEq

/-- A token. -/
inductive Token
  | opening (b : Bracket)
  | closing (b : Bracket)
  /-- Round brackets with nothing in them, not even a blank. -/
  | unit
  /-- The word for an optional value that is present and an opening round bracket, with what the
  brackets seem to hold. -/
  | optional (outlook : Outlook)
  | comma
  | colon
  /-- The two signs in front of an attribute. -/
  | attributeMark
  /-- A name, as it is spelled: a raw name keeps the mark in front of it. -/
  | word (spelling : String)
  /-- A number, as it is spelled. -/
  | number (lexeme : String)
  | text (s : String)
  | char (c : Char)
  /-- A string of bytes, whatever they are. -/
  | bytes
  deriving DecidableEq

namespace Token

/-- Whether a character can begin a number. -/
def beginsNumber (c : Char) : Bool := c.isDigit || c == '.' || c == '+' || c == '-'

/-- The word that begins with a character and goes on at the front. A sign behind it would make it
raw and is refused. -/
def readWord (c : Char) (cs : List Char) : Option (Token × List Char) :=
  let (name, rest) := run continuesWord cs
  if rest.head?.any continuesRaw then none else some (word (String.ofList (c :: name)), rest)

/-- What follows the word for optional values that are present: an opening bracket, behind which the
outlook is taken, or anything else, even the sign of a number. -/
def readOptional (outlook : List Char → Outlook) (cs : List Char) : Token × List Char :=
  match skipBlank .space cs with
  | some ('(' :: rest) => (optional (outlook rest), rest)
  | _ => (word someWord, cs)

/-- The number that begins with a character and goes on at the front. -/
def readNumber (c : Char) (cs : List Char) : Token × List Char :=
  let (lexeme, rest) := run continuesRaw cs
  (number (String.ofList (c :: lexeme)), rest)

/-- What follows the letter of raw names and texts: hash signs and a text, or one hash sign and a
name. Without hash signs and text the letter belongs to a word. -/
def readRaw (cs : List Char) : Option (Token × List Char) :=
  let (hashes, rest) := run (· == '#') cs
  match hashes, rest with
  | hashes, '"' :: rest =>
    (Quotation.readRaw hashes.length rest).map fun (body, rest) =>
      (text (String.ofList body), rest)
  | [], _ => readWord 'r' cs
  | [_], rest =>
    let (name, rest) := run continuesRaw rest
    if name = [] then none else some (word (String.ofList (rawMark ++ name)), rest)
  | _, _ => none

/-- What follows the letter of bytes: a string of bytes, with escapes or raw, or a single byte, which
is a number. Otherwise the letter belongs to a word. -/
def readBytes : List Char → Option (Token × List Char)
  | '"' :: cs => (Quotation.readBody .bytes cs).map fun (_, rest) => (bytes, rest)
  | '\'' :: cs => (Quotation.readSingle .byte cs).map fun (c, rest) =>
      (number (String.ofList (Nat.toDigits 10 c.toNat ++ (WholeType.unsigned 8).suffix)), rest)
  | 'r' :: cs =>
    match run (· == '#') cs with
    | (hashes, '"' :: rest) =>
      (Quotation.readRaw hashes.length rest).map fun (_, rest) => (bytes, rest)
    | ([], _) => readWord 'b' ('r' :: cs)
    | _ => none
  | cs => readWord 'b' cs

/-- What follows an opening round bracket: the closing one may touch it. -/
def readRound : List Char → Token × List Char
  | ')' :: cs => (unit, cs)
  | cs => (opening .round, cs)

/-- The token at the front, where no blank stands. -/
def next? (outlook : List Char → Outlook) : List Char → Option (Token × List Char)
  | [] => none
  | '(' :: cs => some (readRound cs)
  | ')' :: cs => some (closing .round, cs)
  | '[' :: cs => some (opening .square, cs)
  | ']' :: cs => some (closing .square, cs)
  | '\x7b' :: cs => some (opening .curly, cs)
  | '\x7d' :: cs => some (closing .curly, cs)
  | ',' :: cs => some (comma, cs)
  | ':' :: cs => some (colon, cs)
  | '#' :: cs =>
    match skipBlank .space cs with
    | some ('!' :: rest) => some (attributeMark, rest)
    | _ => none
  | '"' :: cs => (Quotation.readBody .text cs).map fun (body, rest) =>
      (text (String.ofList body), rest)
  | '\'' :: cs => (Quotation.readSingle .char cs).map fun (c, rest) => (char c, rest)
  | 'r' :: cs => readRaw cs
  | 'b' :: cs => readBytes cs
  | c :: cs =>
    if beginsNumber c then some (readNumber c cs)
    else if String.ofList (c :: (run continuesWord cs).1) = someWord then
      some (readOptional outlook (run continuesWord cs).2)
    else if beginsWord c then readWord c cs
    else none

theorem length_readWord {c : Char} {cs rest : List Char} {t : Token}
    (h : readWord c cs = some (t, rest)) : rest.length ≤ cs.length := by
  have hrun := length_run continuesWord cs
  simp only [readWord] at h
  split at h
  · contradiction
  · cases h
    exact hrun

theorem length_readRaw {cs rest : List Char} {t : Token} (h : readRaw cs = some (t, rest)) :
    rest.length ≤ cs.length := by
  have hrun := length_run (· == '#') cs
  simp only [readRaw] at h
  split at h
  · rename_i tail heq
    obtain ⟨⟨body, rest'⟩, hraw, heq'⟩ := Option.map_eq_some_iff.1 h
    cases heq'
    have hlt := Quotation.length_readRaw hraw
    rw [heq, List.length_cons] at hrun
    exact Nat.le_trans (Nat.le_of_lt hlt) (Nat.le_of_succ_le hrun)
  · exact length_readWord h
  · rename_i tail heq
    have hname := length_run continuesRaw (run (· == '#') cs).2
    split at h
    · contradiction
    · cases h
      omega
  · contradiction

theorem length_readBytes {cs rest : List Char} {t : Token} (h : readBytes cs = some (t, rest)) :
    rest.length ≤ cs.length := by
  unfold readBytes at h
  split at h
  · obtain ⟨⟨body, rest'⟩, hb, heq⟩ := Option.map_eq_some_iff.1 h
    cases heq
    have := Quotation.length_readBody hb
    simp only [List.length_cons]
    omega
  · obtain ⟨⟨c, rest'⟩, hb, heq⟩ := Option.map_eq_some_iff.1 h
    cases heq
    have := Quotation.length_readSingle hb
    simp only [List.length_cons]
    omega
  · rename_i cs
    have hrun := length_run (· == '#') cs
    split at h
    · rename_i tail heq
      obtain ⟨⟨body, rest'⟩, hraw, heq'⟩ := Option.map_eq_some_iff.1 h
      cases heq'
      have := Quotation.length_readRaw hraw
      rw [heq, List.length_cons] at hrun
      simp only [List.length_cons]
      omega
    · exact length_readWord h
    · contradiction
  · exact length_readWord h

theorem length_readOptional (outlook : List Char → Outlook) (cs : List Char) :
    (readOptional outlook cs).2.length ≤ cs.length := by
  unfold readOptional
  split
  · rename_i h
    have := length_skipBlank h
    simp only [List.length_cons] at this
    exact Nat.le_of_succ_le this
  · exact Nat.le_refl _

theorem length_readRound (cs : List Char) : (readRound cs).2.length ≤ cs.length := by
  unfold readRound
  split <;> simp

/-- A token takes at least one character. -/
theorem length_next? {outlook : List Char → Outlook} {cs rest : List Char} {t : Token}
    (h : next? outlook cs = some (t, rest)) : rest.length < cs.length := by
  unfold next? at h
  split at h
  any_goals (cases h; simp)
  · contradiction
  · rename_i cs
    have := length_readRound cs
    rw [Option.some.inj h] at this
    exact Nat.lt_succ_of_le this
  · split at h
    · rename_i hskip
      cases h
      have := length_skipBlank hskip
      simp only [List.length_cons] at this ⊢
      omega
    · contradiction
  · obtain ⟨⟨body, rest'⟩, hb, heq⟩ := Option.map_eq_some_iff.1 h
    cases heq
    have := Quotation.length_readBody hb
    simp only [List.length_cons]
    omega
  · obtain ⟨⟨c, rest'⟩, hb, heq⟩ := Option.map_eq_some_iff.1 h
    cases heq
    have := Quotation.length_readSingle hb
    simp only [List.length_cons]
    omega
  · have := length_readRaw h
    simp only [List.length_cons]
    omega
  · have := length_readBytes h
    simp only [List.length_cons]
    omega
  · rename_i c cs _ _ _ _ _ _ _ _ _ _ _ _ _
    split at h
    · cases h
      exact Nat.lt_succ_of_le (length_run continuesRaw cs)
    · split at h
      · have hrun := length_run continuesWord cs
        have hrest := length_readOptional outlook (run continuesWord cs).2
        rw [Option.some.inj h] at hrest
        exact Nat.lt_succ_of_le (Nat.le_trans hrest hrun)
      · split at h
        · have := length_readWord h
          simp only [List.length_cons]
          omega
        · contradiction

/-- All tokens of a text, with a way to look ahead into brackets. -/
def scan (outlook : List Char → Outlook) (cs : List Char) : Option (List Token) :=
  match _blank : skipBlank .space cs with
  | none => none
  | some [] => some []
  | some (c :: cs') =>
    match _token : next? outlook (c :: cs') with
    | none => none
    | some (t, rest) => (scan outlook rest).map (t :: ·)
termination_by cs.length
decreasing_by
  have hblank := length_skipBlank _blank
  have htoken := length_next? _token
  omega

end Token

end PoseGraph.Document
