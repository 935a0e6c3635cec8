import PoseGraph.Text.Printable

/-!
Quoted texts and characters.

Between quotes a character stands for itself or is written by an escape. Writing escapes both kinds
of quotes, the backslash, four controls by a letter, and by its code point whatever is not shown as
itself. Reading takes any escape for any character, and also raw texts, which have no escapes and end
at a quote followed by as many hash signs as stand in front of them.
-/

namespace PoseGraph.Document

/-- Where an escape stands, which decides what may be written by numbers. -/
inductive Quotation
  /-- In a text: code points, and bytes that encode a character together. -/
  | text
  /-- In a character: code points, and single bytes of ASCII. -/
  | char
  /-- In a string of bytes: code points and bytes. -/
  | bytes
  /-- In a single byte: bytes. -/
  | byte
  deriving DecidableEq

namespace Quotation

/-- The value of a hexadecimal digit. -/
def hexDigit? (c : Char) : Option Nat :=
  if c.isDigit then some (c.toNat - '0'.toNat)
  else if 'a' ≤ c ∧ c ≤ 'f' then some (c.toNat - 'a'.toNat + 10)
  else if 'A' ≤ c ∧ c ≤ 'F' then some (c.toNat - 'A'.toNat + 10)
  else none

/-- The value of a run of hexadecimal digits. -/
def hexValue (cs : List Char) : Nat := cs.foldl (fun n c => 16 * n + (hexDigit? c).getD 0) 0

/-- The character that some bytes encode in UTF-8. -/
def charOfBytes? (bytes : List UInt8) : Option Char :=
  match (String.fromUTF8? ⟨bytes.toArray⟩).map String.toList with
  | some [c] => some c
  | _ => none

/-- The letter that stands for a character behind a backslash. -/
def escapeLetter? (c : Char) : Option Char :=
  if c = '"' ∨ c = '\'' ∨ c = '\\' then some c
  else if c = '\n' then some 'n'
  else if c = '\r' then some 'r'
  else if c = '\t' then some 't'
  else if c = '\x00' then some '0'
  else none

/-- The character for which a letter stands behind a backslash. -/
def escaped? (c : Char) : Option Char :=
  if c = '"' ∨ c = '\'' ∨ c = '\\' then some c
  else if c = 'n' then some '\n'
  else if c = 'r' then some '\r'
  else if c = 't' then some '\t'
  else if c = '0' then some '\x00'
  else none

/-- A character between quotes. -/
def escape (c : Char) : List Char :=
  match escapeLetter? c with
  | some letter => ['\\', letter]
  | none =>
    if CharSet.unprintable.contains c then
      '\\' :: 'u' :: '\x7b' :: (Nat.toDigits 16 c.toNat ++ ['\x7d'])
    else [c]

/-- Bytes of two hexadecimal digits each, until they encode a character; behind each but the last
stands the escape of the next, of which there may be `more`. -/
def readBytes (pending : List UInt8) : (more : Nat) → List Char → Option (Char × List Char)
  | more, high :: low :: cs =>
    match hexDigit? high, hexDigit? low with
    | some a, some b =>
      let bytes := pending ++ [UInt8.ofNat (16 * a + b)]
      match charOfBytes? bytes, more, cs with
      | some c, _, _ => some (c, cs)
      | none, more + 1, '\\' :: 'x' :: rest => readBytes bytes more rest
      | none, _, _ => none
    | _, _ => none
  | _, _ => none

/-- A code point: one to six hexadecimal digits in braces. -/
def readCodePoint : List Char → Option (Char × List Char)
  | '\x7b' :: cs =>
    let digits := cs.takeWhile fun c => (hexDigit? c).isSome
    match cs.dropWhile fun c => (hexDigit? c).isSome with
    | '\x7d' :: rest =>
      if digits = [] ∨ 6 < digits.length then none
      else if (hexValue digits).isValidChar then some (Char.ofNat (hexValue digits), rest)
      else none
    | _ => none
  | _ => none

/-- One byte of two hexadecimal digits. -/
def readByte : List Char → Option (Char × List Char)
  | high :: low :: cs =>
    match hexDigit? high, hexDigit? low with
    | some a, some b => some (Char.ofNat (16 * a + b), cs)
    | _, _ => none
  | _ => none

/-- What follows a backslash. -/
def readEscape (q : Quotation) : List Char → Option (Char × List Char)
  | 'x' :: cs =>
    match q with
    | text => readBytes [] 3 cs
    | char => readBytes [] 0 cs
    | bytes => readByte cs
    | byte => readByte cs
  | 'u' :: cs => if q = byte then none else readCodePoint cs
  | c :: cs => (escaped? c).map fun c => (c, cs)
  | [] => none

theorem length_readBytes {pending : List UInt8} {more : Nat} {cs rest : List Char} {c : Char}
    (h : readBytes pending more cs = some (c, rest)) : rest.length < cs.length := by
  fun_induction readBytes pending more cs <;> simp_all
  all_goals omega

theorem length_readCodePoint {cs rest : List Char} {c : Char}
    (h : readCodePoint cs = some (c, rest)) : rest.length < cs.length := by
  unfold readCodePoint at h
  split at h
  · rename_i cs
    have hle := (List.dropWhile_sublist (fun c => (hexDigit? c).isSome) (l := cs)).length_le
    simp only at h
    split at h
    · rename_i tail heq
      rw [heq] at hle
      split at h
      · contradiction
      · split at h
        · cases h
          simp only [List.length_cons] at hle ⊢
          omega
        · contradiction
    · contradiction
  · contradiction

theorem length_readByte {cs rest : List Char} {c : Char}
    (h : readByte cs = some (c, rest)) : rest.length < cs.length := by
  unfold readByte at h
  split at h
  · split at h
    · cases h
      simp only [List.length_cons]
      omega
    · contradiction
  · contradiction

/-- An escape takes at least one character. -/
theorem length_readEscape {q : Quotation} {cs rest : List Char} {c : Char}
    (h : readEscape q cs = some (c, rest)) : rest.length < cs.length := by
  unfold readEscape at h
  split at h
  · split at h
    · have := length_readBytes h
      simp only [List.length_cons]
      omega
    · have := length_readBytes h
      simp only [List.length_cons]
      omega
    · have := length_readByte h
      simp only [List.length_cons]
      omega
    · have := length_readByte h
      simp only [List.length_cons]
      omega
  · split at h
    · contradiction
    · have := length_readCodePoint h
      simp only [List.length_cons]
      omega
  · obtain ⟨_, _, hc⟩ := Option.map_eq_some_iff.1 h
    cases hc
    simp
  · contradiction

/-- What stands up to the closing double quote, and what follows it. -/
def readBody (q : Quotation) : List Char → Option (List Char × List Char)
  | [] => none
  | c :: cs =>
    if c = '"' then some ([], cs)
    else if c = '\\' then
      match _found : readEscape q cs with
      | none => none
      | some (c, rest) => (readBody q rest).map fun (body, rest) => (c :: body, rest)
    else (readBody q cs).map fun (body, rest) => (c :: body, rest)
termination_by cs => cs.length
decreasing_by
  · have := length_readEscape _found
    simp only [List.length_cons]
    omega
  · simp

/-- Whether the closing double quote is missing. An escape that makes no sense ends the search, unless
no double quote at all stands behind it. -/
def isUnclosed (q : Quotation) : List Char → Bool
  | [] => true
  | c :: cs =>
    if c = '"' then false
    else if c = '\\' then
      match _found : readEscape q cs with
      | none => !cs.contains '"'
      | some (_, rest) => isUnclosed q rest
    else isUnclosed q cs
termination_by cs => cs.length
decreasing_by
  · have := length_readEscape _found
    simp only [List.length_cons]
    omega
  · simp

/-- What stands up to the double quote that is followed by as many hash signs as given, and what
follows these. -/
def readRaw (hashes : Nat) : List Char → Option (List Char × List Char)
  | [] => none
  | c :: cs =>
    if c = '"' ∧ (List.replicate hashes '#').isPrefixOf cs then some ([], cs.drop hashes)
    else (readRaw hashes cs).map fun (body, rest) => (c :: body, rest)

/-- What stands up to the closing single quote: one character, of ASCII if a byte is meant, or one
escape. -/
def readSingle (q : Quotation) : List Char → Option (Char × List Char)
  | '\\' :: cs => (readEscape q cs).bind fun (c, rest) => closed c rest
  | c :: rest => if q = byte ∧ 127 < c.toNat then none else closed c rest
  | [] => none
where
  /-- The closing quote. -/
  closed (c : Char) : List Char → Option (Char × List Char)
    | '\'' :: rest => some (c, rest)
    | _ => none

theorem length_readBody {q : Quotation} {cs body rest : List Char}
    (h : readBody q cs = some (body, rest)) : rest.length < cs.length := by
  fun_induction readBody q cs generalizing body with
  | case1 => simp at h
  | case2 cs =>
    cases h
    simp
  | case3 => simp at h
  | case4 =>
    rename_i he _ ih
    obtain ⟨⟨body', tail⟩, hb, heq⟩ := Option.map_eq_some_iff.1 h
    cases heq
    have := ih hb
    have := length_readEscape he
    simp only [List.length_cons]
    omega
  | case5 =>
    rename_i ih
    obtain ⟨⟨body', tail⟩, hb, heq⟩ := Option.map_eq_some_iff.1 h
    cases heq
    have := ih hb
    simp only [List.length_cons]
    omega

theorem length_readRaw {hashes : Nat} {cs body rest : List Char}
    (h : readRaw hashes cs = some (body, rest)) : rest.length < cs.length := by
  fun_induction readRaw hashes cs generalizing body with
  | case1 => simp at h
  | case2 c cs hc =>
    cases h
    simp only [List.length_drop, List.length_cons]
    omega
  | case3 c cs hc ih =>
    obtain ⟨⟨body', tail⟩, hb, heq⟩ := Option.map_eq_some_iff.1 h
    cases heq
    have := ih hb
    simp only [List.length_cons]
    omega

theorem length_closed {c c' : Char} {cs rest : List Char}
    (h : readSingle.closed c cs = some (c', rest)) : rest.length < cs.length := by
  unfold readSingle.closed at h
  split at h
  · cases h
    simp
  · contradiction

theorem length_readSingle {q : Quotation} {cs rest : List Char} {c : Char}
    (h : readSingle q cs = some (c, rest)) : rest.length < cs.length := by
  unfold readSingle at h
  split at h
  · obtain ⟨⟨c', tail⟩, he, hc⟩ := Option.bind_eq_some_iff.1 h
    have := length_readEscape he
    have := length_closed hc
    simp only [List.length_cons]
    omega
  · split at h
    · contradiction
    · have := length_closed h
      simp only [List.length_cons]
      omega
  · contradiction

end Quotation

/-- A text in double quotes. -/
def quote (s : String) : List Char :=
  '"' :: (s.toList.flatMap Quotation.escape ++ ['"'])

end PoseGraph.Document
