import PoseGraph.Document.Blank
import PoseGraph.Document.Name
import PoseGraph.Document.Quoted

/-!
What round brackets seem to hold, seen from behind the opening one.

Where the brackets of an optional value fall together with those of a tuple or record inside, it has
to be known in advance which of them to read. `ahead` looks for a comma outside of further brackets.
Quoted texts and blanks are passed over, but a comment that touches the quotes in front of it is not:
one sign behind quotes is taken as it is, and what follows is no comment any more.
-/

namespace PoseGraph.Document

/-- What brackets seem to hold. -/
inductive Outlook
  | empty
  /-- One value. -/
  | single
  /-- Values by position. -/
  | several
  /-- Values by name. -/
  | named
  /-- Something that cannot be passed over. -/
  | broken
  deriving DecidableEq

namespace Outlook

/-- What stands behind a character in quotes, or all if there is none at the front. -/
def skipSingle : List Char → List Char
  | '\'' :: cs =>
    match Quotation.readSingle .char cs with
    | some (_, rest) => rest
    | none => '\'' :: cs
  | cs => cs

/-- What stands behind a text with escapes, whose opening quote has been passed. Where an escape makes
no sense it stays `whole`. Fails if there is no closing quote. -/
def skipEscaped (q : Quotation) (whole cs : List Char) : Option (List Char) :=
  match Quotation.readBody q cs with
  | some (_, rest) => some rest
  | none => if Quotation.isUnclosed q cs then none else some whole

/-- What stands behind a raw text, whose letters have been passed. Where none begins it stays `whole`.
Fails if there is no closing quote. -/
def skipRaw (whole cs : List Char) : Option (List Char) :=
  match run (· == '#') cs with
  | (hashes, '"' :: rest) => (Quotation.readRaw hashes.length rest).map Prod.snd
  | _ => some whole

/-- What stands behind a text, or all if there is none at the front. -/
def skipText : List Char → Option (List Char)
  | '"' :: cs => skipEscaped .text ('"' :: cs) cs
  | 'r' :: cs => skipRaw ('r' :: cs) cs
  | cs => some cs

/-- What stands behind a string of bytes, or all if there is none at the front. -/
def skipBytes : List Char → Option (List Char)
  | 'b' :: '"' :: cs => skipEscaped .bytes ('b' :: '"' :: cs) cs
  | 'b' :: 'r' :: cs => skipRaw ('b' :: 'r' :: cs) cs
  | cs => some cs

/-- What stands behind quoted things at the front, where no blank parts them. -/
def skipQuoted (cs : List Char) : Option (List Char) := (skipText (skipSingle cs)).bind skipBytes

/-- What a comma in the outermost brackets makes of them, by what stands behind it. -/
def behindComma (cs : List Char) : Outlook :=
  match skipBlank .space cs with
  | none => broken
  | some (')' :: _) => single
  | some _ => several

theorem length_skipSingle (cs : List Char) : (skipSingle cs).length ≤ cs.length := by
  unfold skipSingle
  split
  · split
    · rename_i h
      have := Quotation.length_readSingle h
      simp only [List.length_cons]
      omega
    · exact Nat.le_refl _
  · exact Nat.le_refl _

theorem length_skipEscaped {q : Quotation} {whole cs rest : List Char}
    (hle : cs.length ≤ whole.length) (h : skipEscaped q whole cs = some rest) :
    rest.length ≤ whole.length := by
  unfold skipEscaped at h
  split at h
  · rename_i hb
    cases h
    have := Quotation.length_readBody hb
    omega
  · split at h
    · contradiction
    · cases h
      exact Nat.le_refl _

theorem length_skipRaw {whole cs rest : List Char} (hle : cs.length ≤ whole.length)
    (h : skipRaw whole cs = some rest) : rest.length ≤ whole.length := by
  unfold skipRaw at h
  have hrun := length_run (· == '#') cs
  split at h
  · rename_i tail heq
    obtain ⟨⟨body, rest'⟩, hraw, heq'⟩ := Option.map_eq_some_iff.1 h
    cases heq'
    have := Quotation.length_readRaw hraw
    rw [heq, List.length_cons] at hrun
    simp only
    omega
  · cases h
    exact Nat.le_refl _

theorem length_skipText {cs rest : List Char} (h : skipText cs = some rest) :
    rest.length ≤ cs.length := by
  unfold skipText at h
  split at h
  · exact length_skipEscaped (by simp) h
  · exact length_skipRaw (by simp) h
  · cases h
    exact Nat.le_refl _

theorem length_skipBytes {cs rest : List Char} (h : skipBytes cs = some rest) :
    rest.length ≤ cs.length := by
  unfold skipBytes at h
  split at h
  · exact length_skipEscaped (by simp; omega) h
  · exact length_skipRaw (by simp; omega) h
  · cases h
    exact Nat.le_refl _

theorem length_skipQuoted {cs rest : List Char} (h : skipQuoted cs = some rest) :
    rest.length ≤ cs.length := by
  obtain ⟨mid, ht, hb⟩ := Option.bind_eq_some_iff.1 h
  have := length_skipSingle cs
  have := length_skipText ht
  have := length_skipBytes hb
  omega

/-- Look for a comma inside no brackets but the outermost, from a place inside `depth` others. -/
def count (depth : Nat) (cs : List Char) : Outlook :=
  match _blank : skipBlank .space cs with
  | none => broken
  | some start =>
    match _quoted : skipQuoted start with
    | none => broken
    | some [] => broken
    | some (c :: rest) =>
      if c ∈ ['(', '[', '\x7b'] then count (depth + 1) rest
      else if c ∈ [')', ']', '\x7d'] then
        if depth = 0 then single else count (depth - 1) rest
      else if c = ',' ∧ depth = 0 then behindComma rest
      else count depth rest
termination_by cs.length
decreasing_by
  all_goals
    have hblank := length_skipBlank _blank
    have hquoted := length_skipQuoted _quoted
    simp only [List.length_cons] at hquoted
    omega

/-- What the brackets hold behind whose opening one some characters stand. A name and a colon at the
front begin a record. -/
def ahead (cs : List Char) : Outlook :=
  match skipBlank .space cs with
  | none => broken
  | some (')' :: _) => empty
  | some cs =>
    match skipName cs with
    | none => count 0 cs
    | some rest =>
      match skipBlank .space rest with
      | none => broken
      | some (':' :: _) => named
      | some (',' :: rest) => behindComma rest
      | some (')' :: _) => single
      | some rest => count 0 rest

end Outlook

end PoseGraph.Document
