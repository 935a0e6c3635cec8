import PoseGraph.Document.Token

/-!
The structure of documents, before it is known what they describe.

Brackets nest: tuples and records in round ones, which may have a name in front, lists in square ones
and maps in curly ones. A document starts out with `recursionLimit` levels. What is written inside a
term takes a level of those that are left there, so that documents which nest too deep are not
written.
-/

namespace PoseGraph.Document

/-- A term. -/
inductive Term
  /-- A bare name, as it is spelled. -/
  | word (spelling : String)
  /-- A number, as it is spelled. -/
  | number (lexeme : String)
  | text (s : String)
  | char (c : Char)
  /-- A string of bytes, whatever they are. -/
  | bytes
  /-- Round brackets with nothing in them, not even a blank, and no name in front. -/
  | unit
  /-- Values by position. Without values this is a record without fields, too. -/
  | tuple (name : Option String) (items : List Term)
  /-- Values by position, at least one, with two commas behind the last. -/
  | padded (name : Option String) (items : List Term)
  /-- Values by name, at least one. -/
  | record (name : Option String) (fields : List (String × Term))
  | list (items : List Term)
  | map (entries : List (Term × Term))
  /-- A value behind the word for optional values that are present, without brackets. -/
  | present (value : Term)
  /-- Round brackets behind the word for optional values that are present: what they seem to hold, and
  themselves. -/
  | optional (outlook : Outlook) (brackets : Term)

namespace Term

instance : Inhabited Term := ⟨unit⟩

/-- Words that stand for values of their own and not for one of several alternatives. -/
def plainWords : List String :=
  ["true", "false", "None", "inf", "NaN", "inff32", "NaNf32", "inff64", "NaNf64"]

/-- The number of levels that a document has. -/
def recursionLimit : Nat := 128

mutual

/-- The levels that are left behind a term, out of those that are left in front of it, or nothing if
they do not suffice. A level is taken for the time inside each value that the term contains. A record,
list, map, or tuple of several values leaves one more level behind than it found. -/
def levelsBehind? (levels : Nat) : Term → Option Nat
  | word _ => some levels
  | number _ => some levels
  | text _ => some levels
  | char _ => some levels
  | bytes => some levels
  | unit => some levels
  | present t => if levels = 0 then none else (t.levelsBehind? (levels - 1)).map (· + 1)
  | optional _ brackets => brackets.levelsBehind? levels
  | tuple _ [t] => if levels = 0 then none else (t.levelsBehind? (levels - 1)).map (· + 1)
  | tuple _ items => (levelsBehindItems? levels items).map (· + 1)
  | padded _ items => (levelsBehindItems? levels items).map (· + 1)
  | record _ fields => (levelsBehindFields? levels fields).map (· + 1)
  | list items => (levelsBehindItems? levels items).map (· + 1)
  | map entries => (levelsBehindEntries? levels entries).map (· + 1)

/-- The levels that are left behind the last of some terms. -/
def levelsBehindItems? (levels : Nat) : List Term → Option Nat
  | [] => some levels
  | t :: ts =>
    if levels = 0 then none
    else (t.levelsBehind? (levels - 1)).bind fun left => levelsBehindItems? (left + 1) ts

/-- The levels that are left behind the last of some named terms. -/
def levelsBehindFields? (levels : Nat) : List (String × Term) → Option Nat
  | [] => some levels
  | (_, t) :: fs =>
    if levels = 0 then none
    else (t.levelsBehind? (levels - 1)).bind fun left => levelsBehindFields? (left + 1) fs

/-- The levels that are left behind the last of some pairs of terms. -/
def levelsBehindEntries? (levels : Nat) : List (Term × Term) → Option Nat
  | [] => some levels
  | (k, v) :: es =>
    if levels = 0 then none
    else (k.levelsBehind? (levels - 1)).bind fun left => (v.levelsBehind? left).bind fun left =>
      levelsBehindEntries? (left + 1) es

end

/-- Whether a term can be written. -/
def canBeWritten (t : Term) : Bool := (t.levelsBehind? recursionLimit).isSome

end Term

end PoseGraph.Document
