import PoseGraph.Text.Word

/-!
Names in documents.

A name is a word, or it is raw: then a mark stands in front, and signs may belong to it.
-/

namespace PoseGraph.Document

/-- Whether a character can begin a word. -/
def beginsWord (c : Char) : Bool := c == '_' || CharSet.wordStart.contains c

/-- Whether a character can continue a word. -/
def continuesWord (c : Char) : Bool := CharSet.wordContinue.contains c

/-- Whether a character can stand in a raw name or a number. -/
def continuesRaw (c : Char) : Bool := continuesWord c || c == '.' || c == '+' || c == '-'

/-- A run of characters and the rest. -/
def run (p : Char → Bool) (cs : List Char) : List Char × List Char := (cs.takeWhile p, cs.dropWhile p)

theorem length_run (p : Char → Bool) (cs : List Char) : (run p cs).2.length ≤ cs.length :=
  (List.dropWhile_sublist p).length_le

/-- The mark of raw names, which may be spelled like keywords and contain signs. -/
def rawMark : List Char := ['r', '#']

/-- The name that a word spells. -/
def nameOf (spelling : String) : String :=
  if rawMark.isPrefixOf spelling.toList then String.ofList (spelling.toList.drop rawMark.length)
  else spelling

/-- The word in front of an optional value that is present. -/
def someWord : String := "Some"

/-- What stands behind a name at the front, if one stands there and not a quoted text. -/
def skipName : List Char → Option (List Char)
  | 'b' :: '"' :: _ => none
  | 'b' :: '\'' :: _ => none
  | 'b' :: 'r' :: '"' :: _ => none
  | 'b' :: 'r' :: '#' :: _ => none
  | 'r' :: '"' :: _ => none
  | 'r' :: '#' :: cs =>
    match run continuesRaw cs with
    | ([], _) => none
    | (_, rest) => some rest
  | c :: cs => if beginsWord c then some (run continuesWord cs).2 else none
  | [] => none

end PoseGraph.Document
