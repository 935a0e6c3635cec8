import PoseGraph.Text.CharSet

/-!
Blanks of documents.

White space and comments part other things and mean nothing otherwise. Comments in `/* */` nest.
-/

namespace PoseGraph.Document

/-- What the reader is in while it skips blanks. -/
inductive Blank
  | space
  | lineComment
  /-- A comment inside as many others. -/
  | blockComment (depth : Nat)

/-- Skip blanks and comments. Fails in a comment that is not closed and at a slash that begins
none. -/
def skipBlank : Blank → List Char → Option (List Char)
  | .space, [] => some []
  | .space, '/' :: '/' :: cs => skipBlank .lineComment cs
  | .space, '/' :: '*' :: cs => skipBlank (.blockComment 0) cs
  | .space, '/' :: _ => none
  | .space, c :: cs =>
    if CharSet.patternWhiteSpace.contains c then skipBlank .space cs else some (c :: cs)
  | .lineComment, [] => some []
  | .lineComment, c :: cs => skipBlank (if c = '\n' then .space else .lineComment) cs
  | .blockComment _, [] => none
  | .blockComment 0, '*' :: '/' :: cs => skipBlank .space cs
  | .blockComment (depth + 1), '*' :: '/' :: cs => skipBlank (.blockComment depth) cs
  | .blockComment depth, '/' :: '*' :: cs => skipBlank (.blockComment (depth + 1)) cs
  | .blockComment depth, _ :: cs => skipBlank (.blockComment depth) cs

theorem length_skipBlank {b : Blank} {cs rest : List Char} (h : skipBlank b cs = some rest) :
    rest.length ≤ cs.length := by
  fun_induction skipBlank b cs <;> simp_all <;> omega

end PoseGraph.Document
