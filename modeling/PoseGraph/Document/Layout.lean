import PoseGraph.Document.Term

/-!
The text of documents.

Records, lists and maps that are not empty take a line for each element, indented by four spaces more
than the brackets, with a comma behind it. Tuples stay in their line.
-/

namespace PoseGraph.Document.Term

/-- The blanks in front of a line. -/
def indent (level : Nat) : List Char := List.replicate (4 * level) ' '

/-- The beginning of a line at a level. -/
def newLine (level : Nat) : List Char := '\n' :: indent level

/-- A name in front of a bracket. -/
def label (name : Option String) : List Char := (name.getD "").toList

mutual

/-- The text of a term whose first line stands at a level of indentation. -/
def layout (level : Nat) : Term → List Char
  | word spelling => spelling.toList
  | number lexeme => lexeme.toList
  | text s => quote s
  | char c => '\'' :: (Quotation.escape c ++ ['\''])
  | bytes => ['b', '"', '"']
  | unit => ['(', ')']
  | tuple name items => label name ++ '(' :: (layoutTuple level items ++ [')'])
  | padded name items => label name ++ '(' :: (layoutTuple level items ++ [',', ',', ')'])
  | present t => someWord.toList ++ ' ' :: layout level t
  | optional _ brackets => someWord.toList ++ layout level brackets
  | record name fields =>
    label name ++ '(' :: (layoutFields (level + 1) fields ++ newLine level ++ [')'])
  | list [] => ['[', ']']
  | list (t :: ts) => '[' :: (layoutLines (level + 1) (t :: ts) ++ newLine level ++ [']'])
  | map [] => ['\x7b', '\x7d']
  | map (e :: es) => '\x7b' :: (layoutEntries (level + 1) (e :: es) ++ newLine level ++ ['\x7d'])

/-- Terms in a line, parted by commas. -/
def layoutTuple (level : Nat) : List Term → List Char
  | [] => []
  | [t] => layout level t
  | t :: ts => layout level t ++ ',' :: ' ' :: layoutTuple level ts

/-- Terms, a line each. -/
def layoutLines (level : Nat) : List Term → List Char
  | [] => []
  | t :: ts => newLine level ++ layout level t ++ ',' :: layoutLines level ts

/-- Named terms, a line each. -/
def layoutFields (level : Nat) : List (String × Term) → List Char
  | [] => []
  | (name, t) :: fs =>
    newLine level ++ name.toList ++ ':' :: ' ' :: (layout level t ++ ',' :: layoutFields level fs)

/-- Pairs of terms, a line each. -/
def layoutEntries (level : Nat) : List (Term × Term) → List Char
  | [] => []
  | (k, v) :: es =>
    newLine level ++ layout level k ++ ':' :: ' ' ::
      (layout level v ++ ',' :: layoutEntries level es)

end

/-- The text of a term, which fails where it nests too deep. -/
def write (t : Term) : Option String :=
  if t.canBeWritten then some (String.ofList (layout 0 t)) else none

end PoseGraph.Document.Term
