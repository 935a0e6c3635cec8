import PoseGraph.Document.Term

/-!
From the text of a document to its term.

A document begins with attributes, which choose a dialect, and is one term. Readers take tokens from
the front and leave the rest. `term` nests as deep as its bound says: every term takes a level for
those inside it, and deeper ones than the document has levels are of no use. How many elements stand
between brackets is bounded by the number of tokens.
-/

namespace PoseGraph.Document

/-- Liberties of a document. -/
structure Dialect where
  /-- Structures around a single value are written as that value. -/
  unwrapsNewtypes : Bool := false
  /-- An optional value that is present is written as that value. -/
  impliesSome : Bool := false
  /-- The brackets of a record or tuple fall together with those of the alternative around it. -/
  unwrapsVariants : Bool := false
  /-- No structure goes without its name. -/
  demandsNames : Bool := false
  deriving DecidableEq

end PoseGraph.Document

namespace PoseGraph

/-- A document. -/
structure Document where
  dialect : Document.Dialect
  term : Document.Term

namespace Document

/-- A reader of tokens: what it reads and the tokens behind, or nothing. -/
abbrev Reader := StateT (List Token) Option

namespace Reader

/-- Take the next token if it is the given one, and tell whether it is. -/
def skip (t : Token) : Reader Bool
  | [] => some (false, [])
  | t' :: ts => if t' = t then some (true, ts) else some (false, t' :: ts)

/-- Take the given token. -/
def expect (t : Token) : Reader Unit
  | [] => none
  | t' :: ts => if t' = t then some ((), ts) else none

/-- Take a name. -/
def name : Reader String
  | .word spelling :: ts => some (nameOf spelling, ts)
  | _ => none

/-- Whether no element comes next, but a comma or a closing bracket. -/
def atEnd : List Token → Bool
  | .comma :: _ => true
  | .closing _ :: _ => true
  | _ => false

/-- Elements, at most as many as `count` says less one. Commas part them, and one may stand behind the
last. -/
def separated {α : Type} (element : Reader α) : (count : Nat) → Reader (List α)
  | 0 => failure
  | count + 1 => do
    if atEnd (← get) then return []
    let x ← element
    if ← skip .comma then
      let xs ← separated element count
      return x :: xs
    return [x]

/-- Elements up to a closing bracket, which is taken too. -/
def elements {α : Type} (close : Bracket) (element : Reader α) (count : Nat) : Reader (List α) := do
  let xs ← separated element count
  expect (.closing close)
  return xs

/-- A name, a colon and a value. -/
def field (value : Reader Term) : Reader (String × Term) := do
  let key ← name
  expect .colon
  let v ← value
  return (key, v)

/-- A key, a colon and a value. -/
def entry (value : Reader Term) : Reader (Term × Term) := do
  let k ← value
  expect .colon
  let v ← value
  return (k, v)

/-- Whether a field comes next. -/
def atField : List Token → Bool
  | .word _ :: .colon :: _ => true
  | _ => false

/-- What stands in round brackets, behind the opening one: fields if a field comes first. -/
def group (label : Option String) (value : Reader Term) (count : Nat) : Reader Term := do
  if atField (← get) then
    let fields ← elements .round (field value) count
    return .record label fields
  else
    let items ← separated value count
    let isPadded ← if items.isEmpty then pure false else skip .comma
    expect (.closing .round)
    return if isPadded then .padded label items else .tuple label items

/-- Whether a token can be the first of a term. -/
def beginsTerm : Token → Bool
  | .closing _ => false
  | .comma => false
  | .colon => false
  | .attributeMark => false
  | _ => true

/-- A term. -/
def term (count : Nat) : (nesting : Nat) → Reader Term
  | 0, _ => none
  | nesting + 1, ts =>
    match ts with
    | .word spelling :: .opening .round :: ts =>
      group (some spelling) (term count nesting) count ts
    | .word spelling :: .unit :: ts => some (.tuple (some spelling) [], ts)
    | .optional outlook :: ts =>
      (Term.optional outlook <$> group none (term count nesting) count : Reader Term) ts
    | .word spelling :: ts =>
      if spelling = someWord ∧ ts.head?.any beginsTerm then
        (Term.present <$> term count nesting : Reader Term) ts
      else some (.word spelling, ts)
    | .number lexeme :: ts => some (.number lexeme, ts)
    | .text s :: ts => some (.text s, ts)
    | .char c :: ts => some (.char c, ts)
    | .bytes :: ts => some (.bytes, ts)
    | .unit :: ts => some (.unit, ts)
    | .opening .round :: ts => group none (term count nesting) count ts
    | .opening .square :: ts =>
      (Term.list <$> elements .square (term count nesting) count : Reader Term) ts
    | .opening .curly :: ts =>
      (Term.map <$> elements .curly (entry (term count nesting)) count : Reader Term) ts
    | _ => none

/-- Grant a liberty by its name. -/
def grant (d : Dialect) (liberty : String) : Option Dialect :=
  if liberty = "unwrap_newtypes" then some { d with unwrapsNewtypes := true }
  else if liberty = "implicit_some" then some { d with impliesSome := true }
  else if liberty = "unwrap_variant_newtypes" then some { d with unwrapsVariants := true }
  else if liberty = "explicit_struct_names" then some { d with demandsNames := true }
  else none

/-- One attribute, behind its signs: the liberties that it names, at least one. -/
def liberties (d : Dialect) (count : Nat) : Reader Dialect := do
  expect (.opening .square)
  expect (.word "enable")
  expect (.opening .round)
  let names ← elements .round name count
  expect (.closing .square)
  if names = [] then failure else StateT.lift (names.foldlM grant d)

/-- All attributes in front of the term, at most as many as `count` says. -/
def attributes (bound : Nat) : (count : Nat) → Dialect → Reader Dialect
  | 0, d => return d
  | count + 1, d => do
    if ← skip .attributeMark then attributes bound count (← liberties d bound) else return d

end Reader

/-- The dialect that a text chooses and the tokens of its term, with a way to look ahead into brackets.
Each liberty and each attribute takes a token, so the number of tokens bounds how many there are. -/
def begin? (outlook : List Char → Outlook) (s : String) : Option (Dialect × List Token) := do
  let tokens ← Token.scan outlook s.toList
  (Reader.attributes (tokens.length + 1) (tokens.length + 1) {}).run tokens

/-- The dialect of a text and the tokens of its term. Only where the brackets of an alternative fall
together with those inside is it of interest what they seem to hold; else optional values are
single. -/
def tokens? (s : String) : Option (Dialect × List Token) :=
  match begin? (fun _ => .single) s with
  | none => none
  | some (dialect, tokens) =>
    if dialect.unwrapsVariants then begin? Outlook.ahead s else some (dialect, tokens)

/-- Read a document. Each element takes a token, so the number of tokens bounds how many there are. -/
def read (s : String) : Option Document := do
  let (dialect, tokens) ← tokens? s
  match ← (Reader.term (tokens.length + 1) (Term.recursionLimit + 1)).run tokens with
  | (term, []) => return ⟨dialect, term⟩
  | _ => failure

end Document

end PoseGraph
