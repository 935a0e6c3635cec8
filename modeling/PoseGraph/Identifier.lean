/-!
Names as the runtime knows them.

A name is hashed to 32 bits. Before that, the names of properties are turned into words that are
legal in the generated code: `safeName` keeps ASCII letters, digits and underscores and steers clear
of leading digits and reserved words.
-/

namespace PoseGraph

/-- The 32-bit hash of a name. -/
structure Identifier where
  hash : UInt32
  deriving DecidableEq, Inhabited

namespace Identifier

/-- One step of the hash: mix in a byte, then multiply by the prime. -/
def mix (hash : UInt32) (byte : UInt8) : UInt32 := (hash ^^^ byte.toUInt32) * 0x01000193

/-- FNV-1a over the UTF-8 bytes of a name. -/
def ofName (name : String) : Identifier := ⟨name.toUTF8.toList.foldl mix 0x811c9dc5⟩

/-- Position of a blend space vertex along the first axis. -/
def x : Identifier := ofName "X"
/-- Position of a blend space vertex along the second axis. -/
def y : Identifier := ofName "Y"
/-- Blend time of a blend space along the first axis. -/
def lerpSecondsPerUnitX : Identifier := ofName "LerpSecondsPerUnitX"
/-- Blend time of a blend space along the second axis. -/
def lerpSecondsPerUnitY : Identifier := ofName "LerpSecondsPerUnitY"

/-- The text of an identifier: its eight hexadecimal digits. -/
def toText (id : Identifier) : String :=
  let digits := Nat.toDigits 16 id.hash.toNat
  "0x" ++ String.ofList (List.replicate (8 - digits.length) '0' ++ digits)

end Identifier

/-- Words that the generated code reserves. -/
def reservedWords : List String := [
  "alignas", "alignof", "and", "and_eq", "asm", "auto", "bitand", "bitor", "bool", "break",
  "case", "catch", "char", "char8_t", "char16_t", "char32_t", "class", "compl", "concept",
  "const", "consteval", "constexpr", "constinit", "const_cast", "continue", "co_await",
  "co_return", "co_yield", "decltype", "default", "delete", "do", "double", "dynamic_cast",
  "else", "enum", "explicit", "export", "extern", "false", "float", "for", "friend", "goto",
  "if", "inline", "int", "long", "mutable", "namespace", "new", "noexcept", "not", "not_eq",
  "nullptr", "operator", "or", "or_eq", "private", "protected", "public", "register",
  "reinterpret_cast", "requires", "return", "short", "signed", "sizeof", "static",
  "static_assert", "static_cast", "struct", "switch", "template", "this", "thread_local",
  "throw", "true", "try", "typedef", "typeid", "typename", "union", "unsigned", "using",
  "virtual", "void", "volatile", "wchar_t", "while", "xor", "xor_eq"]

/-- What a character of a name becomes in a safe name: blanks and punctuation that separate become
an underscore, letters, digits and underscores stay, all else is dropped. -/
def safeChar? (c : Char) : Option Char :=
  if c = ' ' ∨ c = ',' ∨ c = '.' ∨ c = '/' ∨ c = ';' then some '_'
  else if c.isAlphanum ∨ c = '_' then some c
  else none

/-- An underscore in front of a leading digit. -/
def guardDigit : List Char → List Char
  | c :: cs => if c.isDigit then '_' :: c :: cs else c :: cs
  | [] => []

/-- A name made of ASCII letters, digits and underscores that does not begin with a digit and is no
reserved word. -/
def safeName (name : String) : String :=
  let word := String.ofList (guardDigit (name.toList.filterMap safeChar?))
  if word ∈ reservedWords then word ++ "_" else word

/-- A text without its spaces. -/
def withoutSpaces (s : String) : String := String.ofList (s.toList.filter (· != ' '))

/-- The name of a property as the runtime knows it. -/
def endpointName (name : String) : String := safeName (withoutSpaces name)

/-- The identifier of a pin of a node. -/
def Identifier.ofPin (name : String) : Identifier := ofName (withoutSpaces name)

/-- The identifier of an input, an output or a local variable of a graph. -/
def Identifier.ofProperty (name : String) : Identifier := ofName (endpointName name)

end PoseGraph
