/-!
Types of alternatives that carry no values, with the names by which documents and messages know them.
-/

namespace PoseGraph

/-- A type of named alternatives. -/
class Enumerated (α : Type) where
  /-- All alternatives. -/
  all : List α
  /-- The name of an alternative. -/
  name : α → String

/-- The alternative with a name. -/
def Enumerated.ofName? {α : Type} [Enumerated α] (s : String) : Option α :=
  (all : List α).find? fun x => name x == s

end PoseGraph
