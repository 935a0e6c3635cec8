import PoseGraph.Scalar

/-!
Identities of nodes, pins and links.

An identity is a number. New ones are drawn in increasing order, so that the order of node
identities is the order of creation; zero is drawn for nothing and stands for the top level of an
asset where a node is expected.
-/

namespace PoseGraph

/-- Identity of a node. -/
structure NodeId where
  value : Nat
  deriving DecidableEq, Inhabited

/-- Identity of a pin. -/
structure PinId where
  value : Nat
  deriving DecidableEq, Inhabited

/-- Identity of a link. -/
structure LinkId where
  value : Nat
  deriving DecidableEq, Inhabited

namespace NodeId

/-- The owner of the top-level graph. -/
def root : NodeId := ⟨0⟩

/-- Whether this stands for the top level. -/
def isRoot (id : NodeId) : Bool := id == root

/-- The text of an identity in messages. -/
def toText (id : NodeId) : String := "NodeId(" ++ Nat.repr id.value ++ ")"

end NodeId

/-- The text of an identity in messages. -/
def PinId.toText (id : PinId) : String := "PinId(" ++ Nat.repr id.value ++ ")"

/-- The first number from which identities are drawn. -/
def firstFreshIdentity : Nat := Nat.pow 2 40

/-- A display color. -/
structure Color where
  red : UInt8
  green : UInt8
  blue : UInt8
  deriving DecidableEq, Inhabited

/-- A point or an extent in the plane. -/
structure Point where
  x : Scalar
  y : Scalar
  deriving DecidableEq, Inhabited

namespace Point

/-- The point with both coordinates zero. -/
def zero : Point := ⟨Scalar.zero, Scalar.zero⟩

/-- Equality of coordinates as numbers. -/
def same (a b : Point) : Bool := a.x.same b.x && a.y.same b.y

/-- The middle of a segment. -/
def midpoint (a b : Point) : Point := ⟨a.x.midpoint b.x, a.y.midpoint b.y⟩

end Point

end PoseGraph
