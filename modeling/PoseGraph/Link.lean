import PoseGraph.Identity

/-!
Links: directed edges from an output pin to an input pin.
-/

namespace PoseGraph

/-- A link. -/
structure Link where
  id : LinkId
  /-- The producing pin. -/
  source : PinId
  /-- The consuming pin. -/
  target : PinId
  /-- Display color, that of the producing pin's type. -/
  color : Color
  deriving DecidableEq, Inhabited

/-- Whether a link touches a pin. -/
def Link.touches (l : Link) (pin : PinId) : Bool := l.source == pin || l.target == pin

end PoseGraph
