import PoseGraph.Scalar.Decimal

/-!
Settings of validation and compilation.
-/

namespace PoseGraph

/-- What is reported about a graph that can be compiled. -/
structure Settings where
  /-- Triangles of a blend space with a smaller area are reported as degenerate. -/
  minTriangleArea : Scalar := 0.001
  /-- Triangles of a blend space that are narrower than this are reported as degenerate. -/
  minTriangleExtent : Scalar := 0.01
  /-- Whether to warn of triggers that read a local variable which nothing triggers. -/
  warnOnUntriggeredFlowVariables : Bool := true
  deriving DecidableEq

/-- The settings where none are given. -/
def Settings.default : Settings := {}

end PoseGraph
