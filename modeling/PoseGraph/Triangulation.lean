import PoseGraph.Identity

/-!
Delaunay triangulation of the vertices of a blend space.

A triple of vertices is a candidate if it is not flat and no other vertex lies in its circumcircle.
Vertices on a common circle leave several candidates over one area; candidates are taken in index
order, and one that overlaps a triangle already taken is left out. `chooseTriangles` is this choice
for any three tests, `triangulate` makes it for points of the plane in double precision.
-/

namespace PoseGraph

/-- Three indices of vertices, in increasing order where the triangulation makes them. -/
structure Triangle where
  first : Nat
  second : Nat
  third : Nat
  deriving DecidableEq

namespace Triangle

/-- The indices as a list. -/
def corners (t : Triangle) : List Nat := [t.first, t.second, t.third]

/-- The edges, each with its ends in the order of the corners. -/
def edges (t : Triangle) : List (Nat × Nat) :=
  [(t.first, t.second), (t.second, t.third), (t.third, t.first)]

/-- All triples of increasing indices below `n`, in lexicographic order. -/
def increasing (n : Nat) : List Triangle :=
  (List.range n).flatMap fun i =>
    (List.range' (i + 1) (n - (i + 1))).flatMap fun j =>
      (List.range' (j + 1) (n - (j + 1))).map fun k => ⟨i, j, k⟩

end Triangle

/-- Whether a triple of `n` vertices is not flat and has no other vertex in its circumcircle. -/
def isDelaunay (n : Nat) (flat : Triangle → Bool) (inCircle : Triangle → Nat → Bool)
    (t : Triangle) : Bool :=
  !flat t && (List.range n).all fun v => t.corners.contains v || !inCircle t v

/-- Take candidates in order, each one that overlaps none taken before. -/
def takeDisjoint (overlap : Triangle → Triangle → Bool) (candidates : List Triangle) :
    List Triangle :=
  candidates.foldl
    (fun taken t => if taken.any fun s => overlap s t then taken else taken ++ [t]) []

/-- The triangulation of `n` vertices, given what it asks about triples. -/
def chooseTriangles (n : Nat) (flat : Triangle → Bool) (inCircle : Triangle → Nat → Bool)
    (overlap : Triangle → Triangle → Bool) : List Triangle :=
  takeDisjoint overlap ((Triangle.increasing n).filter (isDelaunay n flat inCircle))

namespace Double

/-- One with the sign of a number, also of a zero; a NaN stays. -/
def sign (x : Float) : Float :=
  if x.isNaN then x else if x.toBits >>> 63 == 0 then 1 else -1

/-- The greater number; a NaN yields to the other one. -/
def greater (x y : Float) : Float :=
  if x.isNaN then y else if y.isNaN then x else if x < y then y else x

/-- A longer leg exceeds a shorter one by this factor or more if the shorter one does not change the
hypotenuse by more than rounding. -/
def negligible : Float := (1 : Float).scaleB (-54)

/-- An approximate root `h` of `x * x + y * y`, for `0 ≤ y ≤ x`, after one step of Newton's method.
The remainder `h * h - x * x - y * y` is summed up from small terms, so that little of it is lost. -/
def refineRoot (x y h : Float) : Float :=
  let remainder :=
    if h ≤ 2 * y then
      let d := h - y
      x * (2 * d - x) + (d - 2 * (x - y)) * d
    else
      let d := h - x
      2 * d * (x - 2 * y) + ((4 * d - y) * y + d * d)
  h - remainder / (2 * h)

/-- Length of the hypotenuse over two legs. The legs are differences of single-precision numbers, so
that their squares stay in range. -/
def hypotenuse (x y : Float) : Float :=
  if x.isInf || y.isInf then Float.ofBits 0x7ff0000000000000
  else if x.isNaN || y.isNaN then x + y
  else
    let long := if x.abs < y.abs then y.abs else x.abs
    let short := if x.abs < y.abs then x.abs else y.abs
    if short ≤ long * negligible then long + short
    else refineRoot long short (long * long + short * short).sqrt

end Double

/-- A point in double precision. -/
structure Vertex where
  x : Float
  y : Float

namespace Vertex

/-- A point of a blend space. -/
def ofPoint (p : Point) : Vertex := ⟨p.x.toDouble, p.y.toDouble⟩

/-- Twice the signed area of a triangle. -/
def cross (a b c : Vertex) : Float := (b.x - a.x) * (c.y - a.y) - (c.x - a.x) * (b.y - a.y)

/-- Distance of two points. -/
def distance (a b : Vertex) : Float := Double.hypotenuse (a.x - b.x) (a.y - b.y)

end Vertex

namespace Triangle

/-- Products up to this size count as zero. -/
def tolerance : Float := 1e-12

/-- A vertex by index. -/
def vertex (vertices : Array Vertex) (i : Nat) : Vertex := vertices.getD i ⟨0, 0⟩

/-- Twice the signed area of the triangle over three vertices. -/
def orient (vertices : Array Vertex) (t : Triangle) : Float :=
  (vertex vertices t.first).cross (vertex vertices t.second) (vertex vertices t.third)

/-- Whether three vertices are on a line. -/
def isFlat (vertices : Array Vertex) (t : Triangle) : Bool :=
  (orient vertices t).abs ≤ tolerance

/-- Whether a vertex is inside the circle through three others. -/
def inCircumcircle (vertices : Array Vertex) (t : Triangle) (v : Nat) : Bool :=
  let p := vertex vertices v
  let a := vertex vertices t.first
  let b := vertex vertices t.second
  let c := vertex vertices t.third
  let ax := a.x - p.x
  let ay := a.y - p.y
  let bx := b.x - p.x
  let by₁ := b.y - p.y
  let cx := c.x - p.x
  let cy := c.y - p.y
  let det := (ax * ax + ay * ay) * (bx * cy - cx * by₁) - (bx * bx + by₁ * by₁) * (ax * cy - cx * ay)
    + (cx * cx + cy * cy) * (ax * by₁ - bx * ay)
  tolerance < det * Double.sign (orient vertices t)

/-- Whether an edge of a triangle has all corners of another one on its outer side. -/
def separates (vertices : Array Vertex) (t other : Triangle) : Bool :=
  let side := Double.sign (orient vertices t)
  t.edges.any fun (i, j) => other.corners.all fun k =>
    (vertex vertices i).cross (vertex vertices j) (vertex vertices k) * side ≤ tolerance

/-- Whether the interiors of two triangles meet. -/
def overlaps (vertices : Array Vertex) (s t : Triangle) : Bool :=
  !separates vertices s t && !separates vertices t s

/-- Area of a triangle. -/
def area (vertices : Array Vertex) (t : Triangle) : Float := (orient vertices t).abs * 0.5

/-- Whether a triangle is too small or too thin. Its width is the longest edge, its height the
altitude onto that edge. -/
def isDegenerate (vertices : Array Vertex) (t : Triangle) (minArea minExtent : Float) : Bool :=
  let size := area vertices t
  if size < minArea then true
  else
    let a := vertex vertices t.first
    let b := vertex vertices t.second
    let c := vertex vertices t.third
    let width := Double.greater (Double.greater (a.distance b) (b.distance c)) (c.distance a)
    let height := 2 * size / width
    width < minExtent || height < minExtent

end Triangle

/-- Points in double precision. -/
def vertices (points : List Point) : Array Vertex := (points.map Vertex.ofPoint).toArray

/-- Whether two points of a list are at the same place. -/
def hasDuplicates : List Point → Bool
  | [] => false
  | p :: ps => ps.any p.same || hasDuplicates ps

/-- The triangulation of points. Fewer than three points, or points on one line, have none. -/
def triangulate (points : List Point) : List Triangle :=
  let vs := vertices points
  chooseTriangles points.length (Triangle.isFlat vs) (Triangle.inCircumcircle vs)
    (Triangle.overlaps vs)

end PoseGraph
