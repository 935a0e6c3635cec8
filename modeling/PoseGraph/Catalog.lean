import PoseGraph.Table
import PoseGraph.Value

/-!
The assets that a graph can refer to.
-/

namespace PoseGraph

/-- An asset outside the graph. -/
inductive CatalogEntry
  | animation (name : String)
  /-- A skeleton with its bones in index order. -/
  | skeleton (name : String) (bones : List String)

/-- Index of a bone that is not found. -/
def nullBoneIndex : UInt32 := 0xffffffff

/-- Known assets by handle. A handle that is added again replaces the asset. -/
abbrev Catalog := Table AssetHandle CatalogEntry

namespace Catalog

/-- Whether a handle stands for a known asset. -/
def isValid (c : Catalog) (handle : AssetHandle) : Bool := handle != 0 && c.contains handle

/-- Index of a bone in a skeleton. -/
def findBone? (c : Catalog) (skeleton : AssetHandle) (bone : String) : Option UInt32 :=
  match c.get? skeleton with
  | some (.skeleton _ bones) =>
    (bones.findIdx? (· == bone)).bind fun i => if i < UInt32.size then some (UInt32.ofNat i) else none
  | _ => none

/-- Display name of an asset. -/
def nameOf? (c : Catalog) (handle : AssetHandle) : Option String :=
  (c.get? handle).map fun
    | .animation name => name
    | .skeleton name _ => name

end Catalog

end PoseGraph
