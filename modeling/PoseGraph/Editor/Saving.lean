import PoseGraph.Asset.Document
import PoseGraph.EvaluationOrder

/-!
Saving an asset and taking it up again.

What is saved is in evaluation order, so that the order of a saved asset does not depend on how it
was edited.
-/

namespace PoseGraph.Editor

/-- Put the asset into order and write it. -/
def save (e : Editor) : Editor × Option String :=
  let e := e.sort
  (e, e.asset.write)

/-- Edit another asset with the same catalog and settings, from its top level. -/
def reopen (e : Editor) (asset : Asset) : Editor := ofAsset asset e.catalog e.settings e.nextId

end PoseGraph.Editor
