import PoseGraph.Document.Layout
import PoseGraph.Document.Schema
import PoseGraph.Settings

/-!
Settings in documents, the form in which they are saved.
-/

namespace PoseGraph.Settings

open Document

/-- The term of settings. -/
def toTerm (s : Settings) : Term :=
  .record none [
    ("min_triangle_area", .ofScalar s.minTriangleArea),
    ("min_triangle_extent", .ofScalar s.minTriangleExtent),
    ("warn_on_untriggered_flow_variables", .ofBool s.warnOnUntriggeredFlowVariables)]

/-- The settings that a term describes. Those that it does not mention have their default. -/
def ofTerm? : Decoder Settings := fun s t => do
  let fields ← Decoder.fields "CompilerSettings"
    ["min_triangle_area", "min_triangle_extent", "warn_on_untriggered_flow_variables"] s t
  return {
    minTriangleArea :=
      ← fields.valueOr "min_triangle_area" Decoder.scalar Settings.default.minTriangleArea
    minTriangleExtent :=
      ← fields.valueOr "min_triangle_extent" Decoder.scalar Settings.default.minTriangleExtent
    warnOnUntriggeredFlowVariables :=
      ← fields.valueOr "warn_on_untriggered_flow_variables" Decoder.bool
        Settings.default.warnOnUntriggeredFlowVariables }

/-- The text of settings. They do not nest, so that writing cannot fail. -/
def write (s : Settings) : String := String.ofList (s.toTerm.layout 0)

/-- The settings that a text describes. -/
def read (s : String) : Option Settings := do
  let document ← Document.read s
  ofTerm? document.scope document.term

end PoseGraph.Settings
