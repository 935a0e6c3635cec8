import Mathlib.Algebra.Group.Nat.Defs
import PoseGraph.Proofs.PropertyNames
import PoseGraph.Proofs.PrototypeTree

/-! Values in prototypes. An editor wraps the handles of assets and the names of bones into objects that no
runtime knows. Wherever a value of the asset gets into a prototype, numbers stand for what was wrapped, in
arrays at any depth, and all else is as it was. -/
namespace PoseGraph.RuntimeValues
open AssetOrder CompiledGraphs EditRuns Editor LoweringFailures LoweringSemantics IndexRanks PropertyNames PrototypeTree
  Rearrangement

variable {e : Editor} {g : SubGraph} {n : Node} {p q : Prototype} {owner : NodeId} {session : CompileSession}
variable {u v w : Value} {vs ws : List Value} {bones : List String} {bone : String} {boneIndex : String → UInt32}

/-! ## Values in arrays -/

/-- A value is met in itself, and in an array if it is met in one of its elements. -/
inductive Within (u : Value) : Value → Prop where
  | self : Within u u
  | element {v : Value} {vs : List Value} (member : v ∈ vs) (inner : Within u v) : Within u (.array vs)

/-- The number of a bone. The root comes before the bones of the skeleton; what is no bone has none, and neither
has a bone for which it is too large. Nothing is said of the one place whose successor does not fit into 32 bits. -/
structure Numbered (bones : List String) (bone : String) (number : Int32) : Prop where
  root : bone = "root" → number = 0
  near : ∀ i, bone ≠ "root" → bones.idxOf? bone = some i → i + 1 < 2 ^ 31 → number.toInt = i + 1
  far : ∀ i, bone ≠ "root" → bones.idxOf? bone = some i → 2 ^ 31 ≤ i + 1 → i + 1 ≠ 2 ^ 32 → number = -1
  missing : bone ≠ "root" → bone ∉ bones → number = -1

/-- What a value becomes for the runtime. -/
inductive Translated (bones : List String) : Value → Value → Prop where
  | handle {v : Value} {h : AssetHandle} {n : Int64} (held : v.asHandle? = some h) (bits : n.toUInt64 = h) :
      Translated bones v (.int64 n)
  | bone {v : Value} {name : String} {n : Int32} (named : v.asBoneName? = some name) (number : Numbered bones name n) :
      Translated bones v (.int32 n)
  | array {vs ws : List Value} (each : List.Forall₂ (Translated bones) vs ws) : Translated bones (.array vs) (.array ws)
  | other {v : Value} (simple : v.isArray = false) (handle : v.asHandle? = none) (name : v.asBoneName? = none) :
      Translated bones v v

/-- An endpoint holds what a value becomes. -/
structure Literal (bones : List String) (id : Identifier) (v : Value) (plug : Endpoint) : Prop where
  id : plug.id = id
  value : Translated bones v plug.value

/-- The literals of a runtime node are those of its node's inputs, with numbers besides. -/
structure Furnished (bones : List String) (n : Node) (r : RuntimeNode Prototype) : Prop where
  id : r.id = n.id
  plugs : ∃ literals numbers, r.plugs = literals ++ numbers ∧
    List.Forall₂ (fun pin : Pin => Literal bones (.ofPin pin.name) pin.value) (n.inputs.filter Pin.hasLiteral) literals ∧
    ∀ plug ∈ numbers, ∃ x, plug.value = .float32 x

end PoseGraph.RuntimeValues
