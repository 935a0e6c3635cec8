import PoseGraph.Identity
import PoseGraph.Value

/-!
Pins: the typed inputs and outputs of nodes.

A pin holds a literal value, which an input loses (it becomes void) while a link feeds it.
-/

namespace PoseGraph

/-- Direction of a pin. -/
inductive PinKind
  | input
  | output
  deriving DecidableEq

instance : Enumerated PinKind where
  all := [.input, .output]
  name
    | .input => "Input"
    | .output => "Output"

/-- Whether a pin carries one value or an array of values. -/
inductive StorageKind
  | value
  | array
  deriving DecidableEq

instance : Enumerated StorageKind where
  all := [.value, .array]
  name
    | .value => "Value"
    | .array => "Array"

/-- Type of the data that a pin carries. -/
inductive PinType
  /-- Execution trigger. -/
  | flow
  | bool
  | int
  | float
  | vec3
  /-- Animation clip. -/
  | animationAsset
  | string
  | skeletonAsset
  | enum
  /-- Skeletal pose. -/
  | pose
  /-- Bone name, resolved to an index by compilation. -/
  | bone
  deriving DecidableEq

instance : Enumerated PinType where
  all := [.flow, .bool, .int, .float, .vec3, .animationAsset, .string, .skeletonAsset, .enum,
    .pose, .bone]
  name
    | .flow => "Flow"
    | .bool => "Bool"
    | .int => "Int"
    | .float => "Float"
    | .vec3 => "Vec3"
    | .animationAsset => "AnimationAsset"
    | .string => "String"
    | .skeletonAsset => "SkeletonAsset"
    | .enum => "Enum"
    | .pose => "Pose"
    | .bone => "Bone"

namespace PinType

/-- Display color of a type. -/
def color : PinType → Color
  | flow | bone => ⟨200, 200, 200⟩
  | bool => ⟨220, 48, 48⟩
  | int => ⟨68, 201, 156⟩
  | float => ⟨147, 226, 74⟩
  | vec3 => ⟨251, 199, 34⟩
  | animationAsset => ⟨51, 150, 215⟩
  | string => ⟨194, 75, 227⟩
  | skeletonAsset => ⟨215, 150, 51⟩
  | enum => ⟨2, 92, 48⟩
  | pose => ⟨255, 255, 0⟩

/-- The value of a new pin. A pose of zero stands for the bind pose. -/
def defaultValue : PinType → Value
  | flow => .flow
  | bool => .bool false
  | int => .int32 0
  | float => .float32 .zero
  | vec3 => .vec3 .zero .zero .zero
  | animationAsset => .ofHandle .animation 0
  | string => .string ""
  | skeletonAsset => .ofHandle .skeleton 0
  | enum => .enumeration (-1)
  | pose => .int64 0
  | bone => .bone "root"

/-- The pin type of objects of a class; unknown classes count as triggers. -/
def ofClassName (className : String) : PinType :=
  if className = "AnimationAsset" then animationAsset
  else if className = "SkeletonAsset" then skeletonAsset
  else if className = Value.boneClass then bone
  else if className = Value.enumClass then enum
  else flow

/-- The pin type of a value; that of an array is the type of its first element. -/
def ofValue : Value → PinType
  | .array [] => flow
  | .array (v :: _) => ofValue v
  | .void => flow
  | .bool _ => bool
  | .int32 _ => int
  | .int64 _ => pose
  | .float32 _ => float
  | .string _ => string
  | .vec3 _ _ _ => vec3
  | .object c _ => ofClassName c

end PinType

/-- The storage that a value needs. -/
def StorageKind.ofValue (v : Value) : StorageKind := if v.isArray then .array else .value

/-- A pin of a node. -/
structure Pin where
  id : PinId
  /-- The node that has the pin. -/
  node : NodeId
  name : String
  /-- Literal value; void while a link feeds an input. -/
  value : Value
  storage : StorageKind
  kind : PinKind
  type : PinType

namespace Pin

/-- A pin that holds its type's default value and is not bound to a node yet. -/
def ofType (name : String) (type : PinType) (kind : PinKind) : Pin :=
  { id := ⟨0⟩, node := .root, name, value := type.defaultValue, storage := .value, kind, type }

/-- An unbound input. -/
def input (name : String) (type : PinType) : Pin := ofType name type .input

/-- An unbound output. -/
def output (name : String) (type : PinType) : Pin := ofType name type .output

/-- The same pin with another literal. -/
def withValue (p : Pin) (v : Value) : Pin := { p with value := v }

/-- The same pin as an array pin without elements. -/
def asArray (p : Pin) : Pin := { p with storage := .array, value := .void }

/-- Whether a pin carries triggers. -/
def isFlow (p : Pin) : Bool := p.type == .flow

/-- Whether two pins have the same type. -/
def sameType (p q : Pin) : Bool := p.type == q.type

/-- The same pin with the type and storage of a value, holding that value. -/
def retag (p : Pin) (v : Value) : Pin :=
  { p with type := .ofValue v, storage := .ofValue v, value := v }

/-- The value a pin falls back to when nothing feeds it and its node declares none. -/
def fallbackValue (p : Pin) : Value :=
  match p.storage with
  | .array => .void
  | .value => p.type.defaultValue

/-- An unbound pin that stands for a property with the given value. -/
def ofProperty (name : String) (v : Value) (kind : PinKind) : Pin :=
  (ofType name (.ofValue v) kind).retag v

/-- Pins of one list, numbered upwards and bound to a node. -/
def bindFrom (node : NodeId) (kind : PinKind) : Nat → List Pin → List Pin
  | _, [] => []
  | next, p :: ps => { p with id := ⟨next⟩, node, kind } :: bindFrom node kind (next + 1) ps

/-- Equality with numbers compared by value. -/
def same (p q : Pin) : Bool :=
  p.id == q.id && p.node == q.node && p.name == q.name && p.value.same q.value
    && p.storage == q.storage && p.kind == q.kind && p.type == q.type

end Pin

end PoseGraph
