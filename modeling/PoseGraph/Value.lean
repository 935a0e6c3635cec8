import PoseGraph.Enumerated
import PoseGraph.Scalar.Decimal
import PoseGraph.Table

/-!
Values held by pins and properties.

Most pin types map onto one constructor. Asset handles, bones, enumerations and triggers are objects
tagged with a class name (`Value.ofHandle`, `Value.bone`, `Value.enumeration`, `Value.flow`), so that
compilation can recognise and lower them.

`Value.same` compares as a user does: numbers by value and members in any order. Equality of terms
is finer, it compares the bits of numbers and the order of members.
-/

namespace PoseGraph

/-- Kinds of assets that a value can refer to. -/
inductive AssetType
  | animation
  | skeleton
  deriving DecidableEq

instance : Enumerated AssetType where
  all := [.animation, .skeleton]
  name
    | .animation => "Animation"
    | .skeleton => "Skeleton"

/-- The class of the object that holds a handle of an asset. -/
def AssetType.className : AssetType → String
  | .animation => "AnimationAsset"
  | .skeleton => "SkeletonAsset"

/-- The kind of asset that a class of objects holds handles of. -/
def AssetType.ofClassName? (s : String) : Option AssetType :=
  if s = "AnimationAsset" then some .animation
  else if s = "SkeletonAsset" then some .skeleton
  else none

/-- Handle of an asset, where 0 is no asset. -/
abbrev AssetHandle := UInt64

/-- A value. The members of an object have distinct names, in order of declaration. -/
inductive Value
  /-- No value: what an input holds while a link feeds it. -/
  | void
  | bool (b : Bool)
  | int32 (n : Int32)
  | int64 (n : Int64)
  | float32 (x : Scalar)
  | string (s : String)
  | vec3 (x y z : Scalar)
  | array (elements : List Value)
  | object (className : String) (members : List (String × Value))

namespace Value

instance : Inhabited Value := ⟨void⟩

/-- Class of triggers. -/
def flowClass : String := "Flow"
/-- Class of bone names. -/
def boneClass : String := "Bone"
/-- Class of enumeration values. -/
def enumClass : String := "Enum"
/-- Name of the member that holds what an object wraps. -/
def valueMember : String := "Value"

/-- The trigger marker. -/
def flow : Value := object flowClass []

/-- A handle, stored bit for bit as a signed number. -/
def ofHandle (type : AssetType) (handle : AssetHandle) : Value :=
  object type.className [(valueMember, int64 handle.toInt64)]

/-- A bone, by name. -/
def bone (name : String) : Value := object boneClass [(valueMember, string name)]

/-- A value of an enumeration. -/
def enumeration (n : Int32) : Value := object enumClass [(valueMember, int32 n)]

def isVoid : Value → Bool
  | void => true
  | _ => false

def isString : Value → Bool
  | string _ => true
  | _ => false

def isArray : Value → Bool
  | array _ => true
  | _ => false

def asBool? : Value → Option Bool
  | bool b => some b
  | _ => none

def asString? : Value → Option String
  | string s => some s
  | _ => none

def asArray? : Value → Option (List Value)
  | array vs => some vs
  | _ => none

def className? : Value → Option String
  | object c _ => some c
  | _ => none

def members? : Value → Option (List (String × Value))
  | object _ ms => some ms
  | _ => none

/-- The member of an object with a given name. -/
def member? (v : Value) (name : String) : Option Value := v.members?.bind (Entries.get? · name)

/-- Whether a value is an object of a class. -/
def isObjectOf (v : Value) (className : String) : Bool := v.className? == some className

/-- Whether a value is a trigger marker. -/
def isFlow (v : Value) : Bool := v.isObjectOf flowClass

/-- The kind of asset that a value holds a handle of. -/
def assetType? (v : Value) : Option AssetType := v.className?.bind AssetType.ofClassName?

/-- The handle that a value holds, of whatever kind of asset. -/
def asHandle? (v : Value) : Option AssetHandle :=
  if v.assetType?.isSome then
    match v.member? valueMember with
    | some (int64 n) => some n.toUInt64
    | _ => none
  else none

/-- The bone name that a value holds. -/
def asBoneName? (v : Value) : Option String :=
  if v.isObjectOf boneClass then (v.member? valueMember).bind asString? else none

/-- The name of a value's type. An array is named after its first element, an object after its
class. -/
def typeName : Value → String
  | void => "Void"
  | bool _ => "Bool"
  | int32 _ => "Int32"
  | int64 _ => "Int64"
  | float32 _ => "Float32"
  | string _ => "String"
  | vec3 _ _ _ => "Vec3"
  | array [] => "Array<Void>"
  | array (v :: _) => "Array<" ++ v.typeName ++ ">"
  | object c _ => c

/-- Whether two values have the same type. -/
def sameType (a b : Value) : Bool := a.typeName == b.typeName

mutual

/-- Whether two values are equal, numbers compared by value and members in any order. -/
def same : Value → Value → Bool
  | void, void => true
  | bool a, bool b => a == b
  | int32 a, int32 b => a == b
  | int64 a, int64 b => a == b
  | float32 a, float32 b => a.same b
  | string a, string b => a == b
  | vec3 a b c, vec3 a' b' c' => a.same a' && b.same b' && c.same c'
  | array vs, array ws => sameElements vs ws
  | object c ms, object c' ms' => c == c' && ms.length == ms'.length && sameMembers ms ms'
  | _, _ => false

/-- Whether two lists are equal element by element. -/
def sameElements : List Value → List Value → Bool
  | [], [] => true
  | v :: vs, w :: ws => v.same w && sameElements vs ws
  | _, _ => false

/-- Whether each member has an equal one of that name in another list. -/
def sameMembers : List (String × Value) → List (String × Value) → Bool
  | [], _ => true
  | (name, v) :: ms, ms' =>
    (match Entries.get? ms' name with
      | some w => v.same w
      | none => false) && sameMembers ms ms'

end

end Value

end PoseGraph
