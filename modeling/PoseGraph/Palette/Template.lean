import PoseGraph.Palette

/-!
How templates of nodes are written down, and the templates that several palettes share.
-/

namespace PoseGraph.Template

/-- Color of the nodes that end a graph. -/
def outputColor : Color := ⟨255, 128, 128⟩
/-- Color of event nodes. -/
def eventColor : Color := ⟨255, 160, 60⟩
/-- Color of nodes with a body. -/
def blueprintColor : Color := ⟨54, 207, 145⟩
/-- Color of nodes that own a graph. -/
def subroutineColor : Color := ⟨236, 158, 36⟩
/-- Color of comparisons and boolean nodes. -/
def logicColor : Color := ⟨220, 48, 48⟩
/-- Color of arithmetic nodes. -/
def mathColor : Color := ⟨147, 226, 74⟩
/-- Color of array nodes. -/
def arrayColor : Color := ⟨68, 201, 156⟩

/-- A plain node. -/
def simple (name : String) (color : Color) (inputs outputs : List Pin) : Node :=
  { Node.ofName name color with inputs, outputs }

/-- A node with a body. -/
def blueprint (name : String) (inputs outputs : List Pin) : Node :=
  { simple name blueprintColor inputs outputs with type := .blueprint }

/-- A node that owns a graph. -/
def subroutine (name : String) (inputs outputs : List Pin) : Node :=
  { simple name subroutineColor inputs outputs with type := .subroutine }

/-- An input that holds another literal than its type's default. -/
def inputWith (name : String) (type : PinType) (v : Value) : Pin := (Pin.input name type).withValue v

/-- A number input. -/
def floatInput (name : String) (x : Scalar) : Pin := inputWith name .float (.float32 x)

/-- An integer input. -/
def intInput (name : String) (n : Int32) : Pin := inputWith name .int (.int32 n)

/-- A switch that is on. -/
def trueInput (name : String) : Pin := inputWith name .bool (.bool true)

/-- A node that computes a result from two operands. -/
def binary (name : String) (color : Color) (operand result : PinType) : Node :=
  simple name color [.input "Value 1" operand, .input "Value 2" operand] [.output "Out" result]

/-- A node that reads an element of an array. -/
def arrayGet (name : String) (element : PinType) : Node :=
  simple name arrayColor [(Pin.input "Array" element).asArray, .input "Index" .int]
    [.output "Element" element]

/-- A box for a comment. -/
def comment : Node :=
  { Node.ofName "Comment" ⟨255, 255, 255⟩ with type := .comment, size := ⟨300, 200⟩ }

/-- A node that fires a named event of the graph when it is triggered. -/
def event : Node :=
  simple "Event" eventColor [.input "Trigger" .flow, .input "Event ID" .string] []

/-- A transition between two states. Its pins are added when the states are joined. -/
def transition : Node :=
  { Node.ofName "Transition" ⟨200, 200, 200⟩ with
    type := .subroutine, category := stateMachineCategory }

/-- Access to array elements. -/
def arrays : List Node := [arrayGet "Get (Float)" .float, arrayGet "Get (Int)" .int]

/-- Comparisons, and operations on booleans. -/
def logic : List Node := [
  binary "Check Equal (Float)" logicColor .float .bool,
  binary "Check Not Equal (Float)" logicColor .float .bool,
  binary "Check Less (Float)" logicColor .float .bool,
  binary "Check Less Equal (Float)" logicColor .float .bool,
  binary "Check Greater (Float)" logicColor .float .bool,
  binary "Check Greater Equal (Float)" logicColor .float .bool,
  binary "Check Equal (Int)" logicColor .int .bool,
  binary "Check Not Equal (Int)" logicColor .int .bool,
  binary "Check Less (Int)" logicColor .int .bool,
  binary "Check Less Equal (Int)" logicColor .int .bool,
  binary "Check Greater (Int)" logicColor .int .bool,
  binary "Check Greater Equal (Int)" logicColor .int .bool,
  binary "And" logicColor .bool .bool,
  binary "Or" logicColor .bool .bool,
  simple "Not" logicColor [.input "Value" .bool] [.output "Out" .bool]]

/-- Arithmetic. -/
def math : List Node := [
  binary "Add (Float)" mathColor .float .float,
  binary "Subtract (Float)" mathColor .float .float,
  binary "Multiply (Float)" mathColor .float .float,
  simple "Divide (Float)" mathColor [.input "Value" .float, floatInput "Divisor" 1]
    [.output "Out" .float],
  binary "Min (Float)" mathColor .float .float,
  binary "Max (Float)" mathColor .float .float,
  simple "Clamp (Float)" mathColor
    [.input "In" .float, .input "Min" .float, floatInput "Max" 1] [.output "Out" .float],
  simple "Map Range (Float)" mathColor
    [.input "In" .float, .input "In Range Min" .float, floatInput "In Range Max" 1,
      .input "Out Range Min" .float, floatInput "Out Range Max" 1, trueInput "Clamped"]
    [.output "Out" .float],
  simple "Log" mathColor [floatInput "Base" 2.718281828459045, floatInput "Value" 1]
    [.output "Out" .float],
  simple "Power" mathColor [.input "Base" .float, floatInput "Exponent" 1] [.output "Out" .float],
  binary "Add (Int)" mathColor .int .int,
  binary "Subtract (Int)" mathColor .int .int,
  binary "Multiply (Int)" mathColor .int .int,
  simple "Divide (Int)" mathColor [.input "Value" .int, intInput "Divisor" 1]
    [.output "Out" .int],
  binary "Min (Int)" mathColor .int .int,
  binary "Max (Int)" mathColor .int .int,
  simple "Modulo" mathColor [.input "Value" .int, intInput "Modulo" 1] [.output "Out" .int]]

/-- Helpers for triggers. -/
def triggers : List Node := [
  blueprint "Bool Trigger" [.input "Trigger" .flow, .input "Value" .bool]
    [.output "True" .flow, .output "False" .flow]]

end PoseGraph.Template
