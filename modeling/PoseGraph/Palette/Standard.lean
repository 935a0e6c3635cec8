import PoseGraph.Palette.Template

/-!
The palettes of the four kinds of graphs.
-/

namespace PoseGraph

namespace Template

/-- The end of an animation graph. -/
def poseOutput : Node := simple "Output" outputColor [.input "Pose" .pose] []

/-- The end of a transition's condition. -/
def transitionOutput : Node :=
  simple "Output" outputColor
    [.input "Transition" .bool, .input "Synchronize" .bool, .input "Duration" .float] []

/-- A node that plays a clip. -/
def animationPlayer : Node :=
  blueprint "Animation Player"
    [.input "Animation" .animationAsset, floatInput "Playback Speed" 1, .input "Offset" .float,
      trueInput "Loop"]
    [.output "Pose" .pose, .output "On Finish" .flow, .output "On Loop" .flow]

/-- A state with a graph of its own. -/
def state : Node := { subroutine "State" [] [] with color := ⟨143, 188, 143⟩ }

/-- A state that plays a single clip. -/
def quickState : Node :=
  { blueprint "Quick State" [.input "Animation" .animationAsset] [] with color := ⟨51, 150, 215⟩ }

/-- Sources of poses. -/
def playback : List Node := [
  poseOutput,
  event,
  animationPlayer,
  blueprint "Sample Animation" [.input "Animation" .animationAsset, .input "Animation Time" .float]
    [.output "Pose" .pose],
  subroutine "State Machine" [] [.output "Pose" .pose]]

/-- Choices from arrays of clips. -/
def clipArrays : List Node := [
  arrayGet "Get Animation" .animationAsset,
  blueprint "Get Random Animation"
    [.input "Next" .flow, .input "Reset" .flow, (Pin.input "Array" .animationAsset).asArray,
      trueInput "No Repeats", intInput "Seed" (-1)]
    [.output "On Next" .flow, .output "Selected" .animationAsset]]

/-- Mixtures of poses. -/
def blends : List Node := [
  subroutine "Blend Space" [.input "X" .float, .input "Y" .float] [.output "Pose" .pose],
  subroutine "Conditional Blend"
    [.input "Base Pose" .pose, .input "Condition" .bool, floatInput "Weight" 1,
      .input "Blend Root Bone" .bone, floatInput "Blend In Duration" 0.1,
      floatInput "Blend Out Duration" 0.1]
    [.output "Pose" .pose],
  subroutine "One Shot"
    [.input "Trigger" .flow, .input "Base Pose" .pose, floatInput "Weight" 1,
      .input "Blend Root Bone" .bone, floatInput "Blend In Duration" 0.1,
      floatInput "Blend Out Duration" 0.1]
    [.output "Pose" .pose, .output "On Finish" .flow],
  blueprint "Pose Blend"
    [.input "Pose A" .pose, .input "Pose B" .pose, floatInput "Weight" 0.5,
      .input "Blend Root Bone" .bone]
    [.output "Pose" .pose],
  blueprint "Ranged Blend"
    [.input "Animation A" .animationAsset, .input "Animation B" .animationAsset,
      floatInput "Playback Speed A" 1, floatInput "Playback Speed B" 1, trueInput "Synchronize",
      .input "Offset A" .float, .input "Offset B" .float, trueInput "Loop",
      .input "Range A" .float, floatInput "Range B" 1, .input "Value" .float]
    [.output "Pose" .pose]]

/-- Inverse kinematics. -/
def kinematics : List Node := [
  blueprint "Aim IK"
    [.input "Pose" .pose, .input "Target" .vec3, floatInput "Weight" 1, .input "Bone" .bone,
      .input "Aim Offset" .vec3, inputWith "Aim Axis" .vec3 (.vec3 0 0 1),
      inputWith "Pole Vector" .vec3 (.vec3 0 1 0), intInput "Chain Length" 2,
      floatInput "Chain Factor" 0.5]
    [.output "Pose" .pose]]

/-- A vertex of a blend space, whose position is the node's offset. -/
def blendSpaceVertex : Node :=
  blueprint "Blend Space Vertex" [.input "Animation" .animationAsset, trueInput "Synchronize"] []

end Template

open Template

namespace Palette

/-- The palette of animation graphs. -/
def animation : Palette :=
  (empty .animation).registerAll "Animation" playback
    |>.registerAll "Array" arrays
    |>.registerAll "Array" clipArrays
    |>.registerAll "Blend" blends
    |>.registerAll "Inverse Kinematics" kinematics
    |>.registerAll "Logic" logic
    |>.registerAll "Math" math
    |>.registerAll "Trigger" triggers
    |>.registerAll "Utility" [comment]

/-- The palette of state machines. -/
def stateMachine : Palette :=
  (empty .stateMachine).registerAll stateMachineCategory
      [subroutine "State Machine" [] [], state, quickState]
    |>.registerAll "Utility" [comment]

/-- The palette of the conditions of transitions. -/
def transition : Palette :=
  (empty .transition).registerAll "Transition" [transitionOutput, event]
    |>.registerAll "Array" arrays
    |>.registerAll "Logic" logic
    |>.registerAll "Math" math
    |>.registerAll "Trigger" triggers
    |>.registerAll "Utility" [comment]

/-- The palette of blend spaces. -/
def blendSpace : Palette := (empty .blendSpace).registerAll "BlendSpace" [blendSpaceVertex]

/-- The palette of a kind of graph. -/
def ofKind : GraphKind → Palette
  | .animation => animation
  | .stateMachine => stateMachine
  | .transition => transition
  | .blendSpace => blendSpace

/-- Whether the runtime knows a type of nodes. -/
def isRuntimeType (name : String) : Bool :=
  name == "Transition"
    || [animation, stateMachine, transition, blendSpace].any fun p => p.containsType name

end Palette

end PoseGraph
