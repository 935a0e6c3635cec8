import PoseGraph.EvaluationOrder
import PoseGraph.Validation

/-!
Compilation of a sorted asset into a prototype.

The asset is validated first, and any error stops the compilation. Then each graph is lowered: its
output and inputs become endpoints, nodes become runtime nodes with the literals of their unlinked
inputs, and links become flat connections. Nodes that stand for properties never become runtime
nodes; a link that reads a local variable is led back to what feeds the variable's setter, and to
the variable's literal if nothing does.
-/

namespace PoseGraph

/-- Why a graph cannot be lowered. -/
inductive ParseError
  /-- A node owns no graph but should. -/
  | missingSubGraph (owner : NodeId)
  /-- A link ends at a pin that does not exist. -/
  | missingPin (pin : PinId)
  | missingEventName (node : NodeId)
  | unsupportedInputAction (node : NodeId)
  /-- The graph of a node with the given label cannot be lowered. -/
  | subroutine (label : String) (cause : ParseError)
  deriving DecidableEq

/-- The wording of an error. -/
def ParseError.message : ParseError → String
  | missingSubGraph owner => "Sub-graph " ++ owner.toText ++ " does not exist"
  | missingPin pin => "Link references missing pin " ++ pin.toText
  | missingEventName node => "Event node " ++ node.toText ++ " has no event name"
  | unsupportedInputAction node => "Input actions are not supported (node " ++ node.toText ++ ")"
  | subroutine label cause => "Failed to parse sub-graph of " ++ quoted label ++ ": " ++ cause.message

/-- Why an asset cannot be compiled. -/
inductive CompileError
  /-- The asset is not valid; a headline and all errors of the report. -/
  | invalidGraph (lines : List String)
  | parse (cause : ParseError)
  deriving DecidableEq

/-- The wording of an error. -/
def CompileError.message : CompileError → String
  | invalidGraph lines => "\n".intercalate lines
  | parse cause => "Failed to construct animation graph prototype: " ++ cause.message

/-- What compilations leave behind. -/
structure CompileSession where
  /-- The first name that was registered for each identifier. -/
  names : Table Identifier String
  /-- All warnings so far. -/
  warnings : List String

namespace CompileSession

/-- The session before any compilation. -/
def empty : CompileSession := ⟨.empty, []⟩

/-- Add warnings. -/
def warn (s : CompileSession) (lines : List String) : CompileSession :=
  { s with warnings := s.warnings ++ lines }

/-- Remember a name for display, unless its identifier has one. -/
def register (s : CompileSession) (name : String) : CompileSession :=
  if s.names.contains (.ofName name) then s
  else { s with names := s.names.insert (.ofName name) name }

/-- The name registered for an identifier. -/
def nameOf? (s : CompileSession) (id : Identifier) : Option String := s.names.get? id

end CompileSession

/-- What lowering yields: a result or the first error, and the warnings up to there. -/
structure Lowering (α : Type) where
  result : Except ParseError α
  warnings : List String

namespace Lowering

/-- A result without warnings. -/
def ofResult {α : Type} (r : Except ParseError α) : Lowering α := ⟨r, []⟩

/-- A failure. -/
def fail {α : Type} (error : ParseError) : Lowering α := ⟨.error error, []⟩

/-- Go on with a result; the warnings of both steps count. -/
def andThen {α β : Type} (x : Lowering α) (f : α → Lowering β) : Lowering β :=
  match x.result with
  | .error error => ⟨.error error, x.warnings⟩
  | .ok a => ⟨(f a).result, x.warnings ++ (f a).warnings⟩

instance : Monad Lowering where
  pure a := ⟨.ok a, []⟩
  bind := andThen

/-- Change the error. -/
def mapError {α : Type} (f : ParseError → ParseError) (x : Lowering α) : Lowering α :=
  { x with result := x.result.mapError f }

end Lowering

namespace Value

/-- The index of a bone as a signed number; an index that does not fit becomes -1. -/
def boneNumber (index : UInt32) : Int32 := if index < 0x80000000 then index.toInt32 else -1

mutual

/-- The runtime form of a value: handles become numbers with the same bits and bones become indices,
in arrays at any depth. -/
def toRuntime (boneIndex : String → UInt32) : Value → Value
  | array vs => array (allToRuntime boneIndex vs)
  | v =>
    match v.asHandle?, v.asBoneName? with
    | some handle, _ => int64 handle.toInt64
    | none, some name => int32 (boneNumber (boneIndex name))
    | none, none => v

/-- The runtime form of each value. -/
def allToRuntime (boneIndex : String → UInt32) : List Value → List Value
  | [] => []
  | v :: vs => v.toRuntime boneIndex :: allToRuntime boneIndex vs

end

end Value

/-- Whether a pin has a literal that the runtime needs. -/
def Pin.hasLiteral (p : Pin) : Bool := !p.value.isVoid && !p.value.isString && !p.isFlow

namespace SubGraph

/-- Follow local variables back to the node and pin that feed them, over at most `hops` of them.
None if a variable is not fed, or if the variables go round in a circle. -/
def resolveWithin (g : SubGraph) : Nat → Node → Pin → Option (Node × Pin)
  | hops, n, p =>
    if n.isLocalVariable then
      match hops with
      | 0 => none
      | hops + 1 =>
        n.variableName?.bind fun name =>
          (g.source? name).bind fun p =>
            (g.nodeOfPin? p.id).bind fun n => g.resolveWithin hops n p
    else some (n, p)

/-- Follow local variables back to the node and pin that feed them. A chain that ends passes each
node of the graph once at most. -/
def resolve (g : SubGraph) (n : Node) (p : Pin) : Option (Node × Pin) :=
  g.resolveWithin g.nodes.length n p

end SubGraph

/-- Names of nodes at the boundary of a graph, which are no runtime nodes. -/
def boundaryNames : List String := ["Input Action", "Input", "Output", "Event"]

/-- Whether a node becomes a runtime node. In a container all nodes count, elsewhere those with a
place in the evaluation order. -/
def Node.isEmitted (n : Node) (container : Bool) : Bool :=
  !n.isLocalVariable && !n.isComment && !boundaryNames.contains n.name && (container || n.isSorted)

namespace Editor

/-- The runtime form of a value. -/
def toRuntime (e : Editor) (v : Value) : Value := v.toRuntime e.boneIndex

/-- Whether the graph of an owner is compiled whatever its order. -/
def isContainer (e : Editor) (owner : NodeId) : Bool :=
  match e.asset.ownerKind? owner with
  | some .stateMachine | some .blendSpace => true
  | _ => false

/-- Outputs of a graph: the inputs of its output node. -/
def lowerOutputs (e : Editor) (g : SubGraph) : List Endpoint :=
  match g.nodes.find? fun n => !n.isComment && n.name == "Output" with
  | none => []
  | some output => output.inputs.map fun p => ⟨.ofProperty p.name, e.toRuntime p.value⟩

/-- Inputs of the asset. -/
def lowerInputs (e : Editor) : List Endpoint :=
  e.asset.inputs.entries.map fun (name, v) => ⟨.ofProperty name, e.toRuntime v⟩

/-- The literal that a node gives to the local variable for which it stands: that of the setter's
input, or else, where nothing sets the variable, that of the property. -/
def variableLiteral? (e : Editor) (g : SubGraph) (n : Node) (name : String) : Option Value :=
  if n.isSetter then (n.inputs.head?.filter Pin.hasLiteral).map Pin.value
  else if (g.setter? name).isNone then
    (e.asset.localVariables.get? name).filter fun v => !v.isFlow
  else none

/-- Literals of the local variables of a graph, the first one for each identifier. -/
def lowerVariables (e : Editor) (g : SubGraph) : List Endpoint :=
  g.nodes.foldl (fun plugs n =>
    match n.variableName?.bind fun name => (e.variableLiteral? g n name).map fun v => (name, v) with
    | none => plugs
    | some (name, v) =>
      if plugs.any fun plug => plug.id == .ofProperty name then plugs
      else plugs ++ [⟨.ofProperty name, e.toRuntime v⟩]) []

/-- Literals of a node's inputs, and of what blend spaces and their vertices have besides. -/
def lowerPlugs (e : Editor) (n : Node) : List Endpoint :=
  let literals := (n.inputs.filter Pin.hasLiteral).map fun p =>
    (⟨.ofPin p.name, e.toRuntime p.value⟩ : Endpoint)
  let vertex : List Endpoint :=
    if n.name = "Blend Space Vertex" then
      [⟨.x, .float32 n.offset.x⟩, ⟨.y, .float32 n.offset.y⟩]
    else []
  let lerp : List Endpoint :=
    if n.kind = .blendSpace then
      [⟨.lerpSecondsPerUnitX, .float32 n.lerpSecondsPerUnit.x⟩,
        ⟨.lerpSecondsPerUnitY, .float32 n.lerpSecondsPerUnit.y⟩]
    else []
  literals ++ vertex ++ lerp

/-- The warning that a trigger reads a local variable which nothing triggers. -/
def untriggeredWarning (g : SubGraph) (variableName : String) (destination : Node) : String :=
  let reason :=
    if (g.setter? variableName).isSome then "whose setter has nothing linked" else "with no setter"
  "Local variable " ++ quoted variableName ++ " is a trigger " ++ reason ++ "; "
    ++ quoted destination.description ++ " will never be triggered by it"

/-- The connection of a link that reads a local variable which nothing feeds. There is none for
triggers, which have no literal. -/
def connectVariable (e : Editor) (g : SubGraph) (prototype : NodeId) (getter : Node) (start : Pin)
    (destination : Node) (finish : Pin) : Lowering (Option Connection) :=
  let variableName := getter.variableName?.getD start.name
  if start.isFlow then
    ⟨.ok none,
      if e.settings.warnOnUntriggeredFlowVariables then
        [untriggeredWarning g variableName destination]
      else []⟩
  else
    let source : ConnectionEnd := ⟨prototype, .ofProperty variableName⟩
    pure <| some <|
      if destination.name = "Output" then
        ⟨source, ⟨.root, .ofProperty finish.name⟩, .localVariableToGraphValue⟩
      else ⟨source, ⟨destination.id, .ofPin finish.name⟩, .localVariableToNodeValue⟩

/-- The connection of a link between two pins, by the roles of the two nodes. -/
def connect (prototype : NodeId) (producer : Node) (start : Pin) (destination : Node)
    (finish : Pin) : Except ParseError Connection :=
  let fromInput := producer.name == "Input"
  let source : ConnectionEnd :=
    if fromInput then ⟨prototype, .ofProperty start.name⟩ else ⟨producer.id, .ofPin start.name⟩
  if destination.name = "Output" then
    .ok ⟨source, ⟨.root, .ofProperty finish.name⟩,
      if fromInput then .graphValueToGraphValue else .nodeValueToGraphValue⟩
  else if destination.name = "Event" then
    if fromInput then
      .ok ⟨source, ⟨prototype, .ofProperty finish.name⟩, .graphEventToGraphEvent⟩
    else
      match (destination.inputs[1]?.bind fun p => p.value.asString?).filter fun s => s ≠ "" with
      | none => .error (.missingEventName destination.id)
      | some event => .ok ⟨source, ⟨prototype, .ofName event⟩, .nodeEventToGraphEvent⟩
  else
    .ok ⟨source, ⟨destination.id, .ofPin finish.name⟩,
      match fromInput, start.isFlow with
      | true, true => .graphEventToNodeEvent
      | true, false => .graphValueToNodeValue
      | false, true => .nodeEventToNodeEvent
      | false, false => .nodeValueToNodeValue⟩

/-- The connection of a link, if it gets one: links between pins of different types, links of nodes
without a place in the order, and links into setters get none. -/
def lowerLink (e : Editor) (g : SubGraph) (container : Bool) (prototype : NodeId) (l : Link) :
    Lowering (Option Connection) :=
  match g.pin? l.source, g.nodeOfPin? l.source, g.pin? l.target, g.nodeOfPin? l.target with
  | some start, some producer, some finish, some destination =>
    if !start.sameType finish then pure none
    else if !container && !(producer.isSorted && destination.isSorted) then pure none
    else if destination.isLocalVariable then pure none
    else match g.resolve producer start with
      | none => e.connectVariable g prototype producer start destination finish
      | some (producer, start) =>
        if producer.name = "Input Action" then .fail (.unsupportedInputAction producer.id)
        else .ofResult ((connect prototype producer start destination finish).map some)
  | some _, some _, _, _ => .fail (.missingPin l.target)
  | _, _, _, _ => .fail (.missingPin l.source)

/-- Connections of a graph, in the order of its links. -/
def lowerLinks (e : Editor) (g : SubGraph) (container : Bool) (prototype : NodeId) :
    Lowering (List Connection) := do
  let connections ← g.links.mapM (e.lowerLink g container prototype)
  pure (connections.filterMap id)

/-- The prototype of the graph of an owner, looking at most `depth` levels down. -/
def lowerWithin (e : Editor) : Nat → NodeId → NodeId → String → Lowering Prototype
  | 0, owner, _, _ => .fail (.missingSubGraph owner)
  | depth + 1, owner, id, name =>
    match e.asset.graph? owner with
    | none => .fail (.missingSubGraph owner)
    | some g => do
      let container := e.isContainer owner
      let nodes ← (g.nodes.filter (Node.isEmitted · container)).mapM fun n => do
        let subroutine ←
          if n.isSubroutine then
            some <$> (e.lowerWithin depth n.id n.id n.description).mapError
              (.subroutine n.description)
          else pure none
        pure { type := .ofName n.name, id := n.id, plugs := e.lowerPlugs n, subroutine }
      let connections ← e.lowerLinks g container id
      pure
        { name, id, skeleton := e.asset.skeleton
          inputs := if owner.isRoot then e.lowerInputs else []
          outputs := e.lowerOutputs g, variablePlugs := e.lowerVariables g, nodes, connections }

/-- The prototype of the whole asset. Graphs nest no deeper than there are graphs. -/
def lower (e : Editor) : Lowering Prototype :=
  e.lowerWithin (e.asset.graphs.size + 1) .root e.asset.id e.asset.name

/-- First line of the errors of an invalid asset. -/
def invalidHeadline : String := "Graph is invalid."

/-- Validate the asset and build its prototype, as it is ordered. Warnings go to the session, and so
do the names of the asset's inputs, unless there is no top level to lower. -/
def construct (e : Editor) (s : CompileSession) :
    Except CompileError Prototype × CompileSession :=
  let report := e.validate
  let s := s.warn report.warnings
  if report.errors.isEmpty then
    let names := if (e.asset.graph? .root).isSome then e.asset.inputs.keys else []
    let s := names.foldl (fun s name => s.register (endpointName name)) s
    (e.lower.result.mapError .parse, s.warn e.lower.warnings)
  else (.error (.invalidGraph (invalidHeadline :: report.errors)), s)

/-- Sort and compile the asset. The prototype is stored if there is one, and the one before is kept
otherwise. -/
def compile (e : Editor) (s : CompileSession) :
    Editor × Except CompileError Prototype × CompileSession :=
  let e := e.sort
  let (outcome, s) := e.construct s
  match outcome with
  | .ok p =>
    ({ e.modifyAsset (fun a => { a with prototype := some p }) with isDirty := false }, .ok p, s)
  | .error error => (e, .error error, s)

end Editor

end PoseGraph
