import PoseGraph.Editor.Nodes
import PoseGraph.Identifier
import PoseGraph.Text.CharSet

/-!
Editing properties, and the nodes that stand for them.

A property node names its property by a pin. Renaming, retyping, revaluing and removing a property
goes along with all nodes that stand for it, in whatever graph they are.
-/

namespace PoseGraph

namespace Properties

/-- Words that mean something to the runtime and cannot name a property. -/
def keywords : List String := [
  "if", "do", "for", "let", "var", "int", "try", "else", "bool", "true", "case", "enum", "loop",
  "void", "while", "break", "const", "int32", "int64", "float", "false", "using", "fixed",
  "graph", "input", "event", "class", "catch", "throw", "output", "return", "string", "struct",
  "import", "switch", "public", "double", "private", "float32", "float64", "default", "complex",
  "continue", "external", "operator", "processor", "namespace", "complex32", "complex64",
  "connection"]

/-- Whether a text has nothing but white space. -/
def isBlank (s : String) : Bool := s.toList.all CharSet.whiteSpace.contains

/-- Whether a name is free: it is not blank, differs from the other names in more than spaces, and
is no keyword in any case. -/
def isNameValid (ps : Properties) (name : String) : Bool :=
  !isBlank name && !ps.contains name
    && ps.keys.all (fun other => withoutSpaces other != withoutSpaces name)
    && !keywords.contains (lowercase (withoutSpaces name))

end Properties

namespace SubGraph

/-- Change the nodes with the given identities. -/
def mapNodes (g : SubGraph) (ids : List NodeId) (f : Node → Node) : SubGraph :=
  { g with nodes := g.nodes.map fun n => if ids.contains n.id then f n else n }

/-- The linked inputs of the nodes with the given identities. -/
def linkedInputs (g : SubGraph) (ids : List NodeId) : List PinId :=
  ((g.nodes.filter fun n => ids.contains n.id).flatMap Node.inputs).filterMap fun p =>
    if g.isLinked p.id then some p.id else none

/-- Put a property's value into the pins of its nodes, except into linked inputs. -/
def setPropertyValue (name : String) (v : Value) (ids : List NodeId) (g : SubGraph) : SubGraph :=
  let linked := g.linkedInputs ids
  g.mapNodes ids fun n => n.mapPins fun p =>
    if p.name = name ∧ ¬linked.contains p.id then p.withValue v else p

/-- Rename a property in the pins of its nodes. Nodes of local variables bear its name, too. -/
def renameProperty (kind : PropertyKind) (old new : String) (ids : List NodeId) (g : SubGraph) :
    SubGraph :=
  g.mapNodes ids fun n =>
    let n := n.mapPins fun p => if p.name = old then { p with name := new } else p
    if kind = .localVariable then { n with name := new, description := new } else n

/-- Give the pins of a property's nodes the type of a value, and the value. -/
def retagProperty (name : String) (v : Value) (ids : List NodeId) (g : SubGraph) : SubGraph :=
  g.mapNodes ids fun n =>
    { n.mapPins (fun p => if p.name = name then p.retag v else p) with
      color := (PinType.ofValue v).color }

/-- The links that touch a node with one of the given identities. -/
def linksOfNodes (g : SubGraph) (ids : List NodeId) : List LinkId :=
  let belongs := fun pin => (g.nodeOfPin? pin).any fun n => ids.contains n.id
  (g.links.filter fun l => belongs l.source || belongs l.target).map Link.id

end SubGraph

namespace Editor

/-- Change the properties of a kind. -/
def modifyProperties (e : Editor) (kind : PropertyKind) (f : Properties → Properties) : Editor :=
  e.modifyAsset fun a => a.withProperties kind (f (a.properties kind))

/-- Add a property under a new name, which is returned. -/
def addProperty (e : Editor) (kind : PropertyKind) (v : Value) : Editor × String :=
  let name := (e.asset.properties kind).uniqueName kind.defaultName
  ((e.modifyProperties kind fun ps => Properties.sorted (ps.insert name v)).invalidate, name)

/-- Remove a property and its nodes; false if there is no such property. -/
def removeProperty (e : Editor) (kind : PropertyKind) (name : String) : Editor × Bool :=
  if (e.asset.properties kind).contains name then
    let e := e.modifyProperties kind (·.erase name)
    (((e.asset.propertyNodes kind name).foldl
      (fun e (owner, ids) => (e.removeNodesIn owner ids).1) e).invalidate, true)
  else (e, false)

/-- Give a property and its nodes another value; false if there is no such property. -/
def setPropertyValue (e : Editor) (kind : PropertyKind) (name : String) (v : Value) :
    Editor × Bool :=
  if (e.asset.properties kind).contains name then
    let e := e.modifyProperties kind (·.insert name v)
    (((e.asset.propertyNodes kind name).foldl
      (fun e (owner, ids) => e.modifyGraph owner (·.setPropertyValue name v ids)) e).invalidate, true)
  else (e, false)

/-- Whether a name is free for a property of a kind. -/
def isPropertyNameValid (e : Editor) (kind : PropertyKind) (name : String) : Bool :=
  (e.asset.properties kind).isNameValid name

/-- Rename a property and its nodes; false if the new name is not free or there is no such
property. -/
def renameProperty (e : Editor) (kind : PropertyKind) (old new : String) : Editor × Bool :=
  if old = new then (e, true)
  else if e.isPropertyNameValid kind new then
    match (e.asset.properties kind).get? old with
    | none => (e, false)
    | some v =>
      let nodes := e.asset.propertyNodes kind old
      let e := e.modifyProperties kind fun ps => Properties.sorted ((ps.erase old).insert new v)
      ((nodes.foldl
        (fun e (owner, ids) => e.modifyGraph owner (·.renameProperty kind old new ids))
        e).invalidate, true)
  else (e, false)

/-- Give a property a value of another type. Its nodes keep their identities and pins but lose their
links. False if there is no such property or the type is the same. -/
def changePropertyType (e : Editor) (kind : PropertyKind) (name : String) (v : Value) :
    Editor × Bool :=
  match (e.asset.properties kind).get? name with
  | none => (e, false)
  | some current =>
    if current.sameType v then (e, false)
    else
      let e := e.modifyProperties kind (·.insert name v)
      let retype := fun (e : Editor) (group : NodeId × List NodeId) =>
        let stale := ((e.asset.graph? group.1).map (·.linksOfNodes group.2)).getD []
        (e.removeLinksIn group.1 stale).1.modifyGraph group.1 (·.retagProperty name v group.2)
      (((e.asset.propertyNodes kind name).foldl retype e).invalidate, true)

/-- Place a node that reads an input of the asset in the active graph; none if there is no such
input. -/
def spawnInput (e : Editor) (name : String) : Editor × Option NodeId :=
  match e.asset.inputs.get? name with
  | none => (e, none)
  | some v =>
    let (n, e) := e.adopt
      { Node.ofName PropertyKind.input.token ⟨130, 170, 255⟩ with
        category := PropertyKind.input.token, outputs := [.ofProperty name v .output] }
    (e.addNode e.activeOwner n, some n.id)

/-- Place a node that reads or writes a local variable in the active graph; none if there is no such
variable, or if the graph has a node that writes it already. -/
def spawnLocalVariable (e : Editor) (name : String) (getter : Bool) : Editor × Option NodeId :=
  match e.asset.localVariables.get? name with
  | none => (e, none)
  | some v =>
    if !getter && (e.activeGraph?.bind (·.setter? name)).isSome then (e, none)
    else
      let bare := { Node.ofName name (PinType.ofValue v).color with category := localVariableCategory }
      let (n, e) := e.adopt <|
        if getter then { bare with outputs := [.ofProperty name v .output] }
        else { bare with inputs := [.ofProperty name v .input] }
      (e.addNode e.activeOwner n, some n.id)

end Editor

end PoseGraph
