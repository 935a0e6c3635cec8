import PoseGraph.Link
import PoseGraph.Node

/-!
The nodes and links of one graph, and what can be asked of them.

Where several nodes, pins or links answer a question, the first one in list order is meant.
-/

namespace PoseGraph

/-- Nodes and links. Sorting puts both into evaluation order. -/
structure SubGraph where
  nodes : List Node
  links : List Link

namespace SubGraph

/-- The graph without nodes and links. -/
def empty : SubGraph := ⟨[], []⟩

/-- The node with an identity. -/
def node? (g : SubGraph) (id : NodeId) : Option Node := g.nodes.find? (·.id == id)

/-- Whether there is a node with an identity. -/
def hasNode (g : SubGraph) (id : NodeId) : Bool := g.nodes.any (·.id == id)

/-- Position of a node in the list. -/
def position? (g : SubGraph) (id : NodeId) : Option Nat := g.nodes.findIdx? (·.id == id)

/-- The first node of a type. -/
def nodeNamed? (g : SubGraph) (name : String) : Option Node := g.nodes.find? (·.name == name)

/-- The pin with an identity. -/
def pin? (g : SubGraph) (id : PinId) : Option Pin := g.nodes.findSome? (·.pin? id)

/-- The node that has a pin. -/
def nodeOfPin? (g : SubGraph) (id : PinId) : Option Node := g.nodes.find? (·.hasPin id)

/-- The link with an identity. -/
def link? (g : SubGraph) (id : LinkId) : Option Link := g.links.find? (·.id == id)

/-- All links that touch a pin. -/
def linksAt (g : SubGraph) (pin : PinId) : List Link := g.links.filter (·.touches pin)

/-- The first link that touches a pin. -/
def linkAt? (g : SubGraph) (pin : PinId) : Option Link := g.links.find? (·.touches pin)

/-- Whether any link touches a pin. -/
def isLinked (g : SubGraph) (pin : PinId) : Bool := g.links.any (·.touches pin)

/-- The node at the other end of the first link that touches a pin. -/
def neighbour? (g : SubGraph) (pin : PinId) : Option Node :=
  (g.linkAt? pin).bind fun l => g.nodeOfPin? (if l.source == pin then l.target else l.source)

/-- The pin that feeds an input. -/
def producer? (g : SubGraph) (input : PinId) : Option Pin :=
  (g.links.find? (·.target == input)).bind fun l => g.pin? l.source

/-- The node that writes a local variable. -/
def setter? (g : SubGraph) (variableName : String) : Option Node :=
  g.nodes.find? fun n => n.isSetter && n.variableName? == some variableName

/-- The pin that feeds the setter of a local variable. -/
def source? (g : SubGraph) (variableName : String) : Option Pin :=
  (g.setter? variableName).bind fun n => n.inputs.head?.bind fun p => g.producer? p.id

/-- Change the node with an identity. -/
def modifyNode (g : SubGraph) (id : NodeId) (f : Node → Node) : SubGraph :=
  { g with nodes := Node.modifyFirst (·.id == id) f g.nodes }

/-- Change the pin with an identity. -/
def modifyPin (g : SubGraph) (id : PinId) (f : Pin → Pin) : SubGraph :=
  { g with nodes := Node.modifyFirst (·.hasPin id) (·.modifyPin id f) g.nodes }

/-- Add a node at the end. -/
def addNode (g : SubGraph) (n : Node) : SubGraph := { g with nodes := g.nodes ++ [n] }

/-- Add a link at the end. -/
def addLink (g : SubGraph) (l : Link) : SubGraph := { g with links := g.links ++ [l] }

/-- Equality with numbers compared by value. -/
def same (a b : SubGraph) : Bool :=
  a.nodes.length == b.nodes.length && (a.nodes.zip b.nodes).all (fun (m, n) => m.same n)
    && a.links == b.links

end SubGraph

end PoseGraph
