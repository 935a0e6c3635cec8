import PoseGraph.Asset.Document
import PoseGraph.Proofs.PrototypeTerms

/-! Assets are read back from the texts that are written for them, as what they were, if the
levels of documents suffice for them. What a text says of an asset is all of it: numbers bit
by bit, texts character by character, and everything in its order. -/
namespace PoseGraph.AssetTerms
open Decoding Document PrototypeTerms TermReading TermTokens

variable {a : Asset} {g : SubGraph} {n : Node} {l : Link} {p : Pin} {ps : Properties} {reach : Nat} {s : String}

/-! ## Nodes and links -/

theorem kept_pinId {id : PinId} (fits : id.value < 2 ^ 64) : Kept reach PinId.ofTerm? id.toTerm id 1 :=
  ((Kept.nat (contains_unsigned.mpr fits)).newtype "PinId").mapped PinId.mk

theorem kept_linkId {id : LinkId} (fits : id.value < 2 ^ 64) : Kept reach LinkId.ofTerm? id.toTerm id 1 :=
  ((Kept.nat (contains_unsigned.mpr fits)).newtype "LinkId").mapped LinkId.mk

/-- A pin without NaN and with identities of 64 bits. -/
structure RegularPin (p : Pin) : Prop where
  id : p.id.value < 2 ^ 64
  node : p.node.value < 2 ^ 64
  value : Regular p.value

/-- The levels that reading a pin takes. -/
def pinLevels (p : Pin) : Nat := brackets [1, 1, 0, valueLevels p.value, 2, 2, 2]

theorem kept_pin (regular : RegularPin p) : Kept reach Pin.ofTerm? p.toTerm p (pinLevels p) := by
  have storage : Kept reach Decoder.enumerated (.ofEnumerated p.storage) p.storage 2 := by
    cases p.storage <;> exact .enumerated _ (by decide) (by decide)
  have kind : Kept reach Decoder.enumerated (.ofEnumerated p.kind) p.kind 2 := by
    cases p.kind <;> exact .enumerated _ (by decide) (by decide)
  have type : Kept reach Decoder.enumerated (.ofEnumerated p.type) p.type 2 := by
    cases p.type <;> exact .enumerated _ (by decide) (by decide)
  exact .record (Nat.le_succ _) "Pin" rfl (by decide) (by decide) (by decide)
    (.field rfl (kept_pinId regular.id) (.field rfl (kept_nodeId regular.node) (.field rfl (.text p.name)
      (.field rfl (kept_read regular.value) (.field rfl storage (.field rfl kind (.field rfl type (.done rfl))))))))

/-- A link with identities of 64 bits. -/
structure RegularLink (l : Link) : Prop where
  id : l.id.value < 2 ^ 64
  source : l.source.value < 2 ^ 64
  target : l.target.value < 2 ^ 64

theorem kept_link (regular : RegularLink l) : Kept reach Link.ofTerm? l.toTerm l (brackets [1, 1, 1, 2]) :=
  .record (Nat.le_succ _) "Link" rfl (by decide) (by decide) (by decide)
    (.field rfl (kept_linkId regular.id) (.field rfl (kept_pinId regular.source) (.field rfl (kept_pinId regular.target)
      (.field rfl (.color l.color) (.done rfl)))))

/-- A node without NaN, with identities of 64 bits and a place of 32 bits. -/
structure RegularNode (n : Node) : Prop where
  id : n.id.value < 2 ^ 64
  pins : ∀ p ∈ n.pins, RegularPin p
  points : ∀ q ∈ [n.position, n.size, n.offset, n.lerpSecondsPerUnit], q.x.isNaN = false ∧ q.y.isNaN = false
  place : -2 ^ 31 ≤ n.sortIndex ∧ n.sortIndex < 2 ^ 31

/-- The levels that reading a node takes. -/
def nodeLevels (n : Node) : Nat :=
  brackets [1, 0, 0, 0, brackets (n.inputs.map pinLevels), brackets (n.outputs.map pinLevels), 2, 2, 2, 2, 0, 0, 2, 2]

theorem kept_node (regular : RegularNode n) : Kept reach Node.ofTerm? n.toTerm n (nodeLevels n) := by
  have point {q : Point} (inside : q ∈ [n.position, n.size, n.offset, n.lerpSecondsPerUnit]) :
      Kept reach Decoder.point (.ofPoint q) q 2 := .point (regular.points q inside).1 (regular.points q inside).2
  have inputs : Kept reach (.list Pin.ofTerm?) (.list (n.inputs.map Pin.toTerm)) n.inputs _ :=
    .list fun p inside => kept_pin (regular.pins p (List.mem_append_left _ inside))
  have outputs : Kept reach (.list Pin.ofTerm?) (.list (n.outputs.map Pin.toTerm)) n.outputs _ :=
    .list fun p inside => kept_pin (regular.pins p (List.mem_append_right _ inside))
  have type : Kept reach Decoder.enumerated (.ofEnumerated n.type) n.type 2 := by
    cases n.type <;> exact .enumerated _ (by decide) (by decide)
  have fits : (WholeType.signed 32).contains n.sortIndex = true := contains_signed.mpr regular.place
  exact .record (Nat.le_succ _) "Node" rfl (by decide) (by decide) (by decide)
    (.field rfl (kept_nodeId regular.id) (.field rfl (.text n.category) (.field rfl (.text n.name)
      (.field rfl (.text n.description) (.field rfl inputs (.field rfl outputs (.field rfl (.color n.color)
        (.field rfl type (.field rfl (point (by simp)) (.field rfl (point (by simp)) (.field rfl (.whole fits)
          (.field rfl (.bool n.isEntry) (.field rfl (point (by simp)) (.field rfl (point (by simp))
            (.done rfl)))))))))))))))

/-- A graph of regular nodes and links. -/
structure RegularGraph (g : SubGraph) : Prop where
  nodes : ∀ n ∈ g.nodes, RegularNode n
  links : ∀ l ∈ g.links, RegularLink l

/-- The levels that reading a graph takes. -/
def graphLevels (g : SubGraph) : Nat :=
  brackets [brackets (g.nodes.map nodeLevels), brackets (g.links.map fun _ => brackets [1, 1, 1, 2])]

theorem kept_graph (regular : RegularGraph g) : Kept reach SubGraph.ofTerm? g.toTerm g (graphLevels g) :=
  .record (Nat.le_succ _) "SubGraph" rfl (by decide) (by decide) (by decide)
    (.field rfl (.list fun n inside => kept_node (regular.nodes n inside))
      (.field rfl (.list fun l inside => kept_link (regular.links l inside)) (.done rfl)))

/-! ## Assets -/

/-- The levels that reading properties takes. -/
def propertyLevels (ps : Properties) : Nat := brackets [brackets (ps.entries.map fun e => max 0 (valueLevels e.2))]

theorem kept_properties (regular : ∀ v ∈ ps.values, Regular v) :
    Kept reach Properties.ofTerm? ps.toTerm ps (propertyLevels ps) :=
  .record (Nat.le_succ _) "PropertySet" rfl (by decide) (by decide) (by decide)
    (.field rfl (.map (fun e _ => .text e.1) fun e inside => kept_read (regular e.2 (List.mem_map_of_mem inside)))
      (.done (Table.ofList_entries ps)))

/-- An asset without NaN, with identities of 64 bits and places of 32 bits. -/
structure RegularAsset (a : Asset) : Prop where
  id : a.id.value < 2 ^ 64
  properties : ∀ kind, ∀ v ∈ (a.properties kind).values, Regular v
  owners : ∀ owner ∈ a.owners, owner.value < 2 ^ 64
  graphs : ∀ g ∈ a.graphs.values, RegularGraph g
  prototype : ∀ q, a.prototype = some q → RegularPrototype q

/-- The levels that reading an asset takes. -/
def assetLevels (a : Asset) : Nat :=
  brackets [1, 0, propertyLevels a.inputs, propertyLevels a.outputs, propertyLevels a.localVariables, 0,
    brackets (a.graphs.entries.map fun e => max 1 (graphLevels e.2)),
    (a.prototype.map fun q => 1 + prototypeLevels q).getD 0]

theorem kept_asset (regular : RegularAsset a) : Kept reach Asset.ofTerm? a.toTerm a (assetLevels a) := by
  have graphs : Kept reach (.map NodeId.ofTerm? SubGraph.ofTerm?)
      (.map (a.graphs.entries.map fun e => (e.1.toTerm, e.2.toTerm))) a.graphs.entries _ :=
    .map (fun e inside => kept_nodeId (regular.owners e.1 (List.mem_map_of_mem inside)))
      fun e inside => kept_graph (regular.graphs e.2 (List.mem_map_of_mem inside))
  have prototype : Kept reach (.option "Prototype" Prototype.read?) (.ofOption (a.prototype.map Prototype.toTerm))
      a.prototype ((a.prototype.map fun q => 1 + prototypeLevels q).getD 0) := by
    cases held : a.prototype with
    | none => exact .absent "Prototype"
    | some q => exact (Kept.unbounded (kept_prototype (regular.prototype q held))).present "Prototype"
  have handle : (WholeType.unsigned 64).contains a.skeleton.toNat = true := contains_unsigned.mpr a.skeleton.toNat_lt
  exact .record (Nat.le_succ _) "AnimationGraphAsset" rfl (by decide) (by decide) (by decide)
    (.field rfl (kept_nodeId regular.id) (.field rfl (.text a.name)
      (.field rfl (kept_properties (regular.properties .input))
        (.field rfl (kept_properties (regular.properties .output))
          (.field rfl (kept_properties (regular.properties .localVariable)) (.field rfl (.nat handle)
            (.field rfl graphs (.fieldOr none rfl prototype
              (.done (by rw [UInt64.ofNat_toNat, Table.ofList_entries]))))))))))

/-- What is written for an asset is read back as that asset, if no more levels are needed than documents have,
and is not read at all otherwise. -/
theorem saved_assets_load (regular : RegularAsset a) (written : a.write = some s) :
    Asset.read s = if assetLevels a ≤ Term.recursionLimit then some a else none := by
  have kept : Kept (Term.recursionLimit + 1) Asset.ofTerm? a.toTerm a (assetLevels a) := kept_asset regular
  have loaded {document : PoseGraph.Document} (found : Document.read s = some document) :
      Asset.read s = if assetLevels a ≤ Term.recursionLimit then some a else none := by
    obtain rfl := eq_of_read_write kept.legible written found
    rw [Asset.read, found]
    exact kept.decoded Term.recursionLimit (Nat.lt_succ_self _)
  by_cases enough : assetLevels a ≤ Term.recursionLimit
  · exact loaded (read_write (kept.legible.mono (Nat.succ_le_succ enough)) written)
  · cases found : Document.read s with
    | none => simp [Asset.read, found, enough]
    | some document => exact loaded found

/-- A node and two links, not in the order of their identities. -/
def output : SubGraph where
  nodes := [({ Node.ofName "Output" ⟨255, 0, 128⟩ with inputs := [.input "Weight" .float] }.withFreshIds 40).1]
  links := [⟨⟨9⟩, ⟨2⟩, ⟨1⟩, ⟨3, 2, 1⟩⟩, ⟨⟨8⟩, ⟨1⟩, ⟨2⟩, ⟨0, 0, 0⟩⟩]

/-- A prototype with a subroutine. -/
def nested : Prototype where
  name := ""
  id := ⟨1⟩
  skeleton := 0
  inputs := [⟨⟨7⟩, .int32 (Int32.ofInt (-5))⟩]
  outputs := []
  variablePlugs := []
  nodes := [⟨⟨3⟩, ⟨4⟩, [], some
    { name := "Inner", id := ⟨4⟩, skeleton := 0, inputs := [], outputs := [], variablePlugs := [], nodes := []
      connections := [⟨⟨⟨4⟩, ⟨1⟩⟩, ⟨⟨0⟩, ⟨2⟩⟩, .nodeValueToGraphValue⟩] }⟩]
  connections := []

/-- An asset whose name has signs that are masked in texts. Its values are the edges of their ranges, and its
properties, members and graphs are not in the order of their names. -/
def varied : Asset where
  id := ⟨2 ^ 64 - 1⟩
  name := "A \"quoted\" \\ name\n\t\u0001 → 走"
  inputs := (Table.empty.insert "second" (.float32 ⟨0x80000000⟩)).insert "first" (.int64 (Int64.ofInt (-2 ^ 63)))
  outputs := Table.empty.insert "out" (.array [.void,
    .object "Pair" [("z", .vec3 ⟨1⟩ ⟨0x7f7fffff⟩ ⟨0xff800000⟩), ("a", .string "\r'"), ("m", .bool true)]])
  localVariables := .empty
  skeleton := 0xffffffffffffffff
  graphs := (Table.empty.insert ⟨7⟩ output).insert .root .empty
  prototype := some nested

theorem output_regular : RegularGraph output where
  nodes n held := by
    obtain rfl := List.mem_singleton.mp held
    refine ⟨by decide, fun p inside => ?_, by decide, by decide⟩
    obtain rfl := List.mem_singleton.mp inside
    exact ⟨by decide, by decide, .float32 (by decide)⟩
  links l held := by
    have small : ∀ l ∈ output.links, l.id.value < 2 ^ 64 ∧ l.source.value < 2 ^ 64 ∧ l.target.value < 2 ^ 64 := by
      decide
    exact ⟨(small l held).1, (small l held).2.1, (small l held).2.2⟩

theorem empty_regular : RegularGraph .empty :=
  ⟨fun _ inside => absurd inside List.not_mem_nil, fun _ inside => absurd inside List.not_mem_nil⟩

theorem nested_regular : RegularPrototype nested := by
  have nothing {P : Endpoint → Prop} : ∀ e ∈ [], P e := fun _ inside => absurd inside List.not_mem_nil
  have inner {q : Prototype} (owns : nested.nodes.head?.bind RuntimeNode.subroutine = some q) : RegularPrototype q := by
    cases owns
    exact ⟨by decide, nothing, nothing, nothing, by decide, fun _ inside => absurd inside List.not_mem_nil,
      fun _ inside => absurd inside List.not_mem_nil, by decide⟩
  refine ⟨by decide, List.forall_mem_singleton.mpr (.int32 _), nothing, nothing, by decide, ?_, ?_, by decide⟩
  · exact List.forall_mem_singleton.mpr nothing
  · exact List.forall_mem_singleton.mpr fun q owns => inner owns

theorem varied_regular : RegularAsset varied where
  id := by decide
  properties kind v held := by
    cases kind with
    | input =>
      have both : ∀ v ∈ [.float32 ⟨0x80000000⟩, .int64 (Int64.ofInt (-2 ^ 63))], Regular v :=
        List.forall_mem_cons.mpr ⟨.float32 (by decide), List.forall_mem_singleton.mpr (.int64 _)⟩
      exact both v held
    | output =>
      obtain rfl := List.mem_singleton.mp held
      refine .array (List.forall_mem_cons.mpr ⟨.void, List.forall_mem_singleton.mpr (.object (by decide) ?_)⟩)
      simp only [List.forall_mem_cons, List.not_mem_nil, false_imp_iff, implies_true, and_true]
      exact ⟨.vec3 (by decide) (by decide) (by decide), .string _, .bool _⟩
    | localVariable => exact absurd held List.not_mem_nil
  owners := by decide
  graphs g held := by
    have both : ∀ g ∈ [output, .empty], RegularGraph g :=
      List.forall_mem_cons.mpr ⟨output_regular, List.forall_mem_singleton.mpr empty_regular⟩
    exact both g held
  prototype q held := Option.some.inj held ▸ nested_regular

/-- Arrays one inside the other. -/
def boxes : Nat → Value
  | 0 => .void
  | depth + 1 => .array [boxes depth]

theorem boxes_regular (depth : Nat) : Regular (boxes depth) := by
  induction depth with
  | zero => exact .void
  | succ depth ih => exact .array (List.forall_mem_singleton.mpr ih)

/-- An asset with a single property. -/
def holding (v : Value) : Asset := { Asset.ofName "Holder" ⟨1⟩ with inputs := Table.empty.insert "Held" v }

theorem holding_regular {v : Value} (regular : Regular v) : RegularAsset (holding v) where
  id := Nat.one_lt_two_pow (by decide)
  properties kind w held := by
    cases kind with
    | input =>
      obtain rfl := List.mem_singleton.mp held
      exact regular
    | output => exact absurd held List.not_mem_nil
    | localVariable => exact absurd held List.not_mem_nil
  owners := by
    have root : ∀ owner ∈ [NodeId.root], owner.value < 2 ^ 64 := by decide
    exact root
  graphs g held := by
    obtain rfl := List.mem_singleton.mp held
    exact empty_regular
  prototype q held := nomatch held

/-- The varied asset is loaded. One in which arrays nest deeper than readers go is saved as well, but not loaded. -/
theorem varied_loads : (∃ s, varied.write = some s ∧ Asset.read s = some varied) ∧
    ∃ s, (holding (boxes 40)).write = some s ∧ Asset.read s = none := by
  have load {a : Asset} (regular : RegularAsset a) (fits : a.toTerm.canBeWritten = true) :
      ∃ s, a.write = some s ∧ Asset.read s = if assetLevels a ≤ Term.recursionLimit then some a else none :=
    ⟨_, if_pos fits, saved_assets_load regular (if_pos fits)⟩
  refine ⟨?_, ?_⟩
  · have enough : assetLevels varied ≤ Term.recursionLimit := by decide +kernel
    simpa only [enough, if_true] using load varied_regular (by decide +kernel)
  · have few : ¬assetLevels (holding (boxes 40)) ≤ Term.recursionLimit := by decide +kernel
    simpa only [few, if_false] using load (holding_regular (boxes_regular 40)) (by decide +kernel)

end PoseGraph.AssetTerms
