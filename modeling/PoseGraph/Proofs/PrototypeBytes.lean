import PoseGraph.Proofs.ByteReaders
import PoseGraph.Prototype.Binary

/-! The binary form of prototypes loses nothing. It is read back bit for bit from the front
of whatever it stands before, and no part of it that is cut off is read as anything. All
that is asked for is that numbers and lengths fit where they are written. -/
namespace PoseGraph.PrototypeBytes
open ByteReaders Bytes

variable {v : Value} {p : Prototype} {e : Endpoint} {c : Connection} {n : RuntimeNode Prototype} {depth : Nat}
variable {bs : List UInt8}

/-! ## What can be stored -/

/-- A value whose lengths can be told. Names of members are distinct. -/
inductive StorableValue : Value → Prop where
  | void : StorableValue .void
  | bool (b : Bool) : StorableValue (.bool b)
  | int32 (n : Int32) : StorableValue (.int32 n)
  | int64 (n : Int64) : StorableValue (.int64 n)
  | float32 (x : Scalar) : StorableValue (.float32 x)
  | string {s : String} (short : s.utf8ByteSize < 256 ^ lengthWidth) : StorableValue (.string s)
  | vec3 (x y z : Scalar) : StorableValue (.vec3 x y z)
  | array {vs : List Value} (short : vs.length < 256 ^ lengthWidth) (each : ∀ v ∈ vs, StorableValue v) :
      StorableValue (.array vs)
  | object {className : String} {members : List (String × Value)}
      (className_short : className.utf8ByteSize < 256 ^ lengthWidth) (short : members.length < 256 ^ lengthWidth)
      (distinct : (members.map Prod.fst).Nodup)
      (names_short : ∀ m ∈ members, m.1.utf8ByteSize < 256 ^ lengthWidth)
      (each : ∀ m ∈ members, StorableValue m.2) : StorableValue (.object className members)

/-- Endpoints that can be stored. -/
structure StorableEndpoints (es : List Endpoint) : Prop where
  short : es.length < 256 ^ lengthWidth
  each : ∀ e ∈ es, StorableValue e.value

/-- Both nodes of a connection have identities of eight bytes. -/
structure StorableConnection (c : Connection) : Prop where
  source : c.source.node.value < 256 ^ identityWidth
  destination : c.destination.node.value < 256 ^ identityWidth

/-- A prototype whose identities and lengths can be told, and those nested in it. -/
inductive StorablePrototype : Prototype → Prop where
  | intro {p : Prototype} (name : p.name.utf8ByteSize < 256 ^ lengthWidth) (id : p.id.value < 256 ^ identityWidth)
      (inputs : StorableEndpoints p.inputs) (outputs : StorableEndpoints p.outputs)
      (plugs : StorableEndpoints p.variablePlugs) (nodes_short : p.nodes.length < 256 ^ lengthWidth)
      (node_ids : ∀ n ∈ p.nodes, n.id.value < 256 ^ identityWidth)
      (node_plugs : ∀ n ∈ p.nodes, StorableEndpoints n.plugs)
      (nested : ∀ n ∈ p.nodes, ∀ q, n.subroutine = some q → StorablePrototype q)
      (connections_short : p.connections.length < 256 ^ lengthWidth)
      (connections : ∀ c ∈ p.connections, StorableConnection c) : StorablePrototype p

/-! ## Values -/

theorem decodes_scalar (x : Scalar) : Decodes True Value.readScalar (Value.scalarBytes x) x :=
  decodes_map (decodes_number (UInt32.toNat_lt x.bits)) (by rw [UInt32.ofNat_toNat])

theorem elementBytes_eq (vs : List Value) : Value.elementBytes vs = vs.flatMap Value.toBytes := by
  induction vs with
  | nil => rfl
  | cons v vs ih => rw [Value.elementBytes, ih, List.flatMap_cons]

/-- A member: its name and its value. -/
def bytesOfMember (m : String × Value) : List UInt8 := ofString m.1 ++ m.2.toBytes

theorem memberBytes_eq (ms : List (String × Value)) : Value.memberBytes ms = ms.flatMap bytesOfMember := by
  induction ms with
  | nil => rfl
  | cons m ms ih => rw [Value.memberBytes, ih, List.flatMap_cons, bytesOfMember]

theorem length_littleEndian (count n : Nat) : (littleEndian count n).length = count := by
  induction count generalizing n with
  | zero => rfl
  | succ count ih => rw [littleEndian, List.length_cons, ih]

/-- Every value takes bytes. -/
theorem tagged (v : Value) : 0 < v.toBytes.length := by
  have tag (k : Nat) : (ofTag k).length = 4 := length_littleEndian 4 k
  cases v <;> simp only [Value.toBytes, List.length_append, tag] <;> omega

/-- An element is no longer than all of them. -/
theorem length_of_mem {α : Type} (bytes : α → List UInt8) {x : α} {xs : List α} (inside : x ∈ xs) :
    (bytes x).length ≤ (xs.flatMap bytes).length :=
  (List.sublist_flatten_of_mem (List.mem_map_of_mem inside)).length_le

theorem length_of_mem_list {α : Type} (bytes : α → List UInt8) {x : α} {xs : List α} (inside : x ∈ xs) :
    (bytes x).length ≤ (ofList bytes xs).length := by
  have shorter := length_of_mem bytes inside
  rw [ofList, List.length_append]
  omega

/-- A value is read back if the reader may go as deep as there are bytes. -/
theorem decodes_value (storable : StorableValue v) (depth : Nat) :
    Decodes (v.toBytes.length ≤ depth) (Value.readBytes depth) v.toBytes v := by
  induction depth generalizing v with
  | zero => exact decodes_failure (Nat.not_le_of_lt (tagged v))
  | succ depth ih =>
    have tag {k : Nat} (small : k < 9) : Decodes True Reader.tag (ofTag k) k :=
      decodes_tag (Nat.lt_trans small (by decide))
    rw [Value.readBytes]
    cases storable with
    | void =>
      refine .always (?_ : Decodes True _ (ofTag 0 ++ []) Value.void)
      exact decodes_next (tag (k := 0) (by decide)) (decodes_pure _)
    | bool b => exact (decodes_next (tag (k := 1) (by decide)) (decodes_map (decodes_bool b) rfl)).always
    | int32 n =>
      refine (decodes_next (tag (k := 2) (by decide)) (decodes_map (decodes_number (UInt32.toNat_lt _)) ?_)).always
      rw [UInt32.ofNat_toNat, Int32.toInt32_toUInt32]
    | int64 n =>
      refine (decodes_next (tag (k := 3) (by decide)) (decodes_map (decodes_number (UInt64.toNat_lt _)) ?_)).always
      rw [UInt64.ofNat_toNat, Int64.toInt64_toUInt64]
    | float32 x => exact (decodes_next (tag (k := 4) (by decide)) (decodes_map (decodes_scalar x) rfl)).always
    | string short => exact (decodes_next (tag (k := 5) (by decide)) (decodes_map (decodes_string short) rfl)).always
    | vec3 x y z =>
      rw [Value.toBytes, List.append_assoc, List.append_assoc]
      exact (decodes_next (tag (k := 6) (by decide)) (decodes_next (decodes_scalar x)
        (decodes_next (decodes_scalar y) (decodes_map (decodes_scalar z) rfl)))).always
    | @array vs short each =>
      rw [Value.toBytes, elementBytes_eq, List.append_assoc]
      have elements := decodes_list short fun v inside => ih (each v inside)
      refine (decodes_next (tag (k := 7) (by decide)) (decodes_map elements rfl)).mono fun deep v inside => ?_
      have shorter := length_of_mem Value.toBytes inside
      simp only [List.length_append, ofTag, ofLength, length_littleEndian, tagWidth] at deep
      omega
    | @object className ms className_short short distinct names_short each =>
      rw [Value.toBytes, memberBytes_eq, List.append_assoc, List.append_assoc]
      have member (m : String × Value) (inside : m ∈ ms) : Decodes (m.2.toBytes.length ≤ depth) (do
          let name ← Reader.string
          let v ← Value.readBytes depth
          return (name, v)) (bytesOfMember m) m :=
        decodes_next (decodes_string (names_short m inside)) (decodes_map (ih (each m inside)) rfl)
      refine (decodes_next (tag (k := 8) (by decide)) (decodes_next (decodes_string className_short)
        (decodes_map (decodes_list short member) (by rw [Entries.ofList_eq_self distinct])))).mono fun deep m inside => ?_
      have shorter := length_of_mem bytesOfMember inside
      rw [bytesOfMember, List.length_append] at shorter
      simp only [List.length_append, ofTag, ofLength, length_littleEndian, tagWidth] at deep
      omega

/-! ## Prototypes -/

theorem decodes_identifier (i : Identifier) :
    Decodes True Prototype.readIdentifier (Prototype.identifierBytes i) i :=
  decodes_map (decodes_number (UInt32.toNat_lt i.hash)) (by rw [UInt32.ofNat_toNat])

theorem decodes_nodeId {id : NodeId} (fits : id.value < 256 ^ identityWidth) :
    Decodes True Prototype.readNodeId (Prototype.nodeIdBytes id) id :=
  decodes_map (decodes_number fits) rfl

theorem decodes_endpoint (storable : StorableValue e.value) (depth : Nat) :
    Decodes ((Prototype.endpointBytes e).length ≤ depth) (Prototype.readEndpoint depth) (Prototype.endpointBytes e) e := by
  refine (decodes_next (decodes_identifier e.id) (decodes_map (decodes_value storable depth) rfl)).mono fun deep => ?_
  rw [Prototype.endpointBytes, List.length_append] at deep
  omega

theorem decodes_endpoints {es : List Endpoint} (storable : StorableEndpoints es) (depth : Nat) :
    Decodes ((ofList Prototype.endpointBytes es).length ≤ depth) (Reader.list (Prototype.readEndpoint depth))
      (ofList Prototype.endpointBytes es) es := by
  have each (e : Endpoint) (inside : e ∈ es) := decodes_endpoint (storable.each e inside) depth
  exact (decodes_list storable.short each).mono fun deep e inside => Nat.le_trans (length_of_mem_list _ inside) deep

theorem decodes_connectionEnd {e : ConnectionEnd} (fits : e.node.value < 256 ^ identityWidth) :
    Decodes True Prototype.readConnectionEnd (Prototype.connectionEndBytes e) e :=
  decodes_next (decodes_nodeId fits) (decodes_map (decodes_identifier e.endpoint) rfl)

theorem decodes_connection (storable : StorableConnection c) :
    Decodes True Prototype.readConnection (Prototype.connectionBytes c) c := by
  have small : c.kind.number < 256 ^ tagWidth := by cases c.kind <;> decide
  rw [Prototype.connectionBytes, List.append_assoc, ← List.append_nil (ofTag _)]
  refine decodes_next (decodes_connectionEnd storable.source) (decodes_next (decodes_connectionEnd storable.destination)
    (decodes_next (decodes_tag small) ?_))
  rw [ConnectionKind.getElem?_number]
  exact decodes_pure c

/-- The binary form of a node. -/
def bytesOfNode (n : RuntimeNode Prototype) : List UInt8 :=
  Prototype.identifierBytes n.type ++ (Prototype.nodeIdBytes n.id ++ (ofList Prototype.endpointBytes n.plugs ++
    (ofBool n.subroutine.isSome ++ n.subroutine.elim [] Prototype.toBytes)))

theorem nodesBytes_eq (ns : List (RuntimeNode Prototype)) : Prototype.nodesBytes ns = ns.flatMap bytesOfNode := by
  induction ns with
  | nil => rfl
  | cons n ns ih =>
    obtain ⟨type, id, plugs, _ | sub⟩ := n
    · simp [Prototype.nodesBytes, bytesOfNode, ih]
    · simp [Prototype.nodesBytes, bytesOfNode, ih]

/-- A node is read back if its subroutine is. -/
theorem decodes_node {sub : Reader Prototype} (id : n.id.value < 256 ^ identityWidth) (plugs : StorableEndpoints n.plugs)
    (nested : ∀ q, n.subroutine = some q → Decodes (q.toBytes.length ≤ depth) sub q.toBytes q) :
    Decodes ((bytesOfNode n).length ≤ depth) (Prototype.readNode depth sub) (bytesOfNode n) n := by
  obtain ⟨type, id', plugs', body⟩ := n
  have whole : Decodes ((ofList Prototype.endpointBytes plugs').length ≤ depth ∧
      ∀ q, body = some q → q.toBytes.length ≤ depth) (Prototype.readNode depth sub)
      (bytesOfNode ⟨type, id', plugs', body⟩) ⟨type, id', plugs', body⟩ := by
    refine decodes_next (decodes_identifier type) (decodes_next (decodes_nodeId id)
      (decodes_bind (decodes_endpoints plugs depth) (decodes_next (decodes_bool body.isSome) ?_)))
    cases body with
    | none => exact (decodes_pure _).always
    | some q => exact (decodes_map (nested q rfl) rfl).mono fun deep => deep q rfl
  refine whole.mono fun deep => ?_
  simp only [bytesOfNode, List.length_append] at deep
  refine ⟨by omega, ?_⟩
  rintro q rfl
  simp only [Option.elim] at deep
  omega

theorem toBytes_eq (p : Prototype) : p.toBytes = ofString p.name ++ (Prototype.nodeIdBytes p.id ++
    (littleEndian identityWidth p.skeleton.toNat ++ (ofList Prototype.endpointBytes p.inputs ++
      (ofList Prototype.endpointBytes p.outputs ++ (ofList Prototype.endpointBytes p.variablePlugs ++
        (ofList bytesOfNode p.nodes ++ ofList Prototype.connectionBytes p.connections)))))) := by
  obtain ⟨name, id, skeleton, inputs, outputs, plugs, nodes, connections⟩ := p
  simp only [Prototype.toBytes, nodesBytes_eq, ofList, List.append_assoc]

/-- A prototype is read back if the reader may go as deep as there are bytes. -/
theorem decodes_prototype (storable : StorablePrototype p) (depth : Nat) :
    Decodes (p.toBytes.length ≤ depth) (Prototype.readBytes depth) p.toBytes p := by
  induction depth generalizing p with
  | zero =>
    refine decodes_failure fun deep => ?_
    simp only [toBytes_eq, List.length_append, length_littleEndian, identityWidth] at deep
    omega
  | succ depth ih =>
    obtain ⟨name, id, inputs, outputs, plugs, nodes_short, node_ids, node_plugs, nested, connections_short, connections⟩ := storable
    have skeleton : Decodes True (Reader.number identityWidth) (littleEndian identityWidth p.skeleton.toNat)
        p.skeleton.toNat := decodes_number (UInt64.toNat_lt p.skeleton)
    have nodes := decodes_list nodes_short fun n inside =>
      decodes_node (node_ids n inside) (node_plugs n inside) fun q body => ih (nested n inside q body)
    have links := decodes_list connections_short fun c inside => decodes_connection (connections c inside)
    have done : (⟨p.name, p.id, UInt64.ofNat p.skeleton.toNat, p.inputs, p.outputs, p.variablePlugs, p.nodes,
        p.connections⟩ : Prototype) = p := by
      rw [UInt64.ofNat_toNat]
      cases p
      rfl
    rw [toBytes_eq, Prototype.readBytes]
    refine (decodes_next (decodes_string name) (decodes_next (decodes_nodeId id) (decodes_next skeleton
      (decodes_bind (decodes_endpoints inputs depth) (decodes_bind (decodes_endpoints outputs depth)
        (decodes_bind (decodes_endpoints plugs depth) (decodes_bind nodes (decodes_map links done)))))))).mono
      fun deep => ?_
    simp only [List.length_append, length_littleEndian, Prototype.nodeIdBytes, identityWidth] at deep
    refine ⟨by omega, by omega, by omega, fun n inside => ?_, fun _ _ => trivial⟩
    have shorter := length_of_mem_list bytesOfNode inside
    omega

/-! ## Reading back -/

/-- A prototype in front of any bytes is read back as it was, and no part of it that is cut
off is read at all. -/
theorem bytes_read_back (storable : StorablePrototype p) :
    (∀ rest, Prototype.ofBytes? (p.toBytes ++ rest) = some p) ∧
    ∀ front, front <+: p.toBytes → front ≠ p.toBytes → Prototype.ofBytes? front = none := by
  constructor
  · intro rest
    have deep : p.toBytes.length ≤ (p.toBytes ++ rest).length := by simp
    rw [Prototype.ofBytes?, StateT.run, (decodes_prototype storable _).reads deep rest]
    rfl
  · intro front cut short
    rw [Prototype.ofBytes?, StateT.run, (decodes_prototype storable _).fails cut short]
    rfl

/-- A state whose graph is empty, and an input that holds a NaN with a payload and an object. -/
def idling : Prototype where
  name := "Locomotion"
  id := ⟨1⟩
  skeleton := 3
  inputs := [⟨.ofName "Speed", .array [.float32 ⟨0x7fc00001⟩, .object "Enum" [("Value", .int32 (-1))]]⟩]
  outputs := []
  variablePlugs := []
  nodes :=
    [⟨.ofName "State", ⟨7⟩, [],
      some ⟨"Idle", ⟨7⟩, 3, [], [], [⟨.ofName "Clip", .string "walk"⟩], [], []⟩⟩]
  connections := [⟨⟨⟨7⟩, .ofName "Pose"⟩, ⟨.root, .ofName "Pose"⟩, .nodeValueToGraphValue⟩]

/-- It is read back from in front of other bytes, and not from its first four bytes. -/
theorem idling_read_back : StorablePrototype idling ∧
    Prototype.ofBytes? (idling.toBytes ++ [1, 2, 3]) = some idling ∧
    Prototype.ofBytes? (idling.toBytes.take 4) = none := by
  have none : StorableEndpoints [] := ⟨by decide, by simp⟩
  have clip : StorableEndpoints [⟨.ofName "Clip", .string "walk"⟩] :=
    ⟨by decide, by simpa using StorableValue.string (by decide)⟩
  have body : StorablePrototype ⟨"Idle", ⟨7⟩, 3, [], [], [⟨.ofName "Clip", .string "walk"⟩], [], []⟩ :=
    ⟨by decide, by decide, none, none, clip, by decide, by simp, by simp, by simp, by decide, by simp⟩
  have enumeration : StorableValue (.object "Enum" [("Value", .int32 (-1))]) :=
    .object (by decide) (by decide) (by decide) (by decide) (by simpa using .int32 (-1))
  have inputs : StorableEndpoints idling.inputs := by
    refine ⟨by decide, List.forall_mem_singleton.mpr (.array (by decide) ?_)⟩
    exact List.forall_mem_cons.mpr ⟨.float32 _, List.forall_mem_singleton.mpr enumeration⟩
  have storable : StorablePrototype idling := by
    refine ⟨by decide, by decide, inputs, none, none, by decide, by decide, ?_, ?_, by decide, ?_⟩
    · exact List.forall_mem_singleton.mpr none
    · exact List.forall_mem_singleton.mpr fun q same => Option.some.inj same ▸ body
    · exact List.forall_mem_singleton.mpr ⟨by decide, by decide⟩
  obtain ⟨whole, cut⟩ := bytes_read_back storable
  refine ⟨storable, whole [1, 2, 3], cut _ (List.take_prefix 4 _) fun same => ?_⟩
  have short := congrArg List.length same
  revert short
  decide +kernel

end PoseGraph.PrototypeBytes
