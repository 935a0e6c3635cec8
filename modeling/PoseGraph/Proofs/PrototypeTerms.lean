import PoseGraph.Proofs.Decoding
import PoseGraph.Prototype.Document

/-! The documents of values, properties and prototypes are taken back as what they were made
of, given the levels that they take, which is what their nesting comes to. All that is asked
for is that numbers are numbers and fit where they are written. -/
namespace PoseGraph.PrototypeTerms
open Decoding Document TermTokens

variable {v : Value} {ps : Properties} {p : Prototype} {e : Endpoint} {c : Connection} {n : RuntimeNode Prototype}
variable {reach : Nat}

/-! ## Values -/

/-- A value without NaN. Names of members are distinct. -/
inductive Regular : Value → Prop where
  | void : Regular .void
  | bool (b : Bool) : Regular (.bool b)
  | int32 (n : Int32) : Regular (.int32 n)
  | int64 (n : Int64) : Regular (.int64 n)
  | float32 {x : Scalar} (number : x.isNaN = false) : Regular (.float32 x)
  | string (s : String) : Regular (.string s)
  | vec3 {x y z : Scalar} (x_number : x.isNaN = false) (y_number : y.isNaN = false) (z_number : z.isNaN = false) :
      Regular (.vec3 x y z)
  | array {vs : List Value} (each : ∀ v ∈ vs, Regular v) : Regular (.array vs)
  | object {className : String} {members : List (String × Value)} (distinct : (members.map Prod.fst).Nodup)
      (each : ∀ m ∈ members, Regular m.2) : Regular (.object className members)

mutual

/-- The levels that reading a value takes. -/
def valueLevels : Value → Nat
  | .vec3 _ _ _ => 2 + brackets [0, 0, 0]
  | .array vs => 2 + brackets (elementLevels vs)
  | .object _ ms => 2 + brackets [0, brackets (memberLevels ms)]
  | _ => 2

/-- The levels that reading each of some values takes. -/
def elementLevels : List Value → List Nat
  | [] => []
  | v :: vs => valueLevels v :: elementLevels vs

/-- The levels that reading each of some members takes. -/
def memberLevels : List (String × Value) → List Nat
  | [] => []
  | (_, v) :: ms => valueLevels v :: memberLevels ms

end

theorem elementTerms_eq (vs : List Value) : Value.elementTerms vs = vs.map Value.toTerm := by
  induction vs with
  | nil => rfl
  | cons v vs ih => rw [Value.elementTerms, ih, List.map_cons]

theorem elementLevels_eq (vs : List Value) : elementLevels vs = vs.map valueLevels := by
  induction vs with
  | nil => rfl
  | cons v vs ih => rw [elementLevels, ih, List.map_cons]

theorem memberTerms_eq (ms : List (String × Value)) :
    Value.memberTerms ms = ms.map fun m => (.text m.1, m.2.toTerm) := by
  induction ms with
  | nil => rfl
  | cons m ms ih => rw [Value.memberTerms, ih, List.map_cons]

theorem memberLevels_eq (ms : List (String × Value)) :
    memberLevels ms = ms.map fun m => max 0 (valueLevels m.2) := by
  induction ms with
  | nil => rfl
  | cons m ms ih => rw [memberLevels, ih, List.map_cons, Nat.zero_max]

/-- An alternative takes two levels, and those of the value in its brackets. -/
theorem kept_alternative {decode : Nat → Decoder Value} {t : Term} {levels : Nat} (name : String)
    (spelled : isPlainWord name = true) (kept : ∀ nesting, Kept nesting (decode nesting) t v levels)
    (reads : ∀ nesting left, Value.ofTerm? (nesting + 1) (plain left) (.alternative name t) =
      ((plain left).deeper? 2 >>= fun inside => decode nesting inside t)) (nesting : Nat) :
    Kept nesting (Value.ofTerm? nesting) (.alternative name t) v (2 + levels) where
  legible := by
    have label : ∀ w ∈ some name, isPlainWord w = true := by simpa using spelled
    exact .tuple label (List.cons_ne_nil t []) (List.forall_mem_singleton.mpr ((kept 0).legible.mono (by omega)))
  decoded left reached := by
    cases nesting with
    | zero => contradiction
    | succ nesting =>
      rw [reads]
      exact deeper_bind fun _ => (kept nesting).decoded (left - 2) (by omega)

/-- A value is taken back by a decoder that may nest as deep as there are levels. -/
theorem kept_value (regular : Regular v) (nesting : Nat) :
    Kept nesting (Value.ofTerm? nesting) v.toTerm v (valueLevels v) := by
  induction regular generalizing nesting with
  | void =>
    refine ⟨.word (by decide), fun left reached => ?_⟩
    cases nesting with
    | zero => contradiction
    | succ nesting =>
      have nothing : Value.ofTerm? (nesting + 1) (plain left) (.word "Void") =
          if 2 + 0 ≤ left then some .void else none := deeper_bind fun _ => rfl
      exact nothing
  | bool b =>
    exact kept_alternative "Bool" (by decide) (fun _ => (Kept.bool b).mapped Value.bool) (fun _ _ => rfl) nesting
  | int32 n =>
    have fits : (WholeType.signed 32).contains n.toInt = true := contains_signed.mpr ⟨n.le_toInt, n.toInt_lt⟩
    have same : Value.int32 (Int32.ofInt n.toInt) = .int32 n := congrArg Value.int32 (Int32.ofInt_toInt n)
    exact kept_alternative "Int32" (by decide) (fun _ => (Kept.whole fits).made same) (fun _ _ => rfl) nesting
  | int64 n =>
    have fits : (WholeType.signed 64).contains n.toInt = true := contains_signed.mpr ⟨n.le_toInt, n.toInt_lt⟩
    have same : Value.int64 (Int64.ofInt n.toInt) = .int64 n := congrArg Value.int64 (Int64.ofInt_toInt n)
    exact kept_alternative "Int64" (by decide) (fun _ => (Kept.whole fits).made same) (fun _ _ => rfl) nesting
  | float32 number =>
    exact kept_alternative "Float32" (by decide) (fun _ => (Kept.scalar number).mapped Value.float32) (fun _ _ => rfl)
      nesting
  | string s =>
    exact kept_alternative "String" (by decide) (fun _ => (Kept.text s).mapped Value.string) (fun _ _ => rfl) nesting
  | @vec3 x y z x_number y_number z_number =>
    have each (nesting : Nat) : ∀ w ∈ [x, y, z], Kept nesting Decoder.scalar (.ofScalar w) w 0 := by
      simpa using ⟨Kept.scalar x_number, Kept.scalar y_number, Kept.scalar z_number⟩
    have numbers (nesting : Nat) : Kept nesting (fun s _ => Value.vec3? s ([x, y, z].map Term.ofScalar))
        (.tuple none ([x, y, z].map Term.ofScalar)) (.vec3 x y z) _ :=
      .together _ (each nesting) (List.cons_ne_nil _ _) rfl fun s => rfl
    exact kept_alternative "Vec3" (by decide) numbers (fun _ _ => rfl) nesting
  | @array vs each ih =>
    rw [Value.toTerm, elementTerms_eq, valueLevels, elementLevels_eq]
    have elements (nesting : Nat) := (Kept.list fun v inside => ih v inside nesting).mapped Value.array
    exact kept_alternative "Array" (by decide) elements (fun _ _ => rfl) nesting
  | @object className ms distinct each ih =>
    rw [Value.toTerm, memberTerms_eq, valueLevels, memberLevels_eq]
    have members (nesting : Nat) : Kept nesting (Decoder.map Decoder.text (Value.ofTerm? nesting))
        (.map (ms.map fun m => (.text m.1, m.2.toTerm))) ms (brackets (ms.map fun m => max 0 (valueLevels m.2))) :=
      Kept.map (fun m _ => Kept.text m.1) fun m inside => ih m inside nesting
    have object (nesting : Nat) : Kept nesting (Value.object? (Value.ofTerm? nesting))
        (.record none [("class_name", .text className), ("members", .map (ms.map fun m => (.text m.1, m.2.toTerm)))])
        (.object className ms) (brackets [0, brackets (ms.map fun m => max 0 (valueLevels m.2))]) :=
      .record (Nat.le_succ _) "ObjectValue" rfl (by decide) (by decide) (by decide)
        (.field rfl (.text className) (.field rfl (members nesting) (.done (by rw [Entries.ofList_eq_self distinct]))))
    exact kept_alternative "Object" (by decide) object (fun _ _ => rfl) nesting

theorem kept_read (regular : Regular v) : Kept reach Value.read? v.toTerm v (valueLevels v) :=
  .unbounded (kept_value regular)

/-! ## Identities -/

theorem kept_nodeId {id : NodeId} (fits : id.value < 2 ^ 64) : Kept reach NodeId.ofTerm? id.toTerm id 1 :=
  ((Kept.nat (contains_unsigned.mpr fits)).newtype "NodeId").mapped NodeId.mk

theorem kept_identifier (i : Identifier) : Kept reach Identifier.ofTerm? i.toTerm i 1 :=
  ((Kept.nat (contains_unsigned.mpr i.hash.toNat_lt)).newtype "Identifier").made
    (congrArg Identifier.mk UInt32.ofNat_toNat)

/-! ## Prototypes -/

/-- The levels that reading an endpoint takes. -/
def endpointLevels (e : Endpoint) : Nat := brackets [1, valueLevels e.value]

theorem kept_endpoint (regular : Regular e.value) : Kept reach Endpoint.ofTerm? e.toTerm e (endpointLevels e) :=
  .record (Nat.le_succ _) "Endpoint" rfl (by decide) (by decide) (by decide)
    (.field rfl (kept_identifier e.id) (.field rfl (kept_read regular) (.done rfl)))

theorem kept_endpoints {es : List Endpoint} (regular : ∀ e ∈ es, Regular e.value) :
    Kept reach (.list Endpoint.ofTerm?) (.list (es.map Endpoint.toTerm)) es (brackets (es.map endpointLevels)) :=
  .list fun e inside => kept_endpoint (regular e inside)

theorem kept_connectionEnd {e : ConnectionEnd} (fits : e.node.value < 2 ^ 64) :
    Kept reach ConnectionEnd.ofTerm? e.toTerm e (brackets [1, 1]) :=
  .record (Nat.le_succ _) "ConnectionEndpoint" rfl (by decide) (by decide) (by decide)
    (.field rfl (kept_nodeId fits) (.field rfl (kept_identifier e.endpoint) (.done rfl)))

theorem kept_connection (source : c.source.node.value < 2 ^ 64) (destination : c.destination.node.value < 2 ^ 64) :
    Kept reach Connection.ofTerm? c.toTerm c (brackets [brackets [1, 1], brackets [1, 1], 2]) := by
  have kind : Kept reach Decoder.enumerated (.ofEnumerated c.kind) c.kind 2 := by
    cases c.kind <;> exact .enumerated _ (by decide) (by decide)
  exact .record (Nat.le_succ _) "PrototypeConnection" rfl (by decide) (by decide) (by decide)
    (.field rfl (kept_connectionEnd source) (.field rfl (kept_connectionEnd destination) (.field rfl kind (.done rfl))))

/-- A prototype, and those in it, without NaN and with identities of 64 bits. -/
inductive RegularPrototype : Prototype → Prop where
  | mk {p : Prototype} (id : p.id.value < 2 ^ 64) (inputs : ∀ e ∈ p.inputs, Regular e.value)
      (outputs : ∀ e ∈ p.outputs, Regular e.value) (shared : ∀ e ∈ p.variablePlugs, Regular e.value)
      (ids : ∀ n ∈ p.nodes, n.id.value < 2 ^ 64) (plugs : ∀ n ∈ p.nodes, ∀ e ∈ n.plugs, Regular e.value)
      (nested : ∀ n ∈ p.nodes, ∀ q, n.subroutine = some q → RegularPrototype q)
      (connections : ∀ c ∈ p.connections, c.source.node.value < 2 ^ 64 ∧ c.destination.node.value < 2 ^ 64) :
      RegularPrototype p

/-- The levels that reading a node takes, over those of its subroutine if it has one. -/
def runtimeNodeLevels (plugs : List Endpoint) (subroutine : Option Nat) : Nat :=
  brackets [1, 1, brackets (plugs.map endpointLevels), (subroutine.map fun levels => 1 + levels).getD 0]

mutual

/-- The levels that reading a prototype takes. -/
def prototypeLevels : Prototype → Nat
  | ⟨_, _, _, inputs, outputs, plugs, nodes, connections⟩ =>
    brackets [0, 1, 0, brackets (inputs.map endpointLevels), brackets (outputs.map endpointLevels),
      brackets (plugs.map endpointLevels), brackets (levelsOfNodes nodes),
      brackets (connections.map fun _ => brackets [brackets [1, 1], brackets [1, 1], 2])]

/-- The levels that reading each of some nodes takes. -/
def levelsOfNodes : List (RuntimeNode Prototype) → List Nat
  | [] => []
  | ⟨_, _, plugs, none⟩ :: rest => runtimeNodeLevels plugs none :: levelsOfNodes rest
  | ⟨_, _, plugs, some sub⟩ :: rest => runtimeNodeLevels plugs (some (prototypeLevels sub)) :: levelsOfNodes rest

end

theorem nodeTerms_eq (ns : List (RuntimeNode Prototype)) : Prototype.nodeTerms ns =
    ns.map fun n => Prototype.nodeTerm n.type n.id n.plugs (n.subroutine.map Prototype.toTerm) := by
  induction ns with
  | nil => rfl
  | cons n ns ih =>
    obtain ⟨type, id, plugs, _ | sub⟩ := n <;> rw [Prototype.nodeTerms, ih] <;> rfl

theorem levelsOfNodes_eq (ns : List (RuntimeNode Prototype)) :
    levelsOfNodes ns = ns.map fun n => runtimeNodeLevels n.plugs (n.subroutine.map prototypeLevels) := by
  induction ns with
  | nil => rfl
  | cons n ns ih =>
    obtain ⟨type, id, plugs, _ | sub⟩ := n <;> rw [levelsOfNodes, ih] <;> rfl

theorem kept_runtimeNode {decode : Decoder Prototype} (id : n.id.value < 2 ^ 64)
    (plugs : ∀ e ∈ n.plugs, Regular e.value)
    (nested : ∀ q, n.subroutine = some q → Kept reach decode q.toTerm q (prototypeLevels q)) :
    Kept reach (Prototype.runtimeNode? decode)
      (Prototype.nodeTerm n.type n.id n.plugs (n.subroutine.map Prototype.toTerm)) n
      (runtimeNodeLevels n.plugs (n.subroutine.map prototypeLevels)) := by
  obtain ⟨type, id', literals, subroutine⟩ := n
  have sub : Kept reach (.option "Prototype" decode) (.ofOption (subroutine.map Prototype.toTerm)) subroutine
      (((subroutine.map prototypeLevels).map fun levels => 1 + levels).getD 0) := by
    cases subroutine with
    | none => exact .absent "Prototype"
    | some q => exact (nested q rfl).present "Prototype"
  rw [Prototype.nodeTerm]
  exact .record (Nat.le_succ _) "PrototypeNode" rfl (by decide) (by decide) (by decide)
    (.field rfl (kept_identifier type) (.field rfl (kept_nodeId id) (.field rfl (kept_endpoints plugs)
      (.fieldOr none rfl sub (.done rfl)))))

/-- A prototype is taken back by a decoder that may nest as deep as there are levels. -/
theorem kept_prototype (regular : RegularPrototype p) (nesting : Nat) :
    Kept nesting (Prototype.ofTerm? nesting) p.toTerm p (prototypeLevels p) := by
  induction regular generalizing nesting with
  | @mk p id inputs outputs shared ids plugs _ connections ih =>
    have further (nesting : Nat) :
        Kept (nesting + 1) (Prototype.ofTerm? (nesting + 1)) p.toTerm p (prototypeLevels p) := by
      obtain ⟨name, id', skeleton, ins, outs, vars, nodes, links⟩ := p
      have each := Kept.list fun n inside =>
        kept_runtimeNode (ids n inside) (plugs n inside) fun q owns => ih n inside q owns nesting
      have joined : Kept nesting (.list Connection.ofTerm?) (.list (links.map Connection.toTerm)) links _ :=
        .list fun c inside => kept_connection (connections c inside).1 (connections c inside).2
      have handle : (WholeType.unsigned 64).contains skeleton.toNat = true := contains_unsigned.mpr skeleton.toNat_lt
      rw [Prototype.toTerm, nodeTerms_eq, prototypeLevels, levelsOfNodes_eq]
      exact .record (Nat.le_refl _) "Prototype" rfl (by decide) (by decide) (by decide)
        (.field rfl (.text name) (.field rfl (kept_nodeId id) (.field rfl (.nat handle)
          (.field rfl (kept_endpoints inputs) (.field rfl (kept_endpoints outputs) (.field rfl (kept_endpoints shared)
            (.field rfl each (.field rfl joined (.done (by rw [UInt64.ofNat_toNat]))))))))))
    cases nesting with
    | zero => exact ⟨(further 0).legible, fun left reached => absurd reached (Nat.not_lt_zero left)⟩
    | succ nesting => exact further nesting

end PoseGraph.PrototypeTerms
