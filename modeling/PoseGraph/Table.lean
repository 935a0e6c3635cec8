/-!
Insertion-ordered tables: finite maps that remember the order in which their keys were added.

A key occurs once (`Table.nodup`). Writing to a key that is present replaces its value where it
stands, writing to a new key appends it, and erasing a key keeps the order of the others.
-/

namespace PoseGraph

namespace Entries

variable {κ α : Type} [DecidableEq κ]

/-- Write `v` under `k`: in place if the key is present, else at the end. -/
def insert : List (κ × α) → κ → α → List (κ × α)
  | [], k, v => [(k, v)]
  | (k', v') :: rest, k, v =>
    if k' = k then (k, v) :: rest else (k', v') :: insert rest k v

/-- The value under the first occurrence of a key. -/
def get? (es : List (κ × α)) (k : κ) : Option α :=
  (es.find? fun e => e.1 == k).map Prod.snd

/-- A table built by writing pairs from left to right. -/
def ofList (es : List (κ × α)) : List (κ × α) :=
  es.foldl (fun acc e => insert acc e.1 e.2) []

/-- Two lists of entries with distinct keys hold the same keys, and values under each key that
`same` accepts; order does not matter. -/
def sameBy (same : α → α → Bool) (a b : List (κ × α)) : Bool :=
  a.length == b.length &&
    a.all fun e => (get? b e.1).any fun v => same e.2 v

theorem mem_keys_insert {es : List (κ × α)} {k x : κ} {v : α} :
    x ∈ (insert es k v).map Prod.fst ↔ x ∈ es.map Prod.fst ∨ x = k := by
  induction es with
  | nil => simp [insert]
  | cons e rest ih =>
    obtain ⟨k', v'⟩ := e
    by_cases h : k' = k
    · simp only [insert, h, if_true, List.map_cons, List.mem_cons]
      grind
    · simp only [insert, h, if_false, List.map_cons, List.mem_cons, ih]
      grind

theorem nodup_insert {es : List (κ × α)} (h : (es.map Prod.fst).Nodup) (k : κ) (v : α) :
    ((insert es k v).map Prod.fst).Nodup := by
  induction es with
  | nil => simp [insert]
  | cons e rest ih =>
    obtain ⟨k', v'⟩ := e
    rw [List.map_cons, List.nodup_cons] at h
    by_cases hk : k' = k
    · subst hk
      simpa [insert] using h
    · simp only [insert, hk, if_false, List.map_cons, List.nodup_cons]
      refine ⟨fun hmem => ?_, ih h.2⟩
      rcases mem_keys_insert.1 hmem with hmem | hmem
      · exact h.1 hmem
      · exact hk hmem

/-- A new key goes to the end. -/
theorem insert_of_not_mem {es : List (κ × α)} {k : κ} (h : k ∉ es.map Prod.fst) (v : α) :
    insert es k v = es ++ [(k, v)] := by
  induction es with
  | nil => rfl
  | cons e rest ih =>
    obtain ⟨k', v'⟩ := e
    rw [List.map_cons, List.mem_cons, not_or] at h
    rw [insert, if_neg (Ne.symm h.1), ih h.2, List.cons_append]

/-- Writing pairs with distinct keys keeps them as they are. -/
theorem ofList_eq_self {es : List (κ × α)} (h : (es.map Prod.fst).Nodup) : ofList es = es := by
  have fold (acc rest : List (κ × α)) (h : ((acc ++ rest).map Prod.fst).Nodup) :
      rest.foldl (fun acc e => insert acc e.1 e.2) acc = acc ++ rest := by
    induction rest generalizing acc with
    | nil => simp
    | cons e rest ih =>
      have hnew : e.1 ∉ acc.map Prod.fst := by
        rw [List.map_append, List.map_cons, List.nodup_append] at h
        exact fun hmem => h.2.2 e.1 hmem e.1 List.mem_cons_self rfl
      rw [List.foldl_cons, insert_of_not_mem hnew, ih _ (by simpa using h), List.append_assoc]
      rfl
  exact fold [] es h

end Entries

/-- A finite map with an order on its keys. -/
structure Table (κ α : Type) where
  /-- Keys with their values, in order. -/
  entries : List (κ × α)
  /-- No key occurs twice. -/
  nodup : (entries.map Prod.fst).Nodup

namespace Table

variable {κ α : Type}

/-- The table without keys. -/
def empty : Table κ α := ⟨[], List.nodup_nil⟩

instance : Inhabited (Table κ α) := ⟨empty⟩

/-- Keys in order. -/
def keys (t : Table κ α) : List κ := t.entries.map Prod.fst

/-- Values in order. -/
def values (t : Table κ α) : List α := t.entries.map Prod.snd

/-- Number of keys. -/
def size (t : Table κ α) : Nat := t.entries.length

/-- Whether there is no key. -/
def isEmpty (t : Table κ α) : Bool := t.entries.isEmpty

/-- Change every value, knowing its key. -/
def mapValues {β : Type} (t : Table κ α) (f : κ → α → β) : Table κ β where
  entries := t.entries.map fun e => (e.1, f e.1 e.2)
  nodup := by simpa [List.map_map, Function.comp_def] using t.nodup

/-- Keep the entries whose key passes a test. -/
def filterKeys (t : Table κ α) (p : κ → Bool) : Table κ α where
  entries := t.entries.filter fun e => p e.1
  nodup := t.nodup.sublist (List.filter_sublist.map _)

/-- Stable sort of the entries. -/
def sortBy (t : Table κ α) (le : κ → κ → Bool) : Table κ α where
  entries := t.entries.mergeSort fun a b => le a.1 b.1
  nodup := (((List.mergeSort_perm t.entries _).map _).nodup_iff).2 t.nodup

variable [DecidableEq κ]

/-- The value under a key. -/
def get? (t : Table κ α) (k : κ) : Option α := Entries.get? t.entries k

/-- Whether a key is present. -/
def contains (t : Table κ α) (k : κ) : Bool := t.entries.any fun e => e.1 == k

/-- Write a value: in place if the key is present, else at the end. -/
def insert (t : Table κ α) (k : κ) (v : α) : Table κ α :=
  ⟨Entries.insert t.entries k v, Entries.nodup_insert t.nodup k v⟩

/-- Write pairs from left to right into the empty table. -/
def ofList (es : List (κ × α)) : Table κ α :=
  es.foldl (fun t e => t.insert e.1 e.2) empty

theorem entries_ofList (es : List (κ × α)) : (ofList es).entries = Entries.ofList es := by
  have fold (es : List (κ × α)) (t : Table κ α) : (es.foldl (fun t e => t.insert e.1 e.2) t).entries =
      es.foldl (fun acc e => Entries.insert acc e.1 e.2) t.entries := by
    induction es generalizing t with
    | nil => rfl
    | cons e es ih => exact ih _
  exact fold es empty

/-- A table is made of its entries. -/
theorem ofList_entries (t : Table κ α) : ofList t.entries = t := by
  have ext {t u : Table κ α} (h : t.entries = u.entries) : t = u := by
    cases t
    cases u
    cases h
    rfl
  exact ext ((entries_ofList _).trans (Entries.ofList_eq_self t.nodup))

/-- Drop a key. -/
def erase (t : Table κ α) (k : κ) : Table κ α := t.filterKeys (· != k)

/-- Change the value under a key, if it is present. -/
def modify (t : Table κ α) (k : κ) (f : α → α) : Table κ α :=
  t.mapValues fun k' v => if k' = k then f v else v

/-- Both tables hold the same keys, with values that `same` accepts; order does not matter. -/
def sameBy (same : α → α → Bool) (a b : Table κ α) : Bool := Entries.sameBy same a.entries b.entries

end Table

end PoseGraph
