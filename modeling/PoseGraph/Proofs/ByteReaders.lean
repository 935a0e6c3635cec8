import Mathlib.Algebra.Group.Nat.Defs
import Mathlib.Data.List.Infix
import PoseGraph.Bytes

/-! Readers that undo what writes bytes. A reader decodes some bytes as a value if it takes
exactly these from the front of anything, whatever follows, and takes nothing else from any
beginning of it. Both pass from parts to the whole, so that a layout is read back as soon
as each of its fields is. -/
namespace PoseGraph.ByteReaders
open Bytes

variable {α β : Type} {r : Reader α} {f : α → Reader β} {bs cs : List UInt8} {x : α} {y : β} {deep deeper : Prop}

/-- A reader that takes some bytes for a value. It has to, if it may go deep enough; and
from what agrees with these bytes as far as both reach it never reads anything else. -/
structure Decodes (deep : Prop) (r : Reader α) (bs : List UInt8) (x : α) : Prop where
  reads : deep → ∀ rest, r (bs ++ rest) = some (x, rest)
  only : ∀ front rest y, front <+: bs ++ rest → r front = some y → y.1 = x ∧ front = bs ++ y.2

theorem Decodes.mono (decodes : Decodes deep r bs x) (enough : deeper → deep) : Decodes deeper r bs x :=
  ⟨fun deeper => decodes.reads (enough deeper), decodes.only⟩

/-- What is always read is read if one may go deep enough. -/
theorem Decodes.always (decodes : Decodes True r bs x) : Decodes deep r bs x := decodes.mono fun _ => trivial

/-- A reader fails on all that is cut off. -/
theorem Decodes.fails (decodes : Decodes deep r bs x) (cut : cs <+: bs) (short : cs ≠ bs) : r cs = none := by
  cases result : r cs with
  | none => rfl
  | some y =>
    obtain ⟨-, whole⟩ := decodes.only cs [] y (by simpa using cut) result
    have fits := cut.length_le
    rw [whole, List.length_append] at fits
    have nothing : y.2 = [] := List.eq_nil_of_length_eq_zero (by omega)
    rw [nothing, List.append_nil] at whole
    exact absurd whole short

/-! ## Readers made of others -/

theorem decodes_pure (x : α) : Decodes True (pure x) [] x := by
  refine ⟨fun _ rest => rfl, fun front rest y _ result => ?_⟩
  cases result
  exact ⟨rfl, rfl⟩

/-- A reader that is not deep enough fails. -/
theorem decodes_failure (never : ¬deep) : Decodes deep (failure : Reader α) bs x :=
  ⟨fun deep => absurd deep never, fun _ _ _ _ result => nomatch result⟩

/-- One value behind the other. -/
theorem decodes_bind (first : Decodes deep r bs x) (second : Decodes deeper (f x) cs y) :
    Decodes (deep ∧ deeper) (r >>= f) (bs ++ cs) y := by
  have unfolds (input : List UInt8) : (r >>= f) input = (r input).bind fun result => f result.1 result.2 := rfl
  refine ⟨fun both rest => ?_, fun front rest z agrees result => ?_⟩
  · rw [unfolds, List.append_assoc, first.reads both.1, Option.bind_some, second.reads both.2]
  · rw [unfolds] at result
    obtain ⟨⟨head, behind⟩, left, right⟩ := Option.bind_eq_some_iff.mp result
    rw [List.append_assoc] at agrees
    obtain ⟨rfl, rfl⟩ := first.only front _ _ agrees left
    obtain ⟨same, whole⟩ := second.only behind rest z ((List.prefix_append_right_inj bs).mp agrees) right
    exact ⟨same, by rw [whole, List.append_assoc]⟩

/-- One value behind another one that is always read. -/
theorem decodes_next (first : Decodes True r bs x) (second : Decodes deep (f x) cs y) :
    Decodes deep (r >>= f) (bs ++ cs) y :=
  (decodes_bind first second).mono fun deep => ⟨trivial, deep⟩

/-- What is read may be changed. -/
theorem decodes_map {g : α → β} (decodes : Decodes deep r bs x) (same : g x = y) :
    Decodes deep (r >>= fun x => pure (g x)) bs y := by
  subst same
  have done := (decodes_bind decodes (f := fun x => pure (g x)) (decodes_pure (g x))).mono
    fun (enough : deep) => ⟨enough, trivial⟩
  rwa [List.append_nil] at done

/-- Elements one behind the other. -/
theorem decodes_many {bytes : α → List UInt8} {deep : α → Prop} {xs : List α}
    (each : ∀ x ∈ xs, Decodes (deep x) r (bytes x) x) :
    Decodes (∀ x ∈ xs, deep x) (Reader.many r xs.length) (xs.flatMap bytes) xs := by
  induction xs with
  | nil => exact (decodes_pure []).mono fun _ => trivial
  | cons x xs ih =>
    obtain ⟨head, tail⟩ := List.forall_mem_cons.mp each
    exact (decodes_bind head (decodes_map (g := (x :: ·)) (ih tail) rfl)).mono List.forall_mem_cons.mp

/-! ## Readers of plain values -/

theorem decodes_byte (b : UInt8) : Decodes True Reader.byte [b] b := by
  refine ⟨fun _ rest => rfl, fun front rest y agrees result => ?_⟩
  cases front with
  | nil => cases result
  | cons c front =>
    cases result
    obtain ⟨rfl, -⟩ := List.cons_prefix_cons.mp agrees
    exact ⟨rfl, rfl⟩

/-- A number is read back if it has no more bytes than are written. -/
theorem decodes_number {count n : Nat} (fits : n < 256 ^ count) :
    Decodes True (Reader.number count) (littleEndian count n) n := by
  induction count generalizing n with
  | zero =>
    have zero : n = 0 := by simpa using fits
    subst zero
    exact decodes_pure 0
  | succ count ih =>
    have high : n / 256 < 256 ^ count := Nat.div_lt_of_lt_mul (by rwa [Nat.pow_succ, Nat.mul_comm] at fits)
    refine decodes_next (decodes_byte _) (decodes_map (ih high) ?_)
    rw [UInt8.toNat_ofNat']
    exact Nat.mod_add_div n 256

theorem decodes_tag {n : Nat} (fits : n < 256 ^ tagWidth) : Decodes True Reader.tag (ofTag n) n := decodes_number fits

theorem decodes_length {n : Nat} (fits : n < 256 ^ lengthWidth) : Decodes True Reader.length (ofLength n) n :=
  decodes_number fits

theorem decodes_bool (b : Bool) : Decodes True Reader.bool (ofBool b) b := by
  cases b with
  | false => exact decodes_next (decodes_byte 0) (decodes_pure false)
  | true => exact decodes_next (decodes_byte 1) (decodes_pure true)

theorem decodes_take (bs : List UInt8) : Decodes True (Reader.take bs.length) bs bs := by
  refine ⟨fun _ rest => ?_, fun front rest y agrees result => ?_⟩
  · simp [Reader.take]
  · rw [Reader.take] at result
    split at result
    · rename_i long
      cases result
      obtain ⟨missing, whole⟩ := agrees
      have taken : front.take bs.length = bs := by
        have longer : (front ++ missing).take bs.length = front.take bs.length := List.take_append_of_le_length long
        rw [← longer, whole, List.take_left]
      refine ⟨taken, ?_⟩
      conv_rhs => rw [← taken]
      rw [List.length_take_of_le long]
      exact (List.take_append_drop bs.length front).symm
    · cases result

/-- A text is read back if its length can be told. -/
theorem decodes_string {s : String} (fits : s.utf8ByteSize < 256 ^ lengthWidth) :
    Decodes True Reader.string (ofString s) s := by
  have size : s.toUTF8.data.toList.length = s.utf8ByteSize := String.size_toByteArray
  have back : String.fromUTF8? ⟨s.toUTF8.data.toList.toArray⟩ = some s := by
    rw [Array.toArray_toList, String.fromUTF8?, dif_pos (by exact s.isValidUTF8)]
    rfl
  rw [ofString, ← List.append_nil s.toUTF8.data.toList]
  refine decodes_next (decodes_length fits) (decodes_next (x := s.toUTF8.data.toList) ?_ ?_)
  · rw [← size]
    exact decodes_take _
  · simp only [back]
    exact decodes_pure s

/-- A list is read back if its length can be told and each element is read back. -/
theorem decodes_list {bytes : α → List UInt8} {deep : α → Prop} {xs : List α} (fits : xs.length < 256 ^ lengthWidth)
    (each : ∀ x ∈ xs, Decodes (deep x) r (bytes x) x) :
    Decodes (∀ x ∈ xs, deep x) (Reader.list r) (ofList bytes xs) xs :=
  decodes_next (decodes_length fits) (decodes_many each)

end PoseGraph.ByteReaders
