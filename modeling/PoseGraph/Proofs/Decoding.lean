import PoseGraph.Document.Schema
import PoseGraph.Proofs.ScalarTexts
import PoseGraph.Proofs.TermReading
import PoseGraph.Table

/-! A decoder takes back what a term was made of if there are levels enough, and fails if
there are not. How many that are is told exactly, decoder by decoder, so that what is said of
a record, a list or a map follows from what is said of its parts. -/
namespace PoseGraph.Decoding
open Document ScalarTexts TermReading TermTokens WrittenDigits

variable {α β κ : Type} {decode : Decoder α} {t : Term} {x : α} {levels reach : Nat}

/-! ## Levels -/

/-- The levels between brackets: one for each value and those that it takes itself. -/
def most (inside : List Nat) : Nat := inside.foldr (fun n m => max (n + 1) m) 0

/-- The levels that brackets take around what takes the given ones. -/
def brackets (inside : List Nat) : Nat := 1 + most inside

theorem most_cons_le {inside : List Nat} {n left : Nat} : most (n :: inside) ≤ left ↔ n < left ∧ most inside ≤ left :=
  max_le_iff

theorem most_le_iff {inside : List Nat} {left : Nat} : most inside ≤ left ↔ ∀ n ∈ inside, n < left := by
  induction inside with
  | nil => simp [most]
  | cons n inside ih =>
    rw [List.forall_mem_cons, ← ih, most_cons_le]

theorem lt_most {inside : List Nat} {n : Nat} (member : n ∈ inside) : n < most inside :=
  most_le_iff.mp (Nat.le_refl _) n member

/-! ## Numbers -/

theorem isPlainNumber_signed {lexeme : String} {isNegative : Bool} {c : Char} {cs : List Char}
    (spelled : lexeme.toList = sign isNegative ++ c :: cs) (digit : c.isDigit = true)
    (others : ∀ d ∈ cs, d.isDigit = true ∨ d = '.') : isPlainNumber lexeme = true := by
  have goes_on (d : Char) (inside : d ∈ c :: cs) : continuesRaw d = true := by
    rcases List.mem_cons.mp inside with rfl | inside
    · simp [continuesRaw, continuesWord_of_isWordLike (isWordLike_of_isDigit digit)]
    · rcases others d inside with digit | rfl
      · simp [continuesRaw, continuesWord_of_isWordLike (isWordLike_of_isDigit digit)]
      · simp [continuesRaw]
  cases isNegative with
  | true =>
    simp only [isPlainNumber, spelled, sign, if_true, List.cons_append, List.nil_append, List.all_eq_true.mpr goes_on]
    rfl
  | false =>
    simp only [isPlainNumber, spelled, sign, Bool.false_eq_true, if_false, List.nil_append, digit, Bool.true_or,
      Bool.true_and, List.all_eq_true]
    exact fun d inside => goes_on d (List.mem_cons_of_mem c inside)

theorem isPlainNumber_repr (n : Int) : isPlainNumber (Int.repr n) = true := by
  have digits (n : Nat) : ∃ c cs, Nat.toDigits 10 n = c :: cs ∧ c.isDigit = true ∧ ∀ d ∈ cs, d.isDigit = true ∨ d = '.' := by
    obtain ⟨c, cs, same⟩ := List.exists_cons_of_ne_nil (Nat.toDigits_ne_nil (n := n) (b := 10))
    have each : ∀ d ∈ c :: cs, d.isDigit = true := fun d inside => isDigit_of_mem (n := n) (same ▸ inside)
    rw [List.forall_mem_cons] at each
    exact ⟨c, cs, same, each.1, fun d inside => .inl (each.2 d inside)⟩
  cases n with
  | ofNat n =>
    obtain ⟨c, cs, same, first, others⟩ := digits n
    have spelled : (Int.repr (.ofNat n)).toList = sign false ++ c :: cs := by simp [Int.repr, sign, same]
    exact isPlainNumber_signed spelled first others
  | negSucc n =>
    obtain ⟨c, cs, same, first, others⟩ := digits (n + 1)
    have spelled : (Int.repr (.negSucc n)).toList = sign true ++ c :: cs := by simp [Int.repr, sign, same]
    exact isPlainNumber_signed spelled first others

theorem contains_unsigned {width n : Nat} : (WholeType.unsigned width).contains n = true ↔ n < 2 ^ width := by
  have power : Int.pow 2 width = ((2 ^ width : Nat) : Int) := by
    push_cast
    rfl
  simp only [WholeType.contains, WholeType.unsigned, Bool.false_eq_true, if_false, power, Bool.and_eq_true, decide_eq_true_eq]
  omega

theorem contains_signed {width : Nat} {n : Int} :
    (WholeType.signed width).contains n = true ↔ -2 ^ (width - 1) ≤ n ∧ n < 2 ^ (width - 1) := by
  rw [WholeType.contains, WholeType.signed, if_pos rfl, Bool.and_eq_true, decide_eq_true_iff, decide_eq_true_iff]
  exact Iff.rfl

/-- Numbers are spelled so that they are scanned as numbers, or as words where they have a name
without a sign. -/
theorem legible_ofScalar {x : Scalar} (number : x.isNaN = false) : Legible 1 (.ofScalar x) := by
  cases infinite : x.isInfinite with
  | true =>
    have spelled := toText_infinite infinite
    cases negative : x.isNegative with
    | true =>
      have plain : isPlainNumber x.toText = true := by
        rw [isPlainNumber, spelled, negative]
        decide +kernel
      simpa [Term.ofScalar, number, infinite, negative] using Legible.number plain
    | false =>
      have plain : isPlainWord x.toText = true := by
        rw [← String.ofList_toList (s := x.toText), spelled, negative]
        decide
      simpa [Term.ofScalar, number, infinite, negative] using Legible.word plain
  | false =>
    obtain ⟨whole, fraction, spelling, some_whole, digits, -⟩ := toText_finite (magnitude_lt number infinite)
    obtain ⟨c, cs, rfl⟩ := List.exists_cons_of_ne_nil some_whole
    have others (d : Char) (inside : d ∈ cs ++ '.' :: fraction) : d.isDigit = true ∨ d = '.' := by
      by_cases point : d = '.'
      · exact .inr point
      · exact .inl (digits d (List.mem_cons_of_mem c (by simpa [point] using inside)))
    have plain := isPlainNumber_signed spelling (digits c (by simp)) others
    simpa [Term.ofScalar, number, infinite] using Legible.number plain

/-! ## What is taken back -/

/-- The circumstances in a document without attributes. -/
abbrev plain (left : Nat) : Scope := ⟨{}, left⟩

/-- What is read some levels deeper takes as many levels more. -/
theorem deeper_bind {read : Scope → Option α} {count levels left : Nat}
    (inside : count ≤ left → read (plain (left - count)) = if levels ≤ left - count then some x else none) :
    ((plain left).deeper? count >>= read) = if count + levels ≤ left then some x else none := by
  have deeper : (plain left).deeper? count = if count ≤ left then some (plain (left - count)) else none := rfl
  rw [deeper]
  by_cases enough : count ≤ left
  · have shifted : count + levels ≤ left ↔ levels ≤ left - count := by omega
    simp only [enough, if_true, shifted]
    exact inside enough
  · have few : ¬ count + levels ≤ left := by omega
    simp [enough, few]

/-- From a term that is read back from its text, a decoder takes what it was made of if as many
levels are left as it takes, and nothing otherwise. This is known where fewer levels are left
than it can reach. -/
structure Kept (reach : Nat) (decode : Decoder α) (t : Term) (x : α) (levels : Nat) : Prop where
  legible : Legible (levels + 1) t
  decoded : ∀ left < reach, decode (plain left) t = if levels ≤ left then some x else none

namespace Kept

theorem mapped (kept : Kept reach decode t x levels) (f : α → β) :
    Kept reach (fun s t => (decode s t).map f) t (f x) levels where
  legible := kept.legible
  decoded left inside := by
    rw [kept.decoded left inside]
    split <;> rfl

/-- What is taken back may be made into something else. -/
theorem made {y : β} (kept : Kept reach decode t x levels) {f : α → β} (same : f x = y) :
    Kept reach (fun s t => (decode s t).map f) t y levels :=
  same ▸ kept.mapped f

/-- A decoder that may nest as deep as there are levels reaches everything. -/
theorem unbounded {decode : Nat → Decoder α} (kept : ∀ nesting, Kept nesting (decode nesting) t x levels) :
    Kept reach (fun s t => decode (s.levels + 1) s t) t x levels :=
  ⟨(kept 0).legible, fun left _ => (kept (left + 1)).decoded left (Nat.lt_succ_self left)⟩

theorem text (s : String) : Kept reach Decoder.text (.text s) s 0 := ⟨.text s, fun _ _ => rfl⟩

theorem bool (b : Bool) : Kept reach Decoder.bool (.ofBool b) b 0 where
  legible := .word (by cases b <;> decide)
  decoded left _ := by cases b <;> rfl

theorem whole {type : WholeType} {n : Int} (fits : type.contains n = true) :
    Kept reach (Decoder.whole type) (.ofInt n) n 0 where
  legible := .number (isPlainNumber_repr n)
  decoded _ _ := readWhole_repr fits

theorem nat {width n : Nat} (fits : (WholeType.unsigned width).contains n = true) :
    Kept reach (Decoder.nat width) (.ofNat n) n 0 :=
  (whole fits).mapped Int.toNat

theorem scalar {x : Scalar} (number : x.isNaN = false) : Kept reach Decoder.scalar (.ofScalar x) x 0 where
  legible := legible_ofScalar number
  decoded left _ := by
    have read := readScalar_toText number
    unfold Term.ofScalar
    split <;> exact read

theorem enumerated [Enumerated α] (x : α) (spelled : isPlainWord (Enumerated.name x) = true)
    (named : Enumerated.ofName? (Enumerated.name x) = some x) : Kept reach Decoder.enumerated (.ofEnumerated x) x 2 where
  legible := .word spelled
  decoded left _ := by
    have read : Enumerated.ofName? (nameOf (Enumerated.name x)) = some x := by rw [nameOf_plain spelled, named]
    by_cases enough : 2 ≤ left <;> simp [Decoder.enumerated, Term.ofEnumerated, Scope.deeper?, enough, read]

/-- Brackets around a single value take a level. -/
theorem newtype (name : String) (kept : Kept reach decode t x levels) :
    Kept reach (Decoder.newtype name decode) (.newtype t) x (1 + levels) where
  legible := .tuple (by simp) (List.cons_ne_nil t []) (List.forall_mem_singleton.mpr (kept.legible.mono (by omega)))
  decoded left inside := deeper_bind fun _ => kept.decoded (left - 1) (by omega)

theorem absent (name : String) : Kept reach (Decoder.option name decode) (.ofOption none) none 0 :=
  ⟨.word (by decide), fun _ _ => rfl⟩

/-- So do the brackets of a structure that may be absent and is not. -/
theorem present (name : String) (kept : Kept reach decode t x levels) :
    Kept reach (Decoder.option name decode) (.ofOption (some t)) (some x) (1 + levels) where
  legible := .optional (kept.legible.mono (by omega))
  decoded left inside := deeper_bind fun _ => by
    refine (congrArg (Option.map some) (kept.decoded (left - 1) (by omega))).trans ?_
    split <;> rfl

end Kept

/-! ## Elements -/

/-- What is read one by one takes as many levels as the deepest does, and one more. -/
theorem mapM_most {read : β → Option α} {make : β → α} {own : β → Nat} {ys : List β} {left : Nat}
    (each : ∀ y ∈ ys, read y = if 1 + own y ≤ left then some (make y) else none) :
    ys.mapM read = if most (ys.map own) ≤ left then some (ys.map make) else none := by
  induction ys with
  | nil => simp [most]
  | cons y ys ih =>
    rw [List.forall_mem_cons] at each
    have both : most ((y :: ys).map own) ≤ left ↔ 1 + own y ≤ left ∧ most (ys.map own) ≤ left := by
      rw [List.map_cons, most_cons_le]
      omega
    rw [List.mapM_cons, each.1, ih each.2, if_congr both rfl rfl]
    by_cases first : 1 + own y ≤ left <;> by_cases others : most (ys.map own) ≤ left <;> simp [first, others]

namespace Kept

variable {key : Decoder κ} {toTerm : α → Term} {keyTerm : κ → Term} {own : α → Nat} {xs : List α}

/-- Elements between brackets take a level each. -/
theorem items (each : ∀ x ∈ xs, Kept reach decode (toTerm x) x (own x)) (left : Nat) (inside : left < reach) :
    Decoder.items decode (plain left) (xs.map toTerm) = if most (xs.map own) ≤ left then some xs else none := by
  have element (x : α) (member : x ∈ xs) : (do decode (← (plain left).deeper? 1) (toTerm x)) =
      if 1 + own x ≤ left then some x else none :=
    deeper_bind fun _ => (each x member).decoded (left - 1) (by omega)
  simpa [Decoder.items, Function.comp_def] using mapM_most element

/-- A term between brackets is read if it nests no deeper than they do. -/
theorem legible_inside {inside : List Nat} {n : Nat} (kept : Kept reach decode t x levels) (member : n ∈ inside)
    (shallow : levels ≤ n) : Legible (brackets inside) t :=
  kept.legible.mono (Nat.le_trans (Nat.succ_le_of_lt (Nat.lt_of_le_of_lt shallow (lt_most member))) (Nat.le_add_left _ 1))

theorem list (each : ∀ x ∈ xs, Kept reach decode (toTerm x) x (own x)) :
    Kept reach (Decoder.list decode) (.list (xs.map toTerm)) xs (brackets (xs.map own)) where
  legible := by
    refine .list (List.forall_mem_map.mpr fun x member => ?_)
    exact (each x member).legible_inside (List.mem_map_of_mem member) (Nat.le_refl _)
  decoded left inside := deeper_bind fun _ => items each (left - 1) (by omega)

/-- A few elements by position are read as one thing. -/
theorem together {combine : List α → Option β} {y : β} {read : Decoder β} (xs : List α)
    (each : ∀ x ∈ xs, Kept reach decode (toTerm x) x (own x)) (filled : xs ≠ []) (made : combine xs = some y)
    (reads : ∀ s, read s (.tuple none (xs.map toTerm)) =
      (s.deeper? 1 >>= fun inside => Decoder.items decode inside (xs.map toTerm) >>= combine)) :
    Kept reach read (.tuple none (xs.map toTerm)) y (brackets (xs.map own)) where
  legible := by
    refine .tuple (by simp) (by simpa using filled) (List.forall_mem_map.mpr fun x member => ?_)
    exact (each x member).legible_inside (List.mem_map_of_mem member) (Nat.le_refl _)
  decoded left inside := by
    rw [reads]
    refine deeper_bind fun _ => ?_
    rw [items each (left - 1) (by omega)]
    split
    · exact made
    · rfl

theorem color (c : Color) : Kept reach Decoder.color (.ofColor c) c 2 := by
  have channel (n : UInt8) : Kept reach (Decoder.nat 8) (.ofNat n.toNat) n.toNat 0 :=
    nat (contains_unsigned.mpr n.toNat_lt)
  have each : ∀ n ∈ [c.red.toNat, c.green.toNat, c.blue.toNat], Kept reach (Decoder.nat 8) (.ofNat n) n 0 := by
    simpa using ⟨channel c.red, channel c.green, channel c.blue⟩
  have made : some (Color.mk (UInt8.ofNat c.red.toNat) (UInt8.ofNat c.green.toNat) (UInt8.ofNat c.blue.toNat)) = some c := by
    simp
  exact together _ each (List.cons_ne_nil _ _) made fun s => rfl

/-- Points without NaN. -/
theorem point {p : Point} (x_number : p.x.isNaN = false) (y_number : p.y.isNaN = false) :
    Kept reach Decoder.point (.ofPoint p) p 2 := by
  have each : ∀ x ∈ [p.x, p.y], Kept reach Decoder.scalar (.ofScalar x) x 0 := by
    simpa using ⟨scalar x_number, scalar y_number⟩
  exact together _ each (List.cons_ne_nil _ _) rfl fun s => rfl

/-- An entry of a map takes as many levels as the deeper one of its key and its value. -/
theorem map {entries : List (κ × α)} {keyLevels : Nat}
    (keys : ∀ e ∈ entries, Kept reach key (keyTerm e.1) e.1 keyLevels)
    (values : ∀ e ∈ entries, Kept reach decode (toTerm e.2) e.2 (own e.2)) :
    Kept reach (Decoder.map key decode) (.map (entries.map fun e => (keyTerm e.1, toTerm e.2))) entries
      (brackets (entries.map fun e => max keyLevels (own e.2))) where
  legible := by
    have member {e : κ × α} (inside : e ∈ entries) := List.mem_map_of_mem (f := fun e => max keyLevels (own e.2)) inside
    refine .map (List.forall_mem_map.mpr fun e inside => ?_) (List.forall_mem_map.mpr fun e inside => ?_)
    · exact (keys e inside).legible_inside (member inside) (Nat.le_max_left _ _)
    · exact (values e inside).legible_inside (member inside) (Nat.le_max_right _ _)
  decoded left inside := by
    have entry (left : Nat) (reached : left < reach) (e : κ × α) (member : e ∈ entries) : (do
          let s ← (plain left).deeper? 1
          return (← key s (keyTerm e.1), ← decode s (toTerm e.2))) =
        if 1 + max keyLevels (own e.2) ≤ left then some e else none := by
      refine deeper_bind fun _ => ?_
      rw [(keys e member).decoded (left - 1) (by omega), (values e member).decoded (left - 1) (by omega)]
      by_cases first : keyLevels ≤ left - 1 <;> by_cases second : own e.2 ≤ left - 1 <;> simp [first, second]
    refine deeper_bind fun _ => ?_
    simpa [Function.comp_def] using mapM_most (entry (left - 1) (by omega))

end Kept

/-! ## Records -/

/-- A decoder of some fields of a record, each by its name, takes back what their terms were made
of. -/
structure Reads (reach : Nat) (terms : List (String × Term)) (decode : Fields → Option α) (x : α) (names : List String)
    (inside : List Nat) : Prop where
  legible : ∀ name ∈ names, ∀ t, Entries.get? terms name = some t → Legible (most inside) t
  decoded : ∀ left < reach, decode ⟨plain left, terms⟩ = if most inside ≤ left then some x else none

namespace Reads

variable {terms : List (String × Term)} {name : String} {names : List String} {inside : List Nat} {y : β}

theorem done {z : α} (same : z = x) : Reads reach terms (fun _ => pure z) x [] [] :=
  ⟨by simp, fun _ _ => same ▸ rfl⟩

/-- One field and then others. -/
theorem field {others : α → Fields → Option β} (found : Entries.get? terms name = some t)
    (kept : Kept reach decode t x levels) (rest : Reads reach terms (others x) y names inside) :
    Reads reach terms (fun fields => fields.value? name decode >>= fun x => others x fields) y (name :: names)
      (levels :: inside) where
  legible := by
    have own : levels < most (levels :: inside) ∧ most inside ≤ most (levels :: inside) :=
      most_cons_le.mp (Nat.le_refl _)
    refine List.forall_mem_cons.mpr ⟨fun t' found' => ?_, fun name member t' found' => ?_⟩
    · cases Option.some.inj (found.symm.trans found')
      exact kept.legible.mono own.1
    · exact (rest.legible name member t' found').mono own.2
  decoded left reached := by
    have first : Fields.value? ⟨plain left, terms⟩ name decode = if 1 + levels ≤ left then some x else none := by
      have get : Fields.get? ⟨plain left, terms⟩ name = some t := found
      rw [Fields.value?, get]
      exact deeper_bind fun _ => kept.decoded (left - 1) (by omega)
    have both : most (levels :: inside) ≤ left ↔ 1 + levels ≤ left ∧ most inside ≤ left := by
      rw [most_cons_le]
      omega
    have second := rest.decoded left reached
    rw [first, if_congr both rfl rfl]
    by_cases enough : 1 + levels ≤ left <;> simp [enough, second]

/-- A field that may be missing, and is not. -/
theorem fieldOr {others : α → Fields → Option β} (missing : α) (found : Entries.get? terms name = some t)
    (kept : Kept reach decode t x levels) (rest : Reads reach terms (others x) y names inside) :
    Reads reach terms (fun fields => fields.valueOr name decode missing >>= fun x => others x fields) y (name :: names)
      (levels :: inside) := by
  have there (left : Nat) : Fields.valueOr ⟨plain left, terms⟩ name decode missing =
      Fields.value? ⟨plain left, terms⟩ name decode := by
    have get : Fields.get? ⟨plain left, terms⟩ name = some t := found
    rw [Fields.valueOr, get]
  have given := field found kept rest
  exact ⟨given.legible, fun left reached => by rw [there, given.decoded left reached]⟩

end Reads

/-- Among distinct names each is found with what stands beside it. -/
theorem get?_of_mem {terms : List (String × Term)} (distinct : (terms.map Prod.fst).Nodup) {f : String × Term}
    (member : f ∈ terms) : Entries.get? terms f.1 = some f.2 := by
  induction terms with
  | nil => contradiction
  | cons first terms ih =>
    rw [List.map_cons, List.nodup_cons] at distinct
    rcases List.mem_cons.mp member with rfl | later
    · simp [Entries.get?]
    · have other : first.1 ≠ f.1 := fun same => distinct.1 (same ▸ List.mem_map_of_mem later)
      simpa [Entries.get?, other] using ih distinct.2 later

/-- A record is read if its fields are, each of which it has once. Within its brackets a level less
is left, so that its decoder reaches a level further than those of the fields. -/
theorem Kept.record {terms : List (String × Term)} {names : List String} {inside : List Nat} {read : Fields → Option α}
    {outer : Nat} (further : outer ≤ reach + 1) (name : String) (same : terms.map Prod.fst = names)
    (distinct : names.Nodup) (filled : names ≠ []) (spelled : ∀ name ∈ names, isPlainWord name = true)
    (reads : Reads reach terms read x names inside) :
    Kept outer (fun s t => Decoder.fields name names s t >>= read) (.record none terms) x (brackets inside) where
  legible := by
    subst same
    refine .record (by simpa using filled) (fun f member => spelled f.1 (List.mem_map_of_mem member)) fun f member => ?_
    have inner := reads.legible f.1 (List.mem_map_of_mem member) f.2 (get?_of_mem distinct member)
    exact inner.mono (Nat.le_add_left _ 1)
  decoded left reached := by
    subst same
    have own : terms.partition (fun f => (terms.map Prod.fst).contains f.1) = (terms, []) := by
      have known (f : String × Term) (member : f ∈ terms) : (terms.map Prod.fst).contains f.1 = true :=
        List.contains_iff_mem.mpr (List.mem_map_of_mem member)
      rw [List.partition_eq_filter_filter, List.filter_eq_self.mpr known, List.filter_eq_nil_iff.mpr]
      intro f member
      rw [Function.comp_apply, known f member]
      decide
    have fields (enough : 1 ≤ left) : Decoder.fields name (terms.map Prod.fst) (plain left) (.record none terms) =
        some ⟨plain (left - 1), terms⟩ := by
      simp only [Decoder.fields, own]
      simp [Scope.deeper?, enough, Dialect.accepts, distinct, Term.fieldsIgnorable]
    by_cases enough : 1 ≤ left
    · have shifted : brackets inside ≤ left ↔ most inside ≤ left - 1 := by
        rw [brackets]
        omega
      rw [fields enough, if_congr shifted rfl rfl]
      exact reads.decoded (left - 1) (by omega)
    · have few : ¬ brackets inside ≤ left := by
        rw [brackets]
        omega
      simp [Decoder.fields, Scope.deeper?, enough, few]

end PoseGraph.Decoding
