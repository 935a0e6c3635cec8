import PoseGraph.Proofs.TermTokens

/-! The tokens of a term are read as that term, so that a document is read back from the text
that was written for it. -/
namespace PoseGraph.TermReading
open Document Reader TermTokens

variable {α β : Type} {element : Reader α} {spell : α → List Token} {x : α} {xs : List α} {count : Nat} {b : Bracket}
variable {ts rest : List Token}

/-! ## Readers -/

theorem bind_run (r : Reader α) (f : α → Reader β) (ts : List Token) :
    (r >>= f) ts = (r ts).bind fun (x, ts) => f x ts := rfl

theorem pure_run (x : α) (ts : List Token) : (pure x : Reader α) ts = some (x, ts) := rfl

theorem get_run (ts : List Token) : (get : Reader (List Token)) ts = some (ts, ts) := rfl

theorem map_run (f : α → β) (r : Reader α) (ts : List Token) :
    (f <$> r) ts = (r ts).map fun (x, ts) => (f x, ts) := by
  rw [map_eq_pure_bind, bind_run]
  cases r ts <;> rfl

theorem expect_cons (t : Token) (rest : List Token) : expect t (t :: rest) = some ((), rest) := if_pos rfl

theorem skip_cons (t : Token) (rest : List Token) : skip t (t :: rest) = some (true, rest) := if_pos rfl

theorem skip_of_ne {t t' : Token} (other : t' ≠ t) (rest : List Token) : skip t (t' :: rest) = some (false, t' :: rest) :=
  if_neg other

/-! ## Elements -/

theorem separated_end (ends : atEnd ts = true) : separated element (count + 1) ts = some ([], ts) := by
  simp [separated, bind_run, get_run, pure_run, ends]

/-- Behind a comma further elements are read. -/
theorem separated_comma (starts : atEnd ts = false) (first : element ts = some (x, .comma :: rest)) :
    separated element (count + 1) ts = (separated element count rest).map fun (xs, rest) => (x :: xs, rest) := by
  conv => lhs; unfold separated
  simp only [bind_run, get_run, Option.bind_some, starts, Bool.false_eq_true, if_false, first, skip_cons, if_true]
  cases separated element count rest <;> rfl

/-- In front of a closing bracket no further element is read. -/
theorem separated_last (starts : atEnd ts = false) (first : element ts = some (x, .closing b :: rest)) :
    separated element (count + 1) ts = some ([x], .closing b :: rest) := by
  unfold separated
  simp [bind_run, get_run, pure_run, starts, first, skip_of_ne]

/-- What is read in front of a comma, and begins with what can begin an element, is read from
several lines. -/
theorem elements_lines (starts : ∀ x ∈ xs, ∀ rest, atEnd (spell x ++ rest) = false)
    (each : ∀ x ∈ xs, ∀ rest, element (spell x ++ .comma :: rest) = some (x, .comma :: rest)) (few : xs.length < count)
    (close : Bracket) (rest : List Token) :
    elements close element count (xs.flatMap (fun x => spell x ++ [.comma]) ++ .closing close :: rest) = some (xs, rest) := by
  have lines : separated element count (xs.flatMap (fun x => spell x ++ [.comma]) ++ .closing close :: rest) =
      some (xs, .closing close :: rest) := by
    induction xs generalizing count with
    | nil =>
      cases count with
      | zero => simp at few
      | succ count => exact separated_end rfl
    | cons x xs ih =>
      cases count with
      | zero => simp at few
      | succ count =>
        have others := ih (fun y inside => starts y (List.mem_cons_of_mem x inside))
          (fun y inside => each y (List.mem_cons_of_mem x inside)) (Nat.lt_of_succ_lt_succ few)
        simp only [List.flatMap_cons, List.append_assoc, List.cons_append, List.nil_append]
        rw [separated_comma (starts x List.mem_cons_self _) (each x List.mem_cons_self _), others]
        rfl
  simp only [elements, bind_run, lines, Option.bind_some, expect_cons, pure_run]

/-! ## Where terms begin and end -/

/-- Nothing goes on with a term at the front. -/
def Follows (rest : List Token) : Prop := ∀ t, rest.head? = some t → beginsTerm t = false

theorem follows_nil : Follows [] := by simp [Follows]

theorem follows_comma (rest : List Token) : Follows (.comma :: rest) := by simp [Follows, beginsTerm]

theorem follows_colon (rest : List Token) : Follows (.colon :: rest) := by simp [Follows, beginsTerm]

theorem follows_closing (b : Bracket) (rest : List Token) : Follows (.closing b :: rest) := by simp [Follows, beginsTerm]

/-- A term has a first token. -/
theorem tokens_head {nesting : Nat} {t : Term} (legible : Legible nesting t) :
    ∃ first others, tokens t = first :: others ∧ beginsTerm first = true := by
  cases legible with
  | @tuple _ name items label filled each =>
    cases name with
    | none => exact ⟨_, _, rfl, rfl⟩
    | some w => exact ⟨_, _, rfl, rfl⟩
  | _ => exact ⟨_, _, rfl, rfl⟩

theorem atEnd_tokens {nesting : Nat} {t : Term} (legible : Legible nesting t) (rest : List Token) :
    atEnd (tokens t ++ rest) = false := by
  obtain ⟨first, others, same, begins⟩ := tokens_head legible
  rw [same, List.cons_append]
  unfold atEnd
  split <;> simp_all [beginsTerm]

/-- A term is no field where no colon stands behind it. -/
theorem atField_tokens {nesting : Nat} {t : Term} (legible : Legible nesting t) {rest : List Token}
    (no_colon : rest.head? ≠ some .colon) : atField (tokens t ++ rest) = false := by
  cases legible with
  | @tuple _ name items label filled each =>
    cases name with
    | none => rfl
    | some w => rfl
  | word plain =>
    cases rest with
    | nil => rfl
    | cons t rest => cases t <;> simp_all [tokens, atField]
  | _ => rfl

/-- A plain word names itself. -/
theorem nameOf_plain {w : String} (plain : isPlainWord w = true) : nameOf w = w := by
  unfold isPlainWord at plain
  split at plain
  case h_1 => simp at plain
  case h_2 c cs spelled =>
    simp only [Bool.and_eq_true, bne_iff_ne, ne_eq] at plain
    rw [nameOf, spelled, if_neg]
    simp [rawMark, List.isPrefixOf, Ne.symm plain.1.1.1.2]

/-! ## Brackets -/

/-- Terms in a line are read up to the closing bracket. -/
theorem separated_tuple {value : Reader Term} {items : List Term} (filled : items ≠ [])
    (starts : ∀ t ∈ items, ∀ rest, atEnd (tokens t ++ rest) = false)
    (each : ∀ t ∈ items, ∀ rest, Follows rest → value (tokens t ++ rest) = some (t, rest)) (few : items.length < count)
    (b : Bracket) (rest : List Token) :
    separated value count (tupleTokens items ++ .closing b :: rest) = some (items, .closing b :: rest) := by
  induction items generalizing count with
  | nil => contradiction
  | cons t ts ih =>
    cases count with
    | zero => simp at few
    | succ count =>
      cases ts with
      | nil => exact separated_last (starts t List.mem_cons_self _) (each t List.mem_cons_self _ (follows_closing b rest))
      | cons t' ts =>
        have others := ih (List.cons_ne_nil t' ts) (fun t inside => starts t (List.mem_cons_of_mem _ inside))
          (fun t inside => each t (List.mem_cons_of_mem _ inside)) (Nat.lt_of_succ_lt_succ few)
        rw [tupleTokens, List.append_assoc, List.cons_append]
        · rw [separated_comma (starts t List.mem_cons_self _) (each t List.mem_cons_self _ (follows_comma _)), others]
          rfl
        · exact List.cons_ne_nil t' ts

theorem group_tuple {value : Reader Term} {items : List Term} (label : Option String) (filled : items ≠ [])
    (values : separated value count (tupleTokens items ++ .closing .round :: rest) = some (items, .closing .round :: rest))
    (no_field : atField (tupleTokens items ++ .closing .round :: rest) = false) :
    group label value count (tupleTokens items ++ .closing .round :: rest) = some (.tuple label items, rest) := by
  simp [group, bind_run, get_run, no_field, values, filled, skip_of_ne, map_run, expect_cons]

/-! ## Terms -/

theorem atField_tuple {nesting : Nat} {items : List Term} (filled : items ≠ []) (each : ∀ t ∈ items, Legible nesting t)
    (b : Bracket) (rest : List Token) : atField (tupleTokens items ++ .closing b :: rest) = false := by
  obtain ⟨t, ts, rfl⟩ := List.exists_cons_of_ne_nil filled
  cases ts with
  | nil => exact atField_tokens (each t List.mem_cons_self) (by simp)
  | cons t' ts =>
    rw [tupleTokens, List.append_assoc]
    · exact atField_tokens (each t List.mem_cons_self) (by simp)
    · exact List.cons_ne_nil t' ts

/-- A field is read by its name. -/
theorem field_tokens {value : Reader Term} {f : String × Term} (plain : isPlainWord f.1 = true)
    (read : value (tokens f.2 ++ rest) = some (f.2, rest)) :
    field value (namedTokens f ++ rest) = some (f, rest) := by
  simp [namedTokens, field, bind_run, Reader.name, expect_cons, read, map_run, nameOf_plain plain]

theorem entry_tokens {value : Reader Term} {e : Term × Term}
    (key : value (tokens e.1 ++ .colon :: (tokens e.2 ++ rest)) = some (e.1, .colon :: (tokens e.2 ++ rest)))
    (read : value (tokens e.2 ++ rest) = some (e.2, rest)) :
    entry value (pairTokens e ++ rest) = some (e, rest) := by
  simp [pairTokens, entry, bind_run, key, expect_cons, read, map_run]

/-- Neither are there more lines than tokens, nor has one of them more tokens than all. -/
theorem length_lines (spell : α → List Token) (xs : List α) :
    xs.length ≤ (xs.flatMap fun x => spell x ++ [.comma]).length ∧
    ∀ x ∈ xs, (spell x).length ≤ (xs.flatMap fun x => spell x ++ [.comma]).length := by
  induction xs with
  | nil => simp
  | cons x xs ih =>
    simp only [List.flatMap_cons, List.length_append, List.length_cons, List.length_nil, List.forall_mem_cons]
    exact ⟨by omega, by omega, fun y inside => Nat.le_trans (ih.2 y inside) (Nat.le_add_left _ _)⟩

/-- Elements are read from several lines if each is read from what is shorter than the bound on tokens. -/
theorem elements_tokens (starts : ∀ x ∈ xs, ∀ rest, atEnd (spell x ++ rest) = false)
    (each : ∀ x ∈ xs, (spell x).length < count → ∀ rest, element (spell x ++ .comma :: rest) = some (x, .comma :: rest))
    (long : (xs.flatMap fun x => spell x ++ [.comma]).length < count) (close : Bracket) (rest : List Token) :
    elements close element count (xs.flatMap (fun x => spell x ++ [.comma]) ++ .closing close :: rest) =
      some (xs, rest) := by
  obtain ⟨few, short⟩ := length_lines spell xs
  have value (x : α) (inside : x ∈ xs) := each x inside (Nat.lt_of_le_of_lt (short x inside) long)
  exact elements_lines starts value (Nat.lt_of_le_of_lt few long) close rest

/-- Brackets in which fields stand are those of a record. -/
theorem group_fields {value : Reader Term} {fields : List (String × Term)} (label : Option String) (filled : fields ≠ [])
    (lines : elements .round (field value) count (fieldTokens fields ++ .closing .round :: rest) = some (fields, rest)) :
    group label value count (fieldTokens fields ++ .closing .round :: rest) = some (.record label fields, rest) := by
  have first : atField (fieldTokens fields ++ .closing .round :: rest) = true := by
    obtain ⟨f, fs, rfl⟩ := List.exists_cons_of_ne_nil filled
    rfl
  simp [group, bind_run, get_run, first, lines, map_run]

/-- The same holds of terms in one line. -/
theorem length_tupleTokens {nesting : Nat} {items : List Term} (each : ∀ t ∈ items, Legible nesting t) :
    items.length ≤ (tupleTokens items).length ∧ ∀ t ∈ items, (tokens t).length ≤ (tupleTokens items).length := by
  induction items with
  | nil => simp
  | cons t ts ih =>
    obtain ⟨first, others, same, -⟩ := tokens_head (each t List.mem_cons_self)
    cases ts with
    | nil => simp [tupleTokens, same]
    | cons t' ts =>
      obtain ⟨few, short⟩ := ih fun t inside => each t (List.mem_cons_of_mem _ inside)
      rw [tupleTokens, List.length_append, List.forall_mem_cons]
      · simp only [List.length_cons] at few ⊢
        exact ⟨by omega, by omega, fun t inside => Nat.le_trans (short t inside) (by omega)⟩
      · exact List.cons_ne_nil t' ts

/-- The tokens of a term are read as that term, in front of what cannot go on with it. -/
theorem term_tokens {nesting : Nat} {t : Term} (legible : Legible nesting t) (long : (tokens t).length < count)
    {rest : List Token} (follows : Follows rest) : Reader.term count nesting (tokens t ++ rest) = some (t, rest) := by
  induction legible generalizing rest with
  | @word nesting w plain =>
    cases rest with
    | nil => simp [tokens, Reader.term]
    | cons t rest =>
      have apart := follows t rfl
      cases t <;> simp_all [tokens, Reader.term, beginsTerm]
  | number plain => rfl
  | text s => rfl
  | @tuple nesting name items label filled each ih =>
    rw [tokens, List.length_append, List.length_cons, List.length_append] at long
    obtain ⟨few, short⟩ := length_tupleTokens each
    have enough : items.length < count := by omega
    have values := separated_tuple filled (fun t inside => atEnd_tokens (each t inside))
      (fun t inside rest => ih t inside (Nat.lt_of_le_of_lt (short t inside) (by omega))) enough .round rest
    have group := group_tuple name filled values (atField_tuple filled each .round rest)
    cases name with
    | none => simpa [tokens, labelTokens, Reader.term] using group
    | some w => simpa [tokens, labelTokens, Reader.term] using group
  | @record nesting fields filled names each ih =>
    rw [tokens, fieldTokens_eq, List.length_append, List.length_cons, List.length_append] at long
    have value (f : String × Term) (inside : f ∈ fields) (short : (namedTokens f).length < count) (rest : List Token) :
        field (Reader.term count nesting) (namedTokens f ++ .comma :: rest) = some (f, .comma :: rest) := by
      have whole : (namedTokens f).length = (tokens f.2).length + 2 := rfl
      exact field_tokens (names f inside) (ih f inside (by omega) (follows_comma rest))
    have lines := elements_tokens (fun f inside rest => rfl) value (by omega) .round rest
    rw [← fieldTokens_eq] at lines
    simpa [tokens, labelTokens, Reader.term] using group_fields none filled lines
  | @list nesting items each ih =>
    rw [tokens, lineTokens_eq, List.length_cons, List.length_append] at long
    have value (t : Term) (inside : t ∈ items) (short : (tokens t).length < count) (rest : List Token) :=
      ih t inside short (follows_comma rest)
    have lines := elements_tokens (fun t inside => atEnd_tokens (each t inside)) value (by omega) .square rest
    simp [tokens, lineTokens_eq, Reader.term, map_run, lines]
  | @map nesting entries keys values key value =>
    rw [tokens, entryTokens_eq, List.length_cons, List.length_append] at long
    have pair (e : Term × Term) (inside : e ∈ entries) (short : (pairTokens e).length < count) (rest : List Token) :
        entry (Reader.term count nesting) (pairTokens e ++ .comma :: rest) = some (e, .comma :: rest) := by
      have whole : (pairTokens e).length = (tokens e.1).length + ((tokens e.2).length + 1) := List.length_append
      exact entry_tokens (key e inside (by omega) (follows_colon _)) (value e inside (by omega) (follows_comma rest))
    have starts (e : Term × Term) (inside : e ∈ entries) (rest : List Token) : atEnd (pairTokens e ++ rest) = false := by
      rw [pairTokens, List.append_assoc]
      exact atEnd_tokens (keys e inside) _
    have lines := elements_tokens starts pair (by omega) .curly rest
    simp [tokens, entryTokens_eq, Reader.term, map_run, lines]
  | @optional nesting t value ih =>
    have filled : [t] ≠ [] := List.cons_ne_nil t []
    have each : ∀ t' ∈ [t], Legible nesting t' := List.forall_mem_singleton.mpr value
    have inner : (tokens t).length + 1 + 1 < count := by simpa [tokens, tupleTokens, labelTokens] using long
    have enough : [t].length < count := by
      rw [List.length_singleton]
      omega
    have values := separated_tuple filled (fun t inside => atEnd_tokens (each t inside))
      (List.forall_mem_singleton.mpr fun rest => ih (by omega)) enough .round rest
    have group := group_tuple none filled values (atField_tuple filled each .round rest)
    simpa [tokens, tupleTokens, labelTokens, Reader.term, map_run] using group

/-! ## Deeper readers -/

/-- Whatever the first reader reads, the second one reads too. -/
def Covers (r r' : Reader α) : Prop := ∀ ts x rest, r ts = some (x, rest) → r' ts = some (x, rest)

theorem covers_refl (r : Reader α) : Covers r r := fun _ _ _ read => read

theorem covers_bind {r r' : Reader α} {f f' : α → Reader β} (first : Covers r r') (next : ∀ x, Covers (f x) (f' x)) :
    Covers (r >>= f) (r' >>= f') := by
  intro ts y rest read
  rw [bind_run] at read ⊢
  obtain ⟨⟨x, behind⟩, taken, read⟩ := Option.bind_eq_some_iff.mp read
  rw [first ts x behind taken]
  exact next x behind y rest read

theorem covers_map {r r' : Reader α} (covers : Covers r r') (f : α → β) : Covers (f <$> r) (f <$> r') := by
  intro ts y rest read
  rw [map_run] at read ⊢
  obtain ⟨⟨x, behind⟩, taken, same⟩ := Option.map_eq_some_iff.mp read
  rw [covers ts x behind taken, ← same]
  rfl

theorem covers_separated {element element' : Reader α} (covers : Covers element element') (count : Nat) :
    Covers (separated element count) (separated element' count) := by
  induction count with
  | zero => exact covers_refl _
  | succ count ih =>
    refine covers_bind (covers_refl _) fun ts => ?_
    split
    · exact covers_refl _
    · refine covers_bind covers fun x => covers_bind (covers_refl _) fun skipped => ?_
      split
      · exact covers_bind ih fun _ => covers_refl _
      · exact covers_refl _

theorem covers_elements {element element' : Reader α} (covers : Covers element element') (b : Bracket) (count : Nat) :
    Covers (elements b element count) (elements b element' count) :=
  covers_bind (covers_separated covers count) fun _ => covers_refl _

theorem covers_field {value value' : Reader Term} (covers : Covers value value') : Covers (field value) (field value') :=
  covers_bind (covers_refl _) fun _ => covers_bind (covers_refl _) fun _ => covers_bind covers fun _ => covers_refl _

theorem covers_entry {value value' : Reader Term} (covers : Covers value value') : Covers (entry value) (entry value') :=
  covers_bind covers fun _ => covers_bind (covers_refl _) fun _ => covers_bind covers fun _ => covers_refl _

theorem covers_group {value value' : Reader Term} (covers : Covers value value') (label : Option String) (count : Nat) :
    Covers (group label value count) (group label value' count) := by
  refine covers_bind (covers_refl _) fun ts => ?_
  split
  · exact covers_bind (covers_elements (covers_field covers) .round count) fun _ => covers_refl _
  · exact covers_bind (covers_separated covers count) fun _ => covers_refl _

/-- A reader that may nest deeper reads no less. -/
theorem covers_term (count nesting : Nat) : Covers (Reader.term count nesting) (Reader.term count (nesting + 1)) := by
  induction nesting with
  | zero => exact fun _ _ _ read => nomatch read
  | succ nesting ih =>
    intro ts t rest read
    unfold Reader.term at read ⊢
    split at read
    case h_1 => exact covers_group ih _ count _ _ _ read
    case h_3 => exact covers_map (covers_group ih none count) _ _ _ _ read
    case h_4 =>
      split at read
      · rename_i optional
        rw [if_pos optional]
        exact covers_map ih _ _ _ _ read
      · rename_i bare
        rwa [if_neg bare]
    case h_10 => exact covers_group ih none count _ _ _ read
    case h_11 => exact covers_map (covers_elements ih .square count) _ _ _ _ read
    case h_12 => exact covers_map (covers_elements (covers_entry ih) .curly count) _ _ _ _ read
    all_goals exact read

theorem covers_deeper (count : Nat) {nesting deeper : Nat} (deep : nesting ≤ deeper) :
    Covers (Reader.term count nesting) (Reader.term count deeper) := by
  induction deep with
  | refl => exact covers_refl _
  | step _ ih => exact fun ts t rest read => covers_term count _ ts t rest (ih ts t rest read)

/-! ## Documents -/

/-- The text that is written for a term has its tokens, in the dialect of documents without attributes. -/
theorem tokens?_write {nesting : Nat} {t : Term} {s : String} (legible : Legible nesting t) (written : t.write = some s) :
    tokens? s = some ({}, tokens t) := by
  have text : s.toList = Term.layout 0 t := by
    unfold Term.write at written
    split at written
    · rw [← Option.some.inj written, String.toList_ofList]
    · contradiction
  have scanned : Token.scan (fun _ => .single) s.toList = some (tokens t) := by
    have whole := scan_layout (fun _ => rfl) legible 0 apart_nil (scan_nil _)
    simpa [text] using whole
  have begun : begin? (fun _ => .single) s = some ({}, tokens t) := by
    obtain ⟨first, others, same, begins⟩ := tokens_head legible
    have other : first ≠ .attributeMark := by
      rintro rfl
      simp [beginsTerm] at begins
    simp [begin?, scanned, attributes, StateT.run, bind_run, pure_run, same, skip_of_ne other]
  simp [tokens?, begun]

/-- A term is read back from the text that was written for it if it nests no deeper than readers go. -/
theorem read_write {t : Term} {s : String} (legible : Legible (Term.recursionLimit + 1) t) (written : t.write = some s) :
    Document.read s = some ⟨{}, t⟩ := by
  have read := term_tokens legible (Nat.lt_succ_self _) follows_nil
  simp only [List.append_nil] at read
  simp [Document.read, tokens?_write legible written, StateT.run, read]

/-- However deep a term nests, nothing else is read from its text. -/
theorem eq_of_read_write {nesting : Nat} {t : Term} {s : String} {document : Document} (legible : Legible nesting t)
    (written : t.write = some s) (read : Document.read s = some document) : document = ⟨{}, t⟩ := by
  have whole := term_tokens legible (Nat.lt_succ_self _) follows_nil
  rw [List.append_nil] at whole
  simp only [Document.read, tokens?_write legible written, Option.bind_eq_bind, Option.bind_some, StateT.run] at read
  obtain ⟨⟨found, behind⟩, taken, made⟩ := Option.bind_eq_some_iff.mp read
  -- A reader that goes deep enough for both reads what each of them does.
  have first := covers_deeper _ (Nat.le_max_left (Term.recursionLimit + 1) nesting) _ _ _ taken
  have second := covers_deeper _ (Nat.le_max_right (Term.recursionLimit + 1) nesting) _ _ _ whole
  rw [second] at first
  cases first
  exact (Option.some.inj made).symm

end PoseGraph.TermReading
