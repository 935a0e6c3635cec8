import PoseGraph.Identifier

/-! Words for the generated code. Any name is turned into a word that the code can use,
and such a word is left as it is. So a name that has become a word once stays the same,
and keeps its identifier. -/
namespace PoseGraph.SafeNames

variable {name : String} {c d : Char} {cs : List Char}

/-- An ASCII digit. -/
def IsDigit (c : Char) : Prop := '0' ≤ c ∧ c ≤ '9'

/-- A letter, a digit or an underscore, all of them ASCII. -/
def IsWordChar (c : Char) : Prop := ('A' ≤ c ∧ c ≤ 'Z') ∨ ('a' ≤ c ∧ c ≤ 'z') ∨ IsDigit c ∨ c = '_'

/-- What the generated code takes for a word. The empty name is one. -/
structure Usable (name : String) : Prop where
  worded : ∀ c ∈ name.toList, IsWordChar c
  undigited : ∀ c ∈ name.toList.head?, ¬IsDigit c
  unreserved : name ∉ reservedWords

/-! ## Characters -/

theorem isDigit_iff : c.isDigit = true ↔ IsDigit c := by
  simp [Char.isDigit, IsDigit, Char.le_def]

theorem kept_iff : c.isAlphanum = true ∨ c = '_' ↔ IsWordChar c := by
  delta Char.isAlphanum Char.isAlpha Char.isUpper Char.isLower
  simp [isDigit_iff, IsWordChar, Char.le_def, or_assoc]

/-- Whatever a character becomes belongs into words. -/
theorem isWordChar_of_safeChar (becomes : safeChar? c = some d) : IsWordChar d := by
  rw [safeChar?] at becomes
  split at becomes
  · cases becomes
    exact .inr (.inr (.inr rfl))
  · split at becomes
    · rename_i kept
      cases becomes
      exact kept_iff.mp kept
    · cases becomes

theorem safeChar_of_isWordChar (inWord : IsWordChar c) : safeChar? c = some c := by
  have kept := kept_iff.mpr inWord
  have joins : ¬(c = ' ' ∨ c = ',' ∨ c = '.' ∨ c = '/' ∨ c = ';') := by
    rintro (rfl | rfl | rfl | rfl | rfl) <;> revert kept <;> decide
  rw [safeChar?, if_neg joins, if_pos kept]

theorem filterMap_safeChar (worded : ∀ c ∈ cs, IsWordChar c) : cs.filterMap safeChar? = cs := by
  induction cs with
  | nil => rfl
  | cons c cs ih =>
    obtain ⟨first, worded⟩ := List.forall_mem_cons.mp worded
    rw [List.filterMap_cons_some (safeChar_of_isWordChar first), ih worded]

theorem guardDigit_worded (worded : ∀ c ∈ cs, IsWordChar c) : ∀ c ∈ guardDigit cs, IsWordChar c := by
  cases cs with
  | nil => exact worded
  | cons c cs =>
    rw [guardDigit]
    split
    · exact List.forall_mem_cons.mpr ⟨.inr (.inr (.inr rfl)), worded⟩
    · exact worded

theorem guardDigit_undigited (cs : List Char) : ∀ c ∈ (guardDigit cs).head?, ¬IsDigit c := by
  cases cs with
  | nil => simp [guardDigit]
  | cons c cs =>
    rw [guardDigit]
    split
    · simp [IsDigit]
    · rename_i other
      simpa [← isDigit_iff] using other

theorem guardDigit_of_undigited (undigited : ∀ c ∈ cs.head?, ¬IsDigit c) : guardDigit cs = cs := by
  cases cs with
  | nil => rfl
  | cons c cs =>
    have other : ¬c.isDigit = true := mt isDigit_iff.mp (undigited c rfl)
    rw [guardDigit, if_neg other]

/-! ## Reserved words -/

/-- No reserved word ends as the words do that are made from reserved words. -/
theorem reserved_last : ∀ word ∈ reservedWords, word.toList.getLast? ≠ some '_' := by decide +kernel

theorem reserved_first : ∀ word ∈ reservedWords, word.toList.head?.isSome = true := by decide +kernel

/-- A word that is reserved can be used with an underscore behind it. -/
theorem usable_marked (worded : ∀ c ∈ name.toList, IsWordChar c) (undigited : ∀ c ∈ name.toList.head?, ¬IsDigit c)
    (reserved : name ∈ reservedWords) : Usable (name ++ "_") := by
  have text : (name ++ "_").toList = name.toList ++ ['_'] := String.toList_append
  refine ⟨fun c inside => ?_, fun c first => ?_, fun again => ?_⟩
  · rw [text, List.mem_append, List.mem_singleton] at inside
    rcases inside with inside | rfl
    · exact worded c inside
    · exact .inr (.inr (.inr rfl))
  · -- The first character is that of the reserved word, which is not empty.
    rw [text, List.head?_append, Option.or_of_isSome (reserved_first name reserved)] at first
    exact undigited c first
  · refine reserved_last _ again ?_
    rw [text, List.getLast?_concat]

/-! ## Names -/

theorem usable_safeName (name : String) : Usable (safeName name) := by
  have worded : ∀ c ∈ guardDigit (name.toList.filterMap safeChar?), IsWordChar c := by
    refine guardDigit_worded fun d inside => ?_
    obtain ⟨c, -, becomes⟩ := List.mem_filterMap.mp inside
    exact isWordChar_of_safeChar becomes
  have undigited := guardDigit_undigited (name.toList.filterMap safeChar?)
  rw [← String.toList_ofList (l := guardDigit _)] at worded undigited
  rw [safeName]
  split
  · rename_i reserved
    exact usable_marked worded undigited reserved
  · rename_i unreserved
    exact ⟨worded, undigited, unreserved⟩

theorem safeName_of_usable (usable : Usable name) : safeName name = name := by
  rw [safeName, filterMap_safeChar usable.worded, guardDigit_of_undigited usable.undigited, String.ofList_toList]
  exact if_neg usable.unreserved

/-- The names that stay are those that can be used. -/
theorem safeName_eq_self_iff : safeName name = name ↔ Usable name :=
  ⟨fun same => same ▸ usable_safeName name, safeName_of_usable⟩

theorem withoutSpaces_of_worded (worded : ∀ c ∈ name.toList, IsWordChar c) : withoutSpaces name = name := by
  have spaceless : ∀ c ∈ name.toList, (c != ' ') = true := by
    intro c inside
    rw [bne_iff_ne]
    rintro rfl
    exact absurd (worded ' ' inside) (by simp [IsWordChar, IsDigit])
  rw [withoutSpaces, List.filter_eq_self.mpr spaceless, String.ofList_toList]

theorem endpointName_of_usable (usable : Usable name) : endpointName name = name := by
  rw [endpointName, withoutSpaces_of_worded usable.worded, safeName_eq_self_iff.mpr usable]

/-- What becomes of a name is made of ASCII letters, digits and underscores, begins with no
digit and is no reserved word. It is left as it is when that is done again, with spaces or
without, so that names of properties keep their identifiers. -/
theorem safe_names_stay (name : String) :
    ((∀ c ∈ (safeName name).toList, IsWordChar c) ∧ (∀ c ∈ (safeName name).toList.head?, ¬IsDigit c) ∧
        safeName name ∉ reservedWords) ∧
      safeName (safeName name) = safeName name ∧
      endpointName (endpointName name) = endpointName name ∧
      Identifier.ofProperty (endpointName name) = .ofProperty name := by
  have safe := usable_safeName name
  have again : endpointName (endpointName name) = endpointName name :=
    endpointName_of_usable (usable_safeName (withoutSpaces name))
  refine ⟨⟨safe.worded, safe.undigited, safe.unreserved⟩, safeName_eq_self_iff.mpr safe, again, ?_⟩
  rw [Identifier.ofProperty, again, Identifier.ofProperty]

/-- A digit gets an underscore in front and a reserved word one behind it. -/
example : safeName "3D Pose" = "_3D_Pose" ∧ safeName "float" = "float_" ∧ endpointName "Speed (m/s)" = "Speedm_s" := by
  decide +kernel

end PoseGraph.SafeNames
