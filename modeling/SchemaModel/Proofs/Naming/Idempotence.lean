import SchemaModel.Proofs.Naming.Shapes

/-!
Names of names. A field name splits into the words that it was joined from, and a class name into
words that begin with capitals already: joined again they are the same name. What stands around the
words, an underscore in front of a digit or behind a keyword, is no part of them and is put there
again (`names_idempotent`).
-/
namespace SchemaModel.Naming

variable {c : Char} {cs : List Char} {ws : List (List Char)}

/-! ## Words of parts -/

theorem words_cons_of_not_isWordChar (hc : isWordChar c = false) (cs : List Char) :
    words (c :: cs) = words cs := by
  rw [words, if_neg (by simp [hc])]

/-- A text that begins with a character of a word begins its first word with it. -/
theorem exists_words_cons (hc : isWordChar c = true) (cs : List Char) :
    ∃ w ws, words (c :: cs) = (c :: w) :: ws := by
  rw [words, if_pos hc]
  split
  · cases words cs with
    | nil => exact ⟨[], [], rfl⟩
    | cons w ws => exact ⟨w, ws, rfl⟩
  · exact ⟨[], words cs, rfl⟩

theorem exists_of_continues (h : continues c cs = true) :
    ∃ d ds, cs = d :: ds ∧ isWordChar d = true ∧ isHump c d = false := by
  cases cs with
  | nil => cases h
  | cons d ds =>
    rw [continues, Bool.and_eq_true, Bool.not_eq_true'] at h
    exact ⟨d, ds, rfl, h.1, h.2⟩

/-- A character that no word holds parts the words in front of it from those behind it. -/
theorem words_append_cons (hc : isWordChar c = false) (cs ds : List Char) :
    words (cs ++ c :: ds) = words cs ++ words ds := by
  induction cs with
  | nil => exact words_cons_of_not_isWordChar hc ds
  | cons d cs ih =>
    have hcontinues : continues d (cs ++ c :: ds) = continues d cs := by
      cases cs with
      | nil => simp [continues, hc]
      | cons e cs => rfl
    rw [List.cons_append, words, words, hcontinues, ih]
    split
    · split
      · rename_i h
        obtain ⟨e, es, rfl, he, -⟩ := exists_of_continues h
        obtain ⟨w, ws, hw⟩ := exists_words_cons he es
        rw [hw]
        rfl
      · rfl
    · rfl

theorem words_guardDigit (cs : List Char) : words (guardDigit cs) = words cs := by
  cases cs with
  | nil => rfl
  | cons c cs =>
    rw [guardDigit]
    split
    · exact words_cons_of_not_isWordChar rfl _
    · rfl

theorem words_guardKeyword (name : String) :
    words (guardKeyword name).toList = words name.toList := by
  rw [guardKeyword]
  split
  · rw [String.toList_append]
    exact (words_append_cons rfl _ []).trans (List.append_nil _)
  · rfl

/-! ## Field names -/

/-- Characters that are the same when they are made small. -/
def isSmall (c : Char) : Bool := c.isLower || c.isDigit

theorem isSmall_toLower (hc : isWordChar c = true) : isSmall c.toLower = true :=
  Bool.or_eq_true_iff.mpr (toLower_of_isWordChar hc)

theorem isWordChar_of_isSmall (hc : isSmall c = true) : isWordChar c = true := by
  obtain h | h := Bool.or_eq_true_iff.mp hc
  · have hletter : c.isAlpha = true := Bool.or_eq_true_iff.mpr (.inr h)
    exact Bool.or_eq_true_iff.mpr (.inl hletter)
  · exact isWordChar_of_isDigit h

theorem not_isUpper_of_isSmall (hc : isSmall c = true) : c.isUpper = false :=
  of_ascii (P := fun c => isSmall c = true → c.isUpper = false) (by decide)
    (isWordChar_of_isSmall hc) hc

theorem toUpper_of_isUpper (hc : c.isUpper = true) : c.toUpper = c :=
  of_ascii (P := fun c => c.isUpper = true → c.toUpper = c) (by decide)
    (isWordChar_of_isUpper hc) hc

theorem toUpper_toUpper (hc : isWordChar c = true) : c.toUpper.toUpper = c.toUpper :=
  of_ascii (P := fun c => c.toUpper.toUpper = c.toUpper) (by decide) hc

theorem toLower_of_isSmall (hc : isSmall c = true) : c.toLower = c :=
  of_ascii (P := fun c => isSmall c = true → c.toLower = c) (by decide)
    (isWordChar_of_isSmall hc) hc

/-- Without capitals there is nothing to break a word at. -/
theorem words_of_isSmall (hne : cs ≠ []) (h : ∀ c ∈ cs, isSmall c = true) : words cs = [cs] := by
  induction cs with
  | nil => exact absurd rfl hne
  | cons c cs ih =>
    rw [List.forall_mem_cons] at h
    rw [words, if_pos (isWordChar_of_isSmall h.1)]
    cases cs with
    | nil => rfl
    | cons d cs =>
      have hd := h.2 d List.mem_cons_self
      have hcontinues : continues c (d :: cs) = true := by
        simp [continues, isHump, isWordChar_of_isSmall hd, not_isUpper_of_isSmall hd]
      rw [if_pos hcontinues, ih (List.cons_ne_nil d cs) h.2]
      rfl

/-- Small words joined by underscores are found again. -/
theorem words_joined (h : ∀ w ∈ ws, w ≠ [] ∧ ∀ c ∈ w, isSmall c = true) :
    words (joined ws) = ws := by
  induction ws with
  | nil => rfl
  | cons w ws ih =>
    rw [List.forall_mem_cons] at h
    have hw := words_of_isSmall h.1.1 h.1.2
    cases ws with
    | nil => rw [joined, List.intercalate_singleton, hw]
    | cons v ws =>
      have hjoined : joined (w :: v :: ws) = w ++ '_' :: joined (v :: ws) := by
        rw [joined, List.intercalate_cons_cons, List.append_assoc]
        rfl
      rw [hjoined, words_append_cons rfl, hw, ih h.2]
      rfl

theorem fieldName_of_words {text fallback : String} (h : words text.toList ≠ []) :
    fieldName text fallback = guardKeyword
      (String.ofList (guardDigit (joined ((words text.toList).map (·.map Char.toLower))))) := by
  rw [fieldName]
  split
  · rename_i hnil
    exact absurd hnil h
  · rfl

theorem isSmall_of_mem_lower {w : List Char} (hw : w ∈ (words cs).map (·.map Char.toLower)) :
    w ≠ [] ∧ ∀ c ∈ w, isSmall c = true := by
  obtain ⟨v, hv, rfl⟩ := List.mem_map.mp hw
  constructor
  · rw [Ne, List.map_eq_nil_iff]
    rintro rfl
    exact nil_not_mem_words _ hv
  · intro c hc
    obtain ⟨d, hd, rfl⟩ := List.mem_map.mp hc
    exact isSmall_toLower (isWordChar_of_mem_words hv hd)

theorem lower_lower (cs : List Char) :
    ((words cs).map (·.map Char.toLower)).map (·.map Char.toLower) =
      (words cs).map (·.map Char.toLower) := by
  refine (List.map_congr_left fun w hw => ?_).trans (List.map_id _)
  refine (List.map_congr_left fun c hc => ?_).trans (List.map_id _)
  exact toLower_of_isSmall ((isSmall_of_mem_lower hw).2 c hc)

/-- The words of a field name are those of its text, made small. -/
theorem words_fieldName {text : String} (h : words text.toList ≠ []) :
    words (fieldName text).toList = (words text.toList).map (·.map Char.toLower) := by
  rw [fieldName_of_words h, words_guardKeyword, String.toList_ofList, words_guardDigit,
    words_joined fun w => isSmall_of_mem_lower]

theorem fieldName_fieldName (text : String) : fieldName (fieldName text) = fieldName text := by
  by_cases hnil : words text.toList = []
  · have hfallback : fieldName text = "field" := by rw [fieldName, hnil]
    rw [hfallback]
    decide
  · have hne : words (fieldName text).toList ≠ [] := by
      rw [words_fieldName hnil, Ne, List.map_eq_nil_iff]
      exact hnil
    rw [fieldName_of_words hne, words_fieldName hnil, lower_lower, fieldName_of_words hnil]

/-! ## Class names -/

/-- In a text without other characters a new word begins with a capital. -/
theorem capitalize_of_mem_tail (hall : ∀ c ∈ cs, isWordChar c = true) {w : List Char}
    (hw : w ∈ (words cs).tail) : capitalize w = w := by
  induction cs with
  | nil => cases hw
  | cons c cs ih =>
    rw [List.forall_mem_cons] at hall
    rw [words, if_pos hall.1] at hw
    split at hw
    · refine ih hall.2 ?_
      cases hws : words cs with
      | nil =>
        rw [hws] at hw
        exact hw
      | cons v ws =>
        rw [hws] at hw
        exact hw
    · rename_i hends
      cases cs with
      | nil => cases hw
      | cons d ds =>
        have hd : isWordChar d = true := hall.2 d List.mem_cons_self
        have hhump : isHump c d = true := by simpa [continues, hd] using hends
        have hupper : d.isUpper = true := (Bool.and_eq_true_iff.mp hhump).2
        obtain ⟨v, ws, hws⟩ := exists_words_cons hd ds
        rw [List.tail_cons, hws, List.mem_cons] at hw
        obtain rfl | hw := hw
        · rw [capitalize, toUpper_of_isUpper hupper]
        · refine ih hall.2 ?_
          rw [hws]
          exact hw

/-- Run together again, the words of a text that begins with no small letter are the text. -/
theorem flatten_capitalize (hall : ∀ d ∈ c :: cs, isWordChar d = true) (hc : c.toUpper = c) :
    ((words (c :: cs)).map capitalize).flatten = c :: cs := by
  have hsame : (words (c :: cs)).map capitalize = words (c :: cs) := by
    obtain ⟨w, ws, hws⟩ := exists_words_cons (hall c List.mem_cons_self) cs
    have htail : ∀ v ∈ ws, capitalize v = v := by
      intro v hv
      refine capitalize_of_mem_tail hall ?_
      rw [hws]
      exact hv
    rw [hws, List.map_cons, capitalize, hc, List.map_congr_left htail, List.map_id']
  rw [hsame, flatten_words]
  exact List.filter_eq_self.mpr hall

theorem className_of_words {text fallback : String} (h : words text.toList ≠ []) :
    className text fallback =
      String.ofList (guardDigit ((words text.toList).map capitalize).flatten) := by
  rw [className]
  split
  · rename_i hnil
    exact absurd hnil h
  · rfl

/-- Capitalized words run together begin with no small letter. -/
theorem exists_flatten_capitalize (h : words cs ≠ []) :
    ∃ c ds, ((words cs).map capitalize).flatten = c :: ds ∧ c.toUpper = c ∧
      ∀ d ∈ c :: ds, isWordChar d = true := by
  have hall : ∀ d ∈ ((words cs).map capitalize).flatten, isWordChar d = true := by
    intro d hd
    obtain ⟨w, hw, hd⟩ := List.mem_flatten.mp hd
    obtain ⟨v, hv, rfl⟩ := List.mem_map.mp hw
    exact isWordChar_of_mem_capitalize (fun _ => isWordChar_of_mem_words hv) hd
  cases hws : words cs with
  | nil => exact absurd hws h
  | cons w ws =>
    have hw : w ∈ words cs := by simp [hws]
    cases w with
    | nil => exact absurd hw (nil_not_mem_words cs)
    | cons c w =>
      rw [hws] at hall
      exact ⟨c.toUpper, w ++ (ws.map capitalize).flatten, rfl,
        toUpper_toUpper (isWordChar_of_mem_words hw List.mem_cons_self), hall⟩

theorem className_className (text : String) : className (className text) = className text := by
  by_cases hnil : words text.toList = []
  · have hfallback : className text = "Type" := by rw [className, hnil]
    rw [hfallback]
    decide
  · obtain ⟨c, ds, hflat, hc, hall⟩ := exists_flatten_capitalize hnil
    have hname : className text = String.ofList (guardDigit (c :: ds)) := by
      rw [className_of_words hnil, hflat]
    have hwords : words (className text).toList = words (c :: ds) := by
      rw [hname, String.toList_ofList, words_guardDigit]
    have hne : words (className text).toList ≠ [] := by
      obtain ⟨w, ws, hws⟩ := exists_words_cons (hall c List.mem_cons_self) ds
      rw [hwords, hws]
      exact List.cons_ne_nil _ _
    rw [className_of_words hne, hwords, flatten_capitalize hall hc, hname]

/-- A class name makes itself again, and so does a field name, whatever text it was made from. -/
theorem names_idempotent (text : String) :
    className (className text) = className text ∧ fieldName (fieldName text) = fieldName text :=
  ⟨className_className text, fieldName_fieldName text⟩

end SchemaModel.Naming
