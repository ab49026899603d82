import SchemaModel.Naming.Allocator
import SchemaModel.Proofs.Enumeration

/-!
Shapes of generated names. Field names have no capitals and class names begin with one, unless their
texts begin with a digit: then both begin with an underscore and that digit, and can be the same.
Names of members have no small letters.
-/
namespace SchemaModel.Naming

/-- A name begins with a letter of some kind, or with an underscore in front of a digit. -/
def beginsWith (letter : Char → Bool) : List Char → Bool
  | '_' :: c :: _ => c.isDigit
  | c :: _ => letter c
  | [] => false

/-- Small letters, digits and underscores. -/
def isFieldName (name : String) : Bool :=
  name.toList.all (fun c => c == '_' || c.isLower || c.isDigit) &&
    beginsWith Char.isLower name.toList

/-- Letters, digits and underscores, a capital in front. -/
def isClassName (name : String) : Bool :=
  name.toList.all (fun c => c == '_' || isWordChar c) && beginsWith Char.isUpper name.toList

/-- Capitals, digits and underscores. -/
def isConstantName (name : String) : Bool :=
  name.toList.all (fun c => c == '_' || c.isUpper || c.isDigit) &&
    beginsWith Char.isUpper name.toList

theorem nil_not_mem_words (cs : List Char) : [] ∉ words cs := by
  induction cs with
  | nil => simp [words]
  | cons c cs ih =>
    rw [words]
    split
    · split
      · cases hw : words cs with
        | nil => simp [extend]
        | cons w ws =>
          rw [hw, List.mem_cons, not_or] at ih
          simpa [extend] using ih.2
      · simpa using ih
    · exact ih

/-! ## Characters -/

/-- Small letters and digits are what is left when a character of a word is made small. -/
theorem toLower_of_isWordChar {c : Char} (h : isWordChar c = true) :
    c.toLower.isLower = true ∨ c.toLower.isDigit = true :=
  of_ascii (P := fun c => c.toLower.isLower = true ∨ c.toLower.isDigit = true) (by decide) h

theorem toUpper_of_isWordChar {c : Char} (h : isWordChar c = true) :
    c.toUpper.isUpper = true ∨ c.toUpper.isDigit = true :=
  of_ascii (P := fun c => c.toUpper.isUpper = true ∨ c.toUpper.isDigit = true) (by decide) h

/-! ## Beginnings -/

variable {letter : Char → Bool}

/-- An underscore in front of a digit gives a name its shape. -/
theorem beginsWith_guardDigit (hletter : letter '_' = false) {c : Char} {cs : List Char}
    (h : letter c = true ∨ c.isDigit = true) : beginsWith letter (guardDigit (c :: cs)) = true := by
  rw [guardDigit]
  split
  · assumption
  · rename_i hdigit
    have hc := h.resolve_right hdigit
    have hne : c ≠ '_' := by
      rintro rfl
      rw [hletter] at hc
      cases hc
    rw [beginsWith]
    · exact hc
    · exact fun _ _ he => absurd he hne

theorem beginsWith_append (hletter : letter '_' = false) {cs : List Char}
    (h : beginsWith letter cs = true) (ds : List Char) : beginsWith letter (cs ++ ds) = true := by
  cases cs with
  | nil => cases h
  | cons c cs =>
    by_cases hc : c = '_'
    · subst hc
      cases cs with
      | nil =>
        rw [beginsWith, hletter] at h
        · cases h
        · exact fun _ _ _ => nofun
      | cons d cs => exact h
    · rw [beginsWith] at h
      · rw [List.cons_append, beginsWith]
        · exact h
        · exact fun _ _ he => absurd he hc
      · exact fun _ _ he => absurd he hc

/-! ## Field names -/

theorem isFieldName_guardKeyword {name : String} (h : isFieldName name = true) :
    isFieldName (guardKeyword name) = true := by
  rw [guardKeyword]
  split
  · simp only [isFieldName, Bool.and_eq_true] at h
    simp only [isFieldName, String.toList_append, List.all_append, Bool.and_eq_true]
    exact ⟨⟨h.1, by decide⟩, beginsWith_append (by decide) h.2 _⟩
  · exact h

theorem exists_joined_cons (c : Char) (cs : List Char) (ws : List (List Char)) :
    ∃ rest, joined ((c :: cs) :: ws) = c :: rest := by
  cases ws with
  | nil => exact ⟨cs, by rw [joined, List.intercalate_singleton]⟩
  | cons w ws => exact ⟨_, by rw [joined, List.intercalate_cons_cons]; rfl⟩

/-- Words of one case, joined by underscores, have the shape of a name. -/
theorem shape_joined {f : Char → Char} (hletter : letter '_' = false)
    (hf : ∀ c, isWordChar c = true → letter (f c) = true ∨ (f c).isDigit = true) {cs : List Char}
    (hne : words cs ≠ []) :
    (guardDigit (joined ((words cs).map (·.map f)))).all
        (fun c => c == '_' || letter c || c.isDigit) = true ∧
      beginsWith letter (guardDigit (joined ((words cs).map (·.map f)))) = true := by
  constructor
  · rw [List.all_eq_true]
    intro c hc
    obtain rfl | hc := mem_guardDigit hc
    · rfl
    · obtain rfl | ⟨w, hw, hc⟩ := mem_joined hc
      · rfl
      · obtain ⟨v, hv, rfl⟩ := List.mem_map.mp hw
        obtain ⟨d, hd, rfl⟩ := List.mem_map.mp hc
        obtain h | h := hf d (isWordChar_of_mem_words hv hd) <;> simp [h]
  · cases hws : words cs with
    | nil => exact absurd hws hne
    | cons w ws =>
      have hw : w ∈ words cs := by simp [hws]
      cases w with
      | nil => exact absurd hw (nil_not_mem_words _)
      | cons c cs =>
        obtain ⟨rest, hrest⟩ := exists_joined_cons (f c) (cs.map f) (ws.map (·.map f))
        rw [List.map_cons, List.map_cons, hrest]
        exact beginsWith_guardDigit hletter
          (hf c (isWordChar_of_mem_words hw List.mem_cons_self))

theorem isFieldName_fieldName (text : String) : isFieldName (fieldName text) = true := by
  unfold fieldName
  split
  · decide
  · rename_i ws hne
    apply isFieldName_guardKeyword
    rw [isFieldName, Bool.and_eq_true, String.toList_ofList]
    exact shape_joined (by decide) (fun c => toLower_of_isWordChar) hne

theorem isWordChar_of_isUpper {c : Char} (h : c.isUpper = true) : isWordChar c = true := by
  have hletter : c.isAlpha = true := Bool.or_eq_true_iff.mpr (.inl h)
  exact Bool.or_eq_true_iff.mpr (.inl hletter)

theorem isWordChar_of_isDigit {c : Char} (h : c.isDigit = true) : isWordChar c = true :=
  Bool.or_eq_true_iff.mpr (.inr h)

/-! ## Constant names -/

theorem isConstantName_constantName (text : String) :
    isConstantName (constantName text) = true := by
  unfold constantName
  split
  · decide
  · rename_i ws hne
    rw [isConstantName, Bool.and_eq_true, String.toList_ofList]
    exact shape_joined (by decide) (fun c => toUpper_of_isWordChar) hne

/-- A constant name has the shape of a class name as well. -/
theorem isClassName_of_isConstantName {name : String} (h : isConstantName name = true) :
    isClassName name = true := by
  rw [isConstantName, Bool.and_eq_true] at h
  rw [isClassName, Bool.and_eq_true]
  refine ⟨?_, h.2⟩
  rw [List.all_eq_true] at h ⊢
  intro c hc
  have hshape := h.1 c hc
  simp only [Bool.or_eq_true] at hshape ⊢
  obtain (hc | hc) | hc := hshape
  · exact .inl hc
  · exact .inr (isWordChar_of_isUpper hc)
  · exact .inr (isWordChar_of_isDigit hc)

/-! ## Class names -/

theorem isWordChar_of_mem_capitalize {w : List Char} (h : ∀ c ∈ w, isWordChar c = true) {c : Char}
    (hc : c ∈ capitalize w) : isWordChar c = true := by
  cases w with
  | nil => cases hc
  | cons d w =>
    obtain rfl | hc := List.mem_cons.mp hc
    · exact isWordChar_toUpper (h d List.mem_cons_self)
    · exact h c (List.mem_cons_of_mem _ hc)

theorem isClassName_className (text : String) {fallback : String}
    (h : isClassName fallback = true) : isClassName (className text fallback) = true := by
  unfold className
  split
  · exact h
  · rename_i ws hne
    rw [isClassName, Bool.and_eq_true, String.toList_ofList]
    constructor
    · rw [List.all_eq_true]
      intro c hc
      obtain rfl | hc := mem_guardDigit hc
      · rfl
      · obtain ⟨w, hw, hc⟩ := List.mem_flatten.mp hc
        obtain ⟨v, hv, rfl⟩ := List.mem_map.mp hw
        simp [isWordChar_of_mem_capitalize (fun _ hd => isWordChar_of_mem_words hv hd) hc]
    · cases hws : words text.toList with
      | nil => exact absurd hws hne
      | cons w ws =>
        have hw : w ∈ words text.toList := by simp [hws]
        cases w with
        | nil => exact absurd hw (nil_not_mem_words _)
        | cons c cs =>
          exact beginsWith_guardDigit (by decide)
            (toUpper_of_isWordChar (isWordChar_of_mem_words hw List.mem_cons_self))

theorem isClassName_candidate {base : String} (h : isClassName base = true) (k : Nat) :
    isClassName (Allocator.candidate base k) = true := by
  cases k with
  | zero => exact h
  | succ k =>
    simp only [isClassName, Bool.and_eq_true] at h
    simp only [Allocator.candidate, isClassName, String.toList_append, List.all_append,
      Bool.and_eq_true]
    refine ⟨⟨h.1, List.all_eq_true.mpr fun c hc => ?_⟩, beginsWith_append (by decide) h.2 _⟩
    rw [Nat.toString_eq_repr, Nat.toList_repr] at hc
    have hdigit := Nat.isDigit_of_mem_toDigits (by decide) (by decide) hc
    rw [isWordChar_of_isDigit hdigit, Bool.or_true]

/-- A name of both shapes begins with an underscore and a digit. -/
theorem exists_digit_of_both {name : String} (hf : isFieldName name = true)
    (hc : isClassName name = true) :
    ∃ d rest, name.toList = '_' :: d :: rest ∧ d.isDigit = true := by
  simp only [isFieldName, isClassName, Bool.and_eq_true] at hf hc
  obtain ⟨-, hf⟩ := hf
  obtain ⟨hchars, hc⟩ := hc
  cases hname : name.toList with
  | nil =>
    rw [hname] at hf
    cases hf
  | cons c cs =>
    rw [hname] at hf hc hchars
    by_cases hunderscore : c = '_'
    · subst hunderscore
      cases cs with
      | nil => cases hf
      | cons d rest => exact ⟨d, rest, rfl, hf⟩
    · -- no letter is both small and a capital
      have hword : isWordChar c = true := by
        simpa [hunderscore] using List.all_eq_true.mp hchars c List.mem_cons_self
      have hboth := of_ascii (P := fun c => c.isLower = true → c.isUpper = false) (by decide) hword
      rw [beginsWith] at hf hc
      · rw [hboth hf] at hc
        cases hc
      all_goals exact fun _ _ he => absurd he hunderscore

end SchemaModel.Naming
