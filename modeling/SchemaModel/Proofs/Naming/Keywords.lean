import SchemaModel.Proofs.Naming.Shapes

/-!
Class names and keywords. A class name is always an identifier, but three keywords have the shape of
class names as well. A text gets one of them only if it is that word alone, up to the case of its
first letter.
-/
namespace SchemaModel.Naming

/-- An identifier in ASCII: letters, digits and underscores, no digit in front. -/
def isIdentifier (name : String) : Bool :=
  match name.toList with
  | [] => false
  | c :: cs => (c == '_' || c.isAlpha) && cs.all fun c => c == '_' || c.isAlphanum

/-- Letters, digits and underscores make an identifier if a letter begins it, or an underscore in
front of a digit. -/
theorem isIdentifier_of_shape {letter : Char → Bool}
    (hletter : ∀ c, letter c = true → c.isAlpha = true)
    {name : String} (hbegin : beginsWith letter name.toList = true)
    (hchars : ∀ c ∈ name.toList, c = '_' ∨ isWordChar c = true) : isIdentifier name = true := by
  rw [isIdentifier]
  cases hname : name.toList with
  | nil =>
    rw [hname] at hbegin
    cases hbegin
  | cons c cs =>
    rw [hname] at hchars hbegin
    rw [List.forall_mem_cons] at hchars
    refine Bool.and_eq_true_iff.mpr ⟨?_, List.all_eq_true.mpr fun d hd => ?_⟩
    · by_cases hc : c = '_'
      · simp [hc]
      · rw [beginsWith] at hbegin
        · rw [hletter c hbegin, Bool.or_true]
        · exact fun _ _ he => absurd he hc
    · simpa [isWordChar] using hchars.2 d hd

theorem isIdentifier_of_isClassName {name : String} (h : isClassName name = true) :
    isIdentifier name = true := by
  rw [isClassName, Bool.and_eq_true] at h
  refine isIdentifier_of_shape (fun c hc => ?_) h.2 fun c hc => ?_
  · exact Bool.or_eq_true_iff.mpr (.inl hc)
  · simpa using List.all_eq_true.mp h.1 c hc

/-- The keywords that begin with a capital. -/
def capitalKeywords : List String := ["False", "None", "True"]

theorem mem_keywords_iff {name : String} (h : isClassName name = true) :
    name ∈ keywords ↔ name ∈ capitalKeywords := by
  have hcapital : ∀ k ∈ keywords, isClassName k = true → k ∈ capitalKeywords := by decide
  have hkeyword : ∀ k ∈ capitalKeywords, k ∈ keywords := by decide
  exact ⟨fun hk => hcapital name hk h, hkeyword name⟩

/-- A number behind a base keeps it from being a keyword. -/
theorem candidate_not_mem_keywords (base : String) (k : Nat) :
    Allocator.candidate base (k + 1) ∉ capitalKeywords := by
  intro hk
  have hletters : ∀ n ∈ capitalKeywords, (n.toList.any Char.isDigit) = false := by decide
  -- the number has a first digit
  obtain ⟨c, hc⟩ := List.exists_mem_of_ne_nil _ (Nat.toDigits_ne_nil (b := 10) (n := k + 2))
  have hmem : c ∈ (Allocator.candidate base (k + 1)).toList := by
    rw [Allocator.candidate, String.toList_append, Nat.toString_eq_repr, Nat.toList_repr]
    exact List.mem_append_right _ hc
  have hdigit := Nat.isDigit_of_mem_toDigits (by decide) (by decide) hc
  exact List.any_eq_false.mp (hletters _ hk) c hmem hdigit

theorem guardDigit_eq {cs : List Char} (h : (guardDigit cs).head? ≠ some '_') :
    guardDigit cs = cs := by
  cases cs with
  | nil => rfl
  | cons c cs =>
    rw [guardDigit] at h ⊢
    split at h
    · exact absurd rfl h
    · rename_i hdigit
      rw [if_neg hdigit]

/-- A second word puts a capital or a digit behind the first letter. -/
theorem exists_not_isLower {w v : List Char} (hw : w ≠ []) (hv : v ≠ [])
    (hchars : ∀ c ∈ v, isWordChar c = true) (ws : List (List Char)) :
    ∃ c ∈ ((w :: v :: ws).map capitalize).flatten.tail, c.isLower = false := by
  obtain ⟨a, w, rfl⟩ := List.exists_cons_of_ne_nil hw
  obtain ⟨c, v, rfl⟩ := List.exists_cons_of_ne_nil hv
  refine ⟨c.toUpper, by simp [capitalize], ?_⟩
  exact of_ascii (P := fun c => c.toUpper.isLower = false) (by decide)
    (hchars c List.mem_cons_self)

/-- A text that gives a keyword has one word only, since no keyword has a capital or a digit behind
its first letter. -/
theorem words_of_className {text fallback : String} (hf : fallback ∉ capitalKeywords)
    (h : className text fallback ∈ capitalKeywords) :
    ∃ w, words text.toList = [w] ∧ String.ofList (capitalize w) = className text fallback := by
  have hshape : ∀ n ∈ capitalKeywords, n.toList.head? ≠ some '_' ∧
      (n.toList.tail.all Char.isLower) = true := by decide
  obtain ⟨hhead, htail⟩ := hshape _ h
  have hnonempty : ∀ w ∈ words text.toList, w ≠ [] := by
    rintro w hw rfl
    exact nil_not_mem_words _ hw
  unfold className at h hhead htail ⊢
  cases hws : words text.toList with
  | nil =>
    rw [hws] at h
    exact absurd h hf
  | cons w ws =>
    rw [hws] at hhead htail hnonempty
    simp only [String.toList_ofList] at hhead htail
    have hguard := guardDigit_eq hhead
    rw [hguard] at htail
    cases ws with
    | nil =>
      refine ⟨w, rfl, ?_⟩
      simp only [hguard]
      simp
    | cons v ws =>
      have hv : v ∈ words text.toList := by simp [hws]
      obtain ⟨c, hc, hlower⟩ := exists_not_isLower (hnonempty w (by simp)) (hnonempty v (by simp))
        (fun _ => isWordChar_of_mem_words hv) ws
      rw [List.all_eq_true.mp htail c hc] at hlower
      cases hlower

end SchemaModel.Naming
