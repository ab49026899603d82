import SchemaModel.Emission.Expression
import SchemaModel.Proofs.Emission.Reader
import SchemaModel.Proofs.Number.Digits

/-!
Numerals read back. Digits in any base stand for the number they were made from, integers are read
as they are written, and a floating number is written in characters of a numeral with a point or an
exponent among them.
-/
namespace SchemaModel.Emission.Reader

/-! ## Digits -/

theorem digitIn?_digitChar (base : Nat) (h : base = 10 ∨ base = 16) {d : Nat} (hd : d < base) :
    Numeral.digitIn? base (Nat.digitChar d) = some d := by
  have h10 : ∀ d < 10, Numeral.digitIn? 10 (Nat.digitChar d) = some d := by decide
  have h16 : ∀ d < 16, Numeral.digitIn? 16 (Nat.digitChar d) = some d := by decide
  obtain rfl | rfl := h
  · exact h10 d hd
  · exact h16 d hd

theorem digits?_toDigits (base : Nat) (h : base = 10 ∨ base = 16) (n : Nat) :
    digits? base (Nat.toDigits base n) = some n := by
  have hbase : 1 < base := by omega
  induction n using Nat.strongRecOn with
  | ind n ih =>
    by_cases hn : n < base
    · rw [Nat.toDigits_of_lt_base hn]
      simp [digits?, digitIn?_digitChar base h hn]
    · have hlast : n % base < base := Nat.mod_lt n (by omega)
      have hfirst := ih (n / base) (Nat.div_lt_self (by omega) hbase)
      rw [digits?] at hfirst
      rw [Nat.toDigits_of_base_le hbase (Nat.le_of_not_lt hn), digits?, List.foldlM_append, hfirst]
      simp [digitIn?_digitChar base h hlast, Nat.div_add_mod']

/-- Zeros in front do not count. -/
theorem digits?_replicate (base : Nat) (h : base = 10 ∨ base = 16) (k : Nat) (ds : List Char) :
    digits? base (List.replicate k '0' ++ ds) = digits? base ds := by
  have hzero : Numeral.digitIn? base '0' = some 0 :=
    digitIn?_digitChar base h (d := 0) (by omega)
  induction k with
  | zero => rfl
  | succ k ih =>
    rw [← ih]
    simp [digits?, List.replicate_succ, hzero]

theorem natural?_toDigits (n : Nat) : natural? (Nat.toDigits 10 n) = some n := by
  simp [natural?, digits?_toDigits]

/-! ## What ends a run -/

/-- A text that is empty or goes on with what stands behind an item. -/
def Ends (rest : List Char) : Prop := ∀ c ∈ rest.head?, c = ',' ∨ c = ']'

theorem ends_nil : Ends [] := by simp [Ends]

theorem ends_comma (cs : List Char) : Ends (',' :: cs) := by simp [Ends]

theorem ends_bracket (cs : List Char) : Ends (']' :: cs) := by simp [Ends]

/-! ## Integers -/

theorem isNumberChar_of_isDigit {c : Char} (h : c.isDigit = true) : isNumberChar c = true := by
  simp [isNumberChar, h]

theorem head_int (i : Int) : ∃ c ∈ (toString i).toList.head?, c.isDigit = true ∨ c = '-' := by
  obtain ⟨-, hs⟩ | ⟨-, hs⟩ := toList_int i
  · obtain ⟨c, cs, hd⟩ := List.exists_cons_of_ne_nil (Nat.toDigits_ne_nil (n := i.toNat) (b := 10))
    rw [hs, hd]
    exact ⟨c, rfl, .inl (isDigit_of_mem_toDigits (n := i.toNat) (by rw [hd]; simp))⟩
  · rw [hs]
    exact ⟨'-', rfl, .inr rfl⟩

theorem integer?_toString (i : Int) : integer? (toString i).toList = some i := by
  obtain ⟨hi, hs⟩ | ⟨hi, hs⟩ := toList_int i
  · rw [hs]
    -- the first case of the reader is for a minus, which is no digit
    have hminus : ∀ ds, Nat.toDigits 10 i.toNat ≠ '-' :: ds := by
      intro ds he
      have : ('-' : Char).isDigit = true := isDigit_of_mem_toDigits (n := i.toNat) (by simp [he])
      exact absurd this (by decide)
    rw [integer?]
    · rw [natural?_toDigits]
      simp
      omega
    · exact hminus
  · rw [hs, integer?, natural?_toDigits]
    simp
    omega

theorem isNumberChar_of_mem_int {i : Int} {c : Char} (h : c ∈ (toString i).toList) :
    isNumberChar c = true ∧ c ≠ '.' ∧ c ≠ 'e' := by
  have hdigit : c.isDigit = true ∨ c = '-' := by
    obtain ⟨-, hs⟩ | ⟨-, hs⟩ := toList_int i
    · rw [hs] at h
      exact .inl (isDigit_of_mem_toDigits h)
    · rw [hs] at h
      obtain rfl | h := List.mem_cons.mp h
      · exact .inr rfl
      · exact .inl (isDigit_of_mem_toDigits h)
  obtain hd | rfl := hdigit
  · refine ⟨isNumberChar_of_isDigit hd, ?_, ?_⟩
    · rintro rfl
      exact absurd hd (by decide)
    · rintro rfl
      exact absurd hd (by decide)
  · decide

theorem not_isNumberChar_of_ends {rest : List Char} (h : Ends rest) :
    ∀ c ∈ rest.head?, isNumberChar c = false := by
  intro c hc
  obtain rfl | rfl := h c hc
  · decide
  · decide

theorem number?_int (i : Int) {rest : List Char} (h : Ends rest) :
    number? ((toString i).toList ++ rest) = some (.int i, rest) := by
  have hchars : ∀ c ∈ (toString i).toList, isNumberChar c = true :=
    fun c hc => (isNumberChar_of_mem_int hc).1
  obtain ⟨htake, hdrop⟩ := takeWhile_run hchars (not_isNumberChar_of_ends h)
  have hany : ((toString i).toList.any fun c => c == '.' || c == 'e') = false := by
    rw [List.any_eq_false]
    intro c hc
    simp [(isNumberChar_of_mem_int hc).2]
  simp only [number?, htake, hdrop, hany, integer?_toString]
  rfl

/-! ## Floating numbers -/

/-- Characters of a numeral that has a point or an exponent. -/
structure IsFloating (cs : List Char) : Prop where
  chars : ∀ c ∈ cs, isNumberChar c = true
  mark : '.' ∈ cs ∨ 'e' ∈ cs
  head : ∃ c ∈ cs.head?, c.isDigit = true ∨ c = '-'

theorem number?_double {x : Double} (hx : Numeral.toDouble? x.text = some x)
    (hf : IsFloating x.text.toList) {rest : List Char} (h : Ends rest) :
    number? (x.text.toList ++ rest) = some (.double x, rest) := by
  obtain ⟨htake, hdrop⟩ := takeWhile_run hf.chars (not_isNumberChar_of_ends h)
  have hany : (x.text.toList.any fun c => c == '.' || c == 'e') = true := by
    rw [List.any_eq_true]
    obtain hm | hm := hf.mark
    · exact ⟨_, hm, by decide⟩
    · exact ⟨_, hm, by decide⟩
  simp only [number?, htake, hdrop, hany]
  simp [hx]

/-! ### How floating numbers are written -/

theorem isDigit_of_mem_digitChars {d : Decimal} {c : Char} (h : c ∈ d.digitChars) :
    c.isDigit = true := by
  unfold Decimal.digitChars at h
  simp only at h
  split at h
  · rw [List.mem_singleton.mp h]
    decide
  · have hm := (List.dropWhile_sublist _).mem (List.mem_reverse.mp h)
    exact isDigit_of_mem_toDigits (List.mem_reverse.mp hm)

theorem digitChars_ne_nil (d : Decimal) : d.digitChars ≠ [] := by
  unfold Decimal.digitChars
  simp only
  split
  · simp
  · rename_i hne
    exact hne

theorem isNumberChar_of_mem_zeros {k : Nat} {c : Char} (h : c ∈ List.replicate k '0') :
    isNumberChar c = true := by
  rw [(List.mem_replicate.mp h).2]
  decide

theorem isFloating_positional {cs : List Char} (h : ∀ c ∈ cs, c.isDigit = true) (hne : cs ≠ [])
    (point : Int) : IsFloating (positional cs point) := by
  have hchars : ∀ c ∈ cs, isNumberChar c = true := fun c hc => isNumberChar_of_isDigit (h c hc)
  obtain ⟨d, ds, rfl⟩ := List.exists_cons_of_ne_nil hne
  have hd : d.isDigit = true := h d List.mem_cons_self
  unfold positional
  split
  · refine ⟨fun c hc => ?_, .inl (by simp), '0', by simp, .inl (by decide)⟩
    simp only [List.cons_append, List.mem_cons, List.mem_append] at hc
    obtain rfl | rfl | hc | hc := hc
    · decide
    · decide
    · exact isNumberChar_of_mem_zeros hc
    · exact hchars c (by simpa using hc)
  · rename_i hp
    simp only
    split
    · refine ⟨fun c hc => ?_, .inl (by simp), d, by simp, .inl hd⟩
      simp only [List.mem_append] at hc
      obtain (hc | hc) | hc := hc
      · exact hchars c hc
      · exact isNumberChar_of_mem_zeros hc
      · simp only [List.mem_cons, List.not_mem_nil, or_false] at hc
        obtain rfl | rfl := hc <;> decide
    · have hpos : point.toNat = point.toNat - 1 + 1 := by omega
      refine ⟨fun c hc => ?_, .inl (by simp), d, by rw [hpos]; simp, .inl hd⟩
      simp only [List.mem_append, List.mem_cons] at hc
      obtain hc | rfl | hc := hc
      · exact hchars c (List.mem_of_mem_take hc)
      · decide
      · exact hchars c (List.mem_of_mem_drop hc)

theorem isFloating_withExponent {cs : List Char} (h : ∀ c ∈ cs, c.isDigit = true) (hne : cs ≠ [])
    (width : Nat) (point : Int) : IsFloating (withExponent width cs point) := by
  have hchars : ∀ c ∈ cs, isNumberChar c = true := fun c hc => isNumberChar_of_isDigit (h c hc)
  obtain ⟨d, ds, rfl⟩ := List.exists_cons_of_ne_nil hne
  have hd : d.isDigit = true := h d List.mem_cons_self
  refine ⟨fun c hc => ?_, .inr (by simp [withExponent]), d, ?_, .inl hd⟩
  · unfold withExponent at hc
    simp only [List.append_assoc, List.cons_append, List.mem_append, List.mem_cons] at hc
    obtain hc | rfl | rfl | hc | hc := hc
    · -- one digit stands alone; of several, the first is followed by a point
      cases ds with
      | nil => exact hchars c hc
      | cons d' ds =>
        obtain rfl | hc := List.mem_cons.mp hc
        · exact hchars _ List.mem_cons_self
        · obtain rfl | hc := List.mem_cons.mp hc
          · decide
          · exact hchars c (List.mem_cons_of_mem _ hc)
    · decide
    · split <;> decide
    · exact isNumberChar_of_mem_zeros hc
    · exact isNumberChar_of_isDigit (isDigit_of_mem_toDigits hc)
  · unfold withExponent
    cases ds <;> simp

theorem IsFloating.negated {cs : List Char} (h : IsFloating cs) : IsFloating ('-' :: cs) := by
  refine ⟨fun c hc => ?_, h.mark.imp (List.mem_cons_of_mem _) (List.mem_cons_of_mem _), '-',
    by simp, .inr rfl⟩
  obtain rfl | hc := List.mem_cons.mp hc
  · decide
  · exact h.chars c hc

theorem isFloating_text {x : Double} (h : x.isFinite = true) : IsFloating x.text.toList := by
  cases x with
  | finite s m e =>
    have hbody : IsFloating (if m = 0 then ['0', '.', '0'] else
        if (Decimal.shortest m e).point - 1 < -4 ∨ 16 ≤ (Decimal.shortest m e).point - 1 then
          withExponent 2 (Decimal.shortest m e).digitChars (Decimal.shortest m e).point
        else positional (Decimal.shortest m e).digitChars (Decimal.shortest m e).point) := by
      split
      · have hall : ['0', '.', '0'].all isNumberChar = true := rfl
        exact ⟨List.all_eq_true.mp hall, .inl (by simp), '0', rfl, .inl rfl⟩
      · split
        · exact isFloating_withExponent (fun c hc => isDigit_of_mem_digitChars hc)
            (digitChars_ne_nil _) 2 _
        · exact isFloating_positional (fun c hc => isDigit_of_mem_digitChars hc)
            (digitChars_ne_nil _) _
    rw [Double.text, Double.textIn, String.toList_ofList]
    cases s with
    | false => exact hbody
    | true => exact hbody.negated
  | _ => simp [Double.isFinite] at h

end SchemaModel.Emission.Reader
