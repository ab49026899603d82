import Mathlib.Algebra.Group.Nat.Defs
import SchemaModel.Calendar.Date
import SchemaModel.Number.Numeral

/-!
Decimal digits read back. Digits stand for the number that they were written for, with zeros in
front of them or without, and a number that fits a field of fixed width fills it.
-/
namespace SchemaModel

theorem isDigit_of_mem_toDigits {n : Nat} {c : Char} (h : c ∈ Nat.toDigits 10 n) :
    c.isDigit = true :=
  Nat.isDigit_of_mem_toDigits (by decide) (by decide) h

/-- The characters of an integer: digits, behind a minus if it is negative. -/
theorem toList_int (i : Int) :
    (0 ≤ i ∧ (toString i).toList = Nat.toDigits 10 i.toNat) ∨
      (i < 0 ∧ (toString i).toList = '-' :: Nat.toDigits 10 (-i).toNat) := by
  rw [Int.toString_eq_repr, Int.repr_eq_if]
  by_cases h : 0 ≤ i
  · rw [if_pos h]
    exact .inl ⟨h, by simp⟩
  · rw [if_neg h]
    exact .inr ⟨by omega, by simp [String.toList_append]⟩

/-- A run is followed by something that does not belong to it. -/
theorem takeWhile_run {p : Char → Bool} {run rest : List Char} (h : ∀ c ∈ run, p c = true)
    (hrest : ∀ c ∈ rest.head?, p c = false) :
    (run ++ rest).takeWhile p = run ∧ (run ++ rest).dropWhile p = rest := by
  rw [List.takeWhile_append_of_pos h, List.dropWhile_append_of_pos h]
  cases rest with
  | nil => simp
  | cons c cs => simp [hrest c (by simp)]

theorem toNat_of_isDigit {c : Char} (h : c.isDigit = true) : 48 ≤ c.toNat ∧ c.toNat ≤ 57 := by
  simpa [Char.isDigit, UInt32.le_iff_toNat_le] using h

namespace Numeral

variable {c : Char} {ds : List Char}

/-! ## Integers -/

theorem digitValue?_of_isDigit (h : c.isDigit = true) :
    Text.digitValue? c = some (c.toNat - 48) := by
  obtain ⟨hlow, hhigh⟩ := toNat_of_isDigit h
  simp [Text.digitValue?, Text.digitZeros, hlow, Nat.lt_succ_of_le hhigh]

theorem digitIn?_of_isDigit (h : c.isDigit = true) :
    digitIn? 10 c = some (c.toNat - '0'.toNat) := by
  obtain ⟨hlow, hhigh⟩ := toNat_of_isDigit h
  have hsmall : ¬ ('a' ≤ c ∧ c ≤ 'z') := by
    simp only [Char.le_def, UInt32.le_iff_toNat_le]
    intro hc
    exact absurd (Nat.le_trans hc.1 hhigh) (by decide)
  have hcapital : ¬ ('A' ≤ c ∧ c ≤ 'Z') := by
    simp only [Char.le_def, UInt32.le_iff_toNat_le]
    intro hc
    exact absurd (Nat.le_trans hc.1 hhigh) (by decide)
  have hlt : c.toNat - 48 < 10 := by omega
  simp [digitIn?, hsmall, hcapital, digitValue?_of_isDigit h, hlt]

/-- Digits without underscores are read one after the other. -/
theorem digitsFrom?_of_isDigit (hne : ds ≠ []) (h : ∀ c ∈ ds, c.isDigit = true) (acc : Nat) :
    digitsFrom? 10 acc ds =
      some (ds.foldl (fun n c => n * 10 + (c.toNat - '0'.toNat)) acc) := by
  induction ds generalizing acc with
  | nil => exact absurd rfl hne
  | cons c cs ih =>
    rw [List.forall_mem_cons] at h
    cases cs with
    | nil => simp [digitsFrom?, digitIn?_of_isDigit h.1]
    | cons d cs =>
      have hd : d ≠ '_' := by
        rintro rfl
        exact absurd (h.2 '_' List.mem_cons_self) (by decide)
      rw [digitsFrom?, digitIn?_of_isDigit h.1]
      · exact ih (List.cons_ne_nil d cs) h.2 _
      · exact List.cons_ne_nil d cs
      · intro rest hrest
        exact hd (List.head_eq_of_cons_eq hrest)

theorem natOfDigits_eq (ds : List Char) : natOfDigits ds = Nat.ofDigitChars 10 ds 0 := by
  simp [natOfDigits, Nat.ofDigitChars, Nat.mul_comm]

theorem splitSign_of_isDigit (h : ∀ c ∈ ds, c.isDigit = true) : splitSign ds = (false, ds) := by
  unfold splitSign
  split
  · simp_all
  · simp_all
  · rfl

/-- Base ten has no mark. -/
theorem dropBaseMark_ten (cs : List Char) : dropBaseMark 10 cs = cs := by
  unfold dropBaseMark
  split
  · simp_all
  · rfl

theorem intOfChars?_of_isDigit (hne : ds ≠ []) (h : ∀ c ∈ ds, c.isDigit = true) :
    intOfChars? 10 ds = some (natOfDigits ds : Int) := by
  simp [intOfChars?, splitSign_of_isDigit h, dropBaseMark_ten, digitsFrom?_of_isDigit hne h,
    natOfDigits]

end Numeral

namespace Date

variable {width n : Nat}

/-! ## Fields of fixed width -/

theorem toList_padded (width n : Nat) : (padded width n).toList =
    List.replicate (width - (Nat.toDigits 10 n).length) '0' ++ Nat.toDigits 10 n := by
  simp [padded]

theorem isDigit_padded {c : Char} (h : c ∈ (padded width n).toList) : c.isDigit = true := by
  rw [toList_padded, List.mem_append] at h
  rcases h with h | h
  · rw [List.eq_of_mem_replicate h]
    rfl
  · exact isDigit_of_mem_toDigits h

theorem natOfDigits_padded (width n : Nat) : Numeral.natOfDigits (padded width n).toList = n := by
  rw [Numeral.natOfDigits_eq, toList_padded, Nat.ofDigitChars_append,
    Nat.ofDigitChars_replicate_zero, Nat.mul_zero, Nat.ofDigitChars_ten_toDigits]

theorem length_padded (hwidth : 0 < width) (h : n < 10 ^ width) :
    (padded width n).toList.length = width := by
  have hlen := (Nat.length_toDigits_le_iff (by decide) hwidth).mpr h
  rw [toList_padded, List.length_append, List.length_replicate]
  omega

end Date
end SchemaModel
