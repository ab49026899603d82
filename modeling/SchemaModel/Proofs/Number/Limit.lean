import Mathlib.Data.List.TakeWhile
import SchemaModel.Emission.Expression
import SchemaModel.Literal
import SchemaModel.Proofs.Number.Digits

/-!
The limit of digits. From one power of ten on integers are too long to be written, and so are their
numerals to be read. No double is as large as that. Values and literals have a text, and integers an
expression, unless they are too long.
-/
namespace SchemaModel

namespace Numeral

variable {i : Int} {ds : List Char}

theorem isLong_iff : isLong i = true ↔ 10 ^ maxDigits ≤ i.natAbs := by
  rw [isLong, decide_eq_true_eq, ← Nat.not_le,
    Nat.length_toDigits_le_iff (by decide) (by decide), Nat.not_lt]

/-- The least integer that is too long. -/
theorem isLong_power : isLong ((10 ^ maxDigits : Nat) : Int) = true := by
  rw [isLong_iff, Int.natAbs_natCast]

theorem isLong_eq_false {count : Nat} (hcount : count ≤ maxDigits) (h : i.natAbs < 10 ^ count) :
    isLong i = false := by
  rw [← Bool.not_eq_true, isLong_iff, Nat.not_le]
  exact Nat.lt_of_lt_of_le h (Nat.pow_le_pow_right (by decide) hcount)

/-- Digits alone exceed the limit by their number. -/
theorem excess?_of_isDigit (hne : ds ≠ []) (h : ∀ c ∈ ds, c.isDigit = true) :
    excess? ds = if maxDigits < ds.length then some ds.length else none := by
  have hrun : ds.takeWhile (fun c => c = '_' ∨ Text.isDecimalDigit c) = ds := by
    have hall : ∀ c ∈ ds, (decide (c = '_' ∨ Text.isDecimalDigit c = true)) = true := by
      intro c hc
      simp [Text.isDecimalDigit, digitValue?_of_isDigit (h c hc)]
    exact List.takeWhile_eq_self_iff.mpr hall
  have hcounted : ds.filter (· ≠ '_') = ds := by
    refine List.filter_eq_self.mpr fun c hc => ?_
    have hdigit := h c hc
    rw [decide_eq_true_eq]
    rintro rfl
    cases hdigit
  simp only [excess?, hrun, hcounted, digitsFrom?_of_isDigit hne h, Option.isSome_some, and_true]

end Numeral

/-- An integer that is too long to be written is beyond all doubles. -/
theorem Double.ofInt?_of_isLong {i : Int} (h : Numeral.isLong i = true) : ofInt? i = none := by
  have hpower : ∀ k ≤ Numeral.maxDigits, 2 ^ k ≤ i.natAbs := fun k hk =>
    calc 2 ^ k ≤ 10 ^ k := Nat.pow_le_pow_left (by decide) k
      _ ≤ 10 ^ Numeral.maxDigits := Nat.pow_le_pow_right (by decide) hk
      _ ≤ i.natAbs := Numeral.isLong_iff.mp h
  have hne : i.natAbs ≠ 0 := Nat.ne_of_gt (hpower 0 (by decide))
  have hlog : ∀ k ≤ Numeral.maxDigits, k ≤ i.natAbs.log2 := fun k hk =>
    (Nat.le_log2 hne).mpr (hpower k hk)
  have hexponent : 971 < exponentFor i.natAbs 1 := by
    have hone : Nat.log2 1 = 0 := by decide
    have hbits := hlog 1025 (by decide)
    simp only [exponentFor, hone]
    split <;> omega
  have hx : ofRatio (i < 0) i.natAbs 1 = .infinite (i < 0) := by
    rw [ofRatio, if_neg hne]
    have hscaled : ∀ {c : Prop} [Decidable c] {m n : Nat},
        971 < (if c then (m, exponentFor i.natAbs 1 + 1) else (n, exponentFor i.natAbs 1)).2 := by
      intro c _ m n
      split
      · exact Int.lt_add_one_of_le (Int.le_of_lt hexponent)
      · exact hexponent
    exact if_pos hscaled
  rw [ofInt?, hx]
  rfl

/-! ## Values and literals -/

theorem Value.display?_eq_some {v : Value} {text : String} :
    v.display? = some text ↔ v.hasLong = false ∧ v.display = text := by
  unfold display?
  cases v.hasLong <;> simp

theorem Literal.hasLong_int (i : Int) : (int i).hasLong = Numeral.isLong i := by rw [hasLong]

theorem Emission.expression_int (target : TargetType) {i : Int} (h : Numeral.isLong i = false) :
    expression target (.int i) = .ok (toString i) := by
  rw [expression, h]
  rfl

end SchemaModel
