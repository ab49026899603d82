import Mathlib.Algebra.Group.Nat.Defs
import SchemaModel.Number.Double

/-!
Numbers by what they count. The least exponent is `-1074`, so every finite number is a whole
multiple of the least positive one, and two numbers are equal exactly if they are the same multiple.
Whole numbers are counted in the same unit.
-/
namespace SchemaModel

/-- What a number counts, in multiples of the least positive double. -/
inductive Amount
  | finite (units : Int)
  | infinite (negative : Bool)
  deriving DecidableEq

/-- How many times the least positive double goes into one. -/
def Double.unitsPerOne : Nat := 2 ^ 1074

/-- What a whole number counts. -/
def Amount.whole (i : Int) : Amount := .finite (i * Double.unitsPerOne)

namespace Double

/-- Whether this is a number, in the one form in which finite numbers are kept. -/
def isNumber : Double → Bool
  | .nan _ => false
  | .infinite _ => true
  | .finite _ m e => m < 2 ^ 53 && -1074 ≤ e && (2 ^ 52 ≤ m || e == -1074)

/-- The bounds of mantissa and exponent in the form in which finite numbers are kept. -/
structure Kept (m : Nat) (e : Int) : Prop where
  lt : m < 2 ^ 53
  least : -1074 ≤ e
  norm : 2 ^ 52 ≤ m ∨ e = -1074

/-- What a finite number counts. -/
def units (negative : Bool) (m : Nat) (e : Int) : Int :=
  signedMantissa negative m * (2 ^ (e + 1074).toNat : Nat)

/-- What a number counts, if it is one. -/
def amount? : Double → Option Amount
  | .nan _ => none
  | .infinite negative => some (.infinite negative)
  | .finite negative m e => some (.finite (units negative m e))

variable {s t : Bool} {m n : Nat} {e f : Int}

theorem kept_of_isNumber (h : (Double.finite s m e).isNumber = true) : Kept m e := by
  simp only [isNumber, Bool.and_eq_true, Bool.or_eq_true, decide_eq_true_eq, beq_iff_eq] at h
  exact ⟨h.1.1, h.1.2, h.2⟩

theorem natAbs_signedMantissa (s : Bool) (m : Nat) : (signedMantissa s m).natAbs = m := by
  cases s <;> simp [signedMantissa]

theorem signedMantissa_inj : signedMantissa s m = signedMantissa t n ↔ m = n ∧ (s = t ∨ m = 0) := by
  cases s <;> cases t <;> simp only [signedMantissa] <;> simp <;> omega

theorem twoPow_ne_zero (k : Nat) : ((2 ^ k : Nat) : Int) ≠ 0 :=
  Int.natCast_ne_zero.mpr (Nat.ne_of_gt (Nat.two_pow_pos k))

/-- A greater exponent leaves no room for the same amount: the mantissa that goes with it has all
its 53 bits, so the other one would need more. -/
theorem exponent_le_of_units (hm : Kept m e) (hn : Kept n f)
    (h : m * 2 ^ (e + 1074).toNat = n * 2 ^ (f + 1074).toNat) : e ≤ f := by
  refine Int.not_lt.mp fun hlt => ?_
  have hnorm : 2 ^ 52 ≤ m := hm.norm.resolve_right (by have := hn.least; omega)
  obtain ⟨k, hk⟩ : ∃ k, (e + 1074).toNat = (f + 1074).toNat + 1 + k :=
    ⟨(e - f - 1).toNat, by have := hn.least; omega⟩
  have hshift : m * 2 * 2 ^ k = n := by
    rw [hk, Nat.pow_add, Nat.pow_succ] at h
    refine Nat.eq_of_mul_eq_mul_right (Nat.two_pow_pos (f + 1074).toNat) ?_
    rw [← h]
    simp only [Nat.mul_assoc, Nat.mul_comm, Nat.mul_left_comm]
  have hone : m * 2 ≤ m * 2 * 2 ^ k := Nat.le_mul_of_pos_right _ (Nat.two_pow_pos k)
  have := hn.lt
  omega

theorem units_inj (hm : Kept m e) (hn : Kept n f) :
    units s m e = units t n f ↔ m = n ∧ e = f ∧ (s = t ∨ m = 0) := by
  constructor
  · intro h
    have habs : m * 2 ^ (e + 1074).toNat = n * 2 ^ (f + 1074).toNat := by
      have := congrArg Int.natAbs h
      simpa only [units, Int.natAbs_mul, natAbs_signedMantissa, Int.natAbs_natCast] using this
    have hexp : e = f :=
      Int.le_antisymm (exponent_le_of_units hm hn habs) (exponent_le_of_units hn hm habs.symm)
    subst hexp
    obtain ⟨rfl, hs⟩ :=
      signedMantissa_inj.mp (Int.eq_of_mul_eq_mul_right (twoPow_ne_zero _) h)
    exact ⟨rfl, rfl, hs⟩
  · rintro ⟨rfl, rfl, hs⟩
    rw [units, units, signedMantissa_inj.mpr ⟨rfl, hs⟩]

theorem equals_iff {x y : Double} (hx : x.isNumber = true) (hy : y.isNumber = true) :
    x.equals y = true ↔ x.amount? = y.amount? := by
  cases x with
  | nan c => simp [isNumber] at hx
  | infinite s => cases y <;> simp [equals, amount?]
  | finite s m e =>
    cases y with
    | finite t n f =>
      simp only [equals, amount?, Option.some.injEq, Amount.finite.injEq,
        units_inj (kept_of_isNumber hx) (kept_of_isNumber hy), Bool.and_eq_true, Bool.or_eq_true,
        beq_iff_eq, and_assoc]
    | _ => simp [equals, amount?]

/-- Below one, a power of two divides the units of one. -/
theorem unitsPerOne_eq (hleast : -1074 ≤ e) (hneg : e < 0) :
    unitsPerOne = 2 ^ (-e).toNat * 2 ^ (e + 1074).toNat := by
  rw [unitsPerOne, ← Nat.pow_add]
  congr 1
  omega

theorem units_of_nonneg (h : 0 ≤ e) :
    units s m e = signedMantissa s m * (2 ^ e.toNat : Nat) * unitsPerOne := by
  have hpow : 2 ^ (e + 1074).toNat = 2 ^ e.toNat * unitsPerOne := by
    have hsum : (e + 1074).toNat = e.toNat + 1074 := by omega
    rw [hsum]
    exact Nat.pow_add 2 e.toNat 1074
  rw [units, hpow, Int.natCast_mul, Int.mul_assoc]

theorem unitsPerOne_ne_zero : (unitsPerOne : Int) ≠ 0 := by
  rw [unitsPerOne]
  -- the power is never computed
  generalize 1074 = k
  exact twoPow_ne_zero k

theorem whole_inj {i j : Int} : Amount.whole i = Amount.whole j ↔ i = j := by
  rw [Amount.whole, Amount.whole, Amount.finite.injEq]
  exact Int.mul_eq_mul_right_iff unitsPerOne_ne_zero

theorem equalsInt_iff {x : Double} (hx : x.isNumber = true) (i : Int) :
    x.equalsInt i = true ↔ x.amount? = some (.whole i) := by
  cases x with
  | nan c => simp [isNumber] at hx
  | infinite s => exact ⟨nofun, nofun⟩
  | finite s m e =>
    simp only [equalsInt, toFraction, amount?, Amount.whole, Option.some.injEq, Amount.finite.injEq]
    by_cases he : 0 ≤ e
    · rw [if_pos he, units_of_nonneg he]
      simp only [beq_iff_eq, Int.natCast_one, Int.mul_one]
      exact (Int.mul_eq_mul_right_iff unitsPerOne_ne_zero).symm
    · rw [if_neg he, units, unitsPerOne_eq (kept_of_isNumber hx).least (by omega),
        Int.natCast_mul, ← Int.mul_assoc]
      simp only [beq_iff_eq]
      exact (Int.mul_eq_mul_right_iff (twoPow_ne_zero _)).symm

end Double
end SchemaModel
