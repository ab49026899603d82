/-!
Double-precision numbers as exact mathematics: a finite number is a signed mantissa times a power of
two, and every operation is the exact result rounded once, to the nearest number, ties to the even
mantissa.
-/
namespace SchemaModel

/-- A double-precision number. Finite numbers are kept in the one form that `ofRatio` gives: the
mantissa is below `2 ^ 53`, and at least `2 ^ 52` unless the exponent is the least, `-1074`.
Not-a-numbers are unequal to everything; the one that a document names by its own constant is still
the same element as itself. -/
inductive Double
  | nan (constant : Bool)
  | infinite (negative : Bool)
  | finite (negative : Bool) (mantissa : Nat) (exponent : Int)
  deriving DecidableEq, Repr, Inhabited

namespace Double

def zero (negative : Bool) : Double := .finite negative 0 (-1074)

/-- The numerator and denominator of `num / den / 2 ^ e`. -/
def scaled (num den : Nat) (e : Int) : Nat × Nat :=
  if 0 ≤ e then (num, den * Nat.pow 2 e.toNat) else (num * Nat.pow 2 (-e).toNat, den)

/-- The integer nearest to `num / den`, ties to the even one. -/
def nearest (num den : Nat) : Nat :=
  let q := num / den
  let r := num % den
  if den < 2 * r ∨ (2 * r = den ∧ q % 2 = 1) then q + 1 else q

/-- The exponent at which `num / den` has a mantissa of 53 bits, or the least exponent. -/
def exponentFor (num den : Nat) : Int :=
  let low := max ((num.log2 : Int) - den.log2 - 53) (-1074)
  let (n, d) := scaled num den low
  if n / d < Nat.pow 2 53 then low else low + 1

/-- The number nearest to `num / den`, with the given sign. -/
def ofRatio (negative : Bool) (num den : Nat) : Double :=
  if num = 0 then zero negative
  else
    let e := exponentFor num den
    let (n, d) := scaled num den e
    let m := nearest n d
    let (m, e) := if m = Nat.pow 2 53 then (Nat.pow 2 52, e + 1) else (m, e)
    if 971 < e then .infinite negative else .finite negative m e

/-- The number nearest to `digits * 10 ^ exponent`. Exponents far out of range are settled by the
count of digits, so that no huge power is computed. -/
def ofDecimal (negative : Bool) (digits : Nat) (exponent : Int) : Double :=
  if digits = 0 then zero negative
  else
    let magnitude := ((Nat.toDigits 10 digits).length : Int) + exponent
    if 400 < magnitude then .infinite negative
    else if magnitude < -400 then zero negative
    else if 0 ≤ exponent then ofRatio negative (digits * Nat.pow 10 exponent.toNat) 1
    else ofRatio negative digits (Nat.pow 10 (-exponent).toNat)

def isFinite : Double → Bool
  | .finite .. => true
  | _ => false

def isZero : Double → Bool
  | .finite _ m _ => m == 0
  | _ => false

/-- The number nearest to an integer, unless it is beyond the largest finite one. -/
def ofInt? (i : Int) : Option Double :=
  let x := ofRatio (i < 0) i.natAbs 1
  if x.isFinite then some x else none

def neg : Double → Double
  | .nan c => .nan c
  | .infinite s => .infinite !s
  | .finite s m e => .finite (!s) m e

/-- Mantissa with its sign. -/
def signedMantissa (negative : Bool) (m : Nat) : Int := if negative then -(m : Int) else m

/-- The exact value of a finite number as a fraction. -/
def toFraction (negative : Bool) (m : Nat) (e : Int) : Int × Nat :=
  if 0 ≤ e then (signedMantissa negative m * Nat.pow 2 e.toNat, 1)
  else (signedMantissa negative m, Nat.pow 2 (-e).toNat)

/-- The integer part, fraction cut off. -/
def truncate : Double → Int
  | .finite s m e =>
    let (n, d) := toFraction s m e
    Int.tdiv n d
  | _ => 0

/-- The number nearest to `value * 2 ^ e`; a zero result takes the sign `negativeZero`. -/
def ofScaledInt (value : Int) (e : Int) (negativeZero : Bool) : Double :=
  if value = 0 then zero negativeZero
  else if 0 ≤ e then ofRatio (value < 0) (value.natAbs * Nat.pow 2 e.toNat) 1
  else ofRatio (value < 0) value.natAbs (Nat.pow 2 (-e).toNat)

def add : Double → Double → Double
  | .finite s m e, .finite t n f =>
    let g := min e f
    let sum := signedMantissa s m * Nat.pow 2 (e - g).toNat +
      signedMantissa t n * Nat.pow 2 (f - g).toNat
    ofScaledInt sum g (s && t)
  | .infinite s, .infinite t => if s = t then .infinite s else .nan false
  | .infinite s, .finite .. => .infinite s
  | .finite .., .infinite t => .infinite t
  | .nan c, _ => .nan c
  | _, .nan c => .nan c

def mul : Double → Double → Double
  | .finite s m e, .finite t n f =>
    ofScaledInt (signedMantissa s m * signedMantissa t n) (e + f) (s != t)
  | .infinite s, .infinite t => .infinite (s != t)
  | .infinite s, .finite t n _ => if n = 0 then .nan false else .infinite (s != t)
  | .finite s m _, .infinite t => if m = 0 then .nan false else .infinite (s != t)
  | .nan c, _ => .nan c
  | _, .nan c => .nan c

/-- Equality of values: the two zeros are equal, and no not-a-number is equal to anything. -/
def equals : Double → Double → Bool
  | .finite s m e, .finite t n f => m == n && e == f && (s == t || m == 0)
  | .infinite s, .infinite t => s == t
  | _, _ => false

/-- Whether the value is exactly the integer `i`. -/
def equalsInt : Double → Int → Bool
  | .finite s m e, i =>
    let (n, d) := toFraction s m e
    n == i * d
  | _, _ => false

/-- Whether the first value is less than the second. -/
def less : Double → Double → Bool
  | .finite s m e, .finite t n f =>
    let (a, b) := toFraction s m e
    let (c, d) := toFraction t n f
    a * d < c * b
  | .infinite s, .infinite t => s && !t
  | .infinite s, .finite .. => s
  | .finite .., .infinite t => !t
  | _, _ => false

theorem equals_comm (x y : Double) : x.equals y = y.equals x := by
  cases x <;> cases y <;> simp only [equals]
  · exact Bool.beq_comm
  · rename_i s m e t n f
    rw [Bool.eq_iff_iff]
    simp only [Bool.and_eq_true, Bool.or_eq_true, beq_iff_eq]
    constructor <;> rintro ⟨⟨rfl, rfl⟩, h⟩ <;> exact ⟨⟨rfl, rfl⟩, h.imp Eq.symm id⟩

end Double
end SchemaModel
