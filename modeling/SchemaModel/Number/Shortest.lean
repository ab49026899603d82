import SchemaModel.Number.Double

/-!
The decimal text of a double-precision number: the fewest digits that lie closer to it than to any
other number, and of those the nearest, laid out positionally or with an exponent.
-/
namespace SchemaModel

/-- Significant digits, most significant first, with the place of the decimal point: the value is
`0.d₁d₂… * 10 ^ point`. -/
structure Decimal where
  digits : Nat
  count : Nat
  point : Int
  deriving DecidableEq, Repr

namespace Decimal

/-- Numerators that put `c * 10 ^ k` and multiples of `2 ^ (e - 2)` over one denominator: the first
belongs to `c`, the second to the multiple. -/
def commonScale (k e : Int) : Nat × Nat :=
  (Nat.pow 10 k.toNat * Nat.pow 2 (2 - e).toNat, Nat.pow 10 (-k).toNat * Nat.pow 2 (e - 2).toNat)

/-- Whether `10 ^ p ≤ m * 2 ^ e`. -/
def powerAtMost (p : Int) (m : Nat) (e : Int) : Bool :=
  let (a, b) := commonScale p e
  a ≤ 4 * m * b

/-- The place of the decimal point of `m * 2 ^ e`: the least `p` with `m * 2 ^ e < 10 ^ p`. The
estimate from the binary logarithm is off by at most one. -/
def pointOf (m : Nat) (e : Int) : Int :=
  let guess := Int.fdiv ((e + m.log2) * 30103) 100000
  if powerAtMost (guess + 1) m e then guess + 2
  else if powerAtMost guess m e then guess + 1
  else guess

/-- Whether `c * 10 ^ k` reads back as `m * 2 ^ e`. Distances are counted in quarters of the last
binary place; just above a power of two the lower neighbour is half as far away. An end of the
interval reads back exactly when the mantissa is even. -/
def readsBack (m : Nat) (e : Int) (c : Nat) (k : Int) : Bool :=
  let (a, b) := commonScale k e
  let low := if m = Nat.pow 2 52 ∧ -1074 < e then 4 * m - 1 else 4 * m - 2
  let high := 4 * m + 2
  if m % 2 = 0 then low * b ≤ c * a && c * a ≤ high * b
  else low * b < c * a && c * a < high * b

/-- The decimals of `n` digits next to `m * 2 ^ e` that read back, the nearer one if both do. -/
def candidate? (m : Nat) (e : Int) (n : Nat) : Option Decimal :=
  let point := pointOf m e
  let k := point - n
  let (a, b) := commonScale k e
  let below := 4 * m * b / a
  let above := below + 1
  let settle (c : Nat) : Decimal :=
    if c = Nat.pow 10 n then ⟨1, 1, point + 1⟩ else ⟨c, n, point⟩
  match readsBack m e below k, readsBack m e above k with
  | false, false => none
  | true, false => some (settle below)
  | false, true => some (settle above)
  | true, true =>
    let r := 4 * m * b - below * a
    if 2 * r < a ∨ (2 * r = a ∧ below % 2 = 0) then some (settle below) else some (settle above)

/-- The shortest decimal that reads back as `m * 2 ^ e`; seventeen digits always suffice. -/
def shortest (m : Nat) (e : Int) : Decimal :=
  ((List.range 17).findSome? fun n => candidate? m e (n + 1)).getD ⟨0, 1, 1⟩

/-- The digits without trailing zeros, one digit at least. -/
def digitChars (d : Decimal) : List Char :=
  let ds := Nat.toDigits 10 d.digits
  match (ds.reverse.dropWhile (· == '0')).reverse with
  | [] => ['0']
  | cs => cs

end Decimal

/-- Decisions on how the digits of a number are laid out. -/
structure NumberLayout where
  /-- Exponents from this one on are written with an exponent. -/
  largeExponent : Int
  /-- Exponents below this one are written with an exponent. -/
  smallExponent : Int
  /-- Least number of digits of a written exponent. -/
  exponentWidth : Nat
  infinity : String
  notANumber : String

/-- Numbers from `1e-4` up to `1e16` are positional, with at least one decimal; other exponents
have a sign and two digits. -/
def NumberLayout.standard : NumberLayout :=
  { largeExponent := 16, smallExponent := -4, exponentWidth := 2, infinity := "inf",
    notANumber := "nan" }

/-- Positional notation of `0.cs * 10 ^ point`. -/
def positional (cs : List Char) (point : Int) : List Char :=
  if point ≤ 0 then '0' :: '.' :: List.replicate (-point).toNat '0' ++ cs
  else
    let p := point.toNat
    if cs.length ≤ p then cs ++ List.replicate (p - cs.length) '0' ++ ['.', '0']
    else cs.take p ++ '.' :: cs.drop p

/-- Notation of `0.cs * 10 ^ point` with an exponent of at least `width` digits. -/
def withExponent (width : Nat) (cs : List Char) (point : Int) : List Char :=
  let lead := match cs with
    | [] => []
    | [c] => [c]
    | c :: rest => c :: '.' :: rest
  let x := point - 1
  let ds := Nat.toDigits 10 x.natAbs
  lead ++ 'e' :: (if x < 0 then '-' else '+') :: List.replicate (width - ds.length) '0' ++ ds

/-- The text of a number in a given layout. -/
def Double.textIn (l : NumberLayout) : Double → String
  | .nan _ => l.notANumber
  | .infinite s => if s then "-" ++ l.infinity else l.infinity
  | .finite s m e =>
    let body :=
      if m = 0 then ['0', '.', '0']
      else
        let d := Decimal.shortest m e
        if d.point - 1 < l.smallExponent ∨ l.largeExponent ≤ d.point - 1 then
          withExponent l.exponentWidth d.digitChars d.point
        else positional d.digitChars d.point
    String.ofList (if s then '-' :: body else body)

/-- The text of a number: the shortest that reads back. -/
def Double.text (x : Double) : String := x.textIn .standard

end SchemaModel
