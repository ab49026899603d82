import SchemaModel.Value.Basic

/-!
The order in which a set that keeps none gives its elements. Such a set is a table of places: an
element goes to the place that its hash names or, if that is taken, to a free place that follows
from it, and the elements come out in the order of their places. Numbers that are equal have one
hash, and so have moments of one instant. The hashes of other values are not fixed.
-/
namespace SchemaModel

/-- The hash of a fraction `m * 2 ^ e` with its sign: its residue by the prime `2 ^ 61 - 1`, by
which `2 ^ 61` leaves one. The hash `-1` is not in use. -/
def fractionHash (negative : Bool) (m : Nat) (e : Int) : Int :=
  let residue : Int := m * Nat.pow 2 (e % 61).toNat % (Nat.pow 2 61 - 1)
  match negative, residue with
  | false, h => h
  | true, 1 => -2
  | true, h => -h

/-- The hash of a number. -/
def Double.hash? : Double → Option Int
  | .nan _ => none
  | .infinite negative => some (if negative then -314159 else 314159)
  | .finite negative m e => some (fractionHash negative m e)

/-- Mixes one more word into a hash of several. -/
def mixWord (sum word : UInt64) : UInt64 :=
  let sum := sum + word * 14029467366897019727
  (sum <<< 31 ||| sum >>> 33) * 11400714785074694791

/-- The hash of a sequence of small numbers. -/
def wordsHash (words : List UInt64) : Nat :=
  let start : UInt64 := 2870177450012600261
  let sum := words.foldl mixWord start + (UInt64.ofNat words.length ^^^ (start ^^^ 3527539))
  if sum = 0xffffffffffffffff then 1546275796 else sum.toNat

/-- The hash of a moment whose clock is known: that of the days, seconds and microseconds from the
start of the calendar, whose first day has number 1, to its instant. -/
def Moment.hash? (m : Moment) : Option Int :=
  m.offset.map fun _ =>
    let days := m.instant.fdiv Moment.microsPerDay + 1
    let rest := (m.instant.fmod Moment.microsPerDay).toNat
    let day := (fractionHash (days < 0) days.natAbs 0 % Nat.pow 2 64).toNat
    wordsHash ([day, rest / 1000000, rest % 1000000].map UInt64.ofNat)

namespace Value

/-- The hash of a value, if it is fixed. -/
def hash? : Value → Option Int
  | .bool b => some b.toNat
  | .int i => some (fractionHash (i < 0) i.natAbs 0)
  | .double x => x.hash?
  | .moment m => m.hash?
  | .marked _ v => v.hash?
  | _ => none

namespace Placement

/-- The count of places for `n` elements, which is a power of two: eight for up to four elements,
and more than two for each element else. -/
def width (n : Nat) : Nat := if n < 5 then 8 else Nat.pow 2 ((2 * n).log2 + 1)

/-- The places that are tried together from a place on: itself and the nine after it, or itself
alone where there are not as many. -/
def run (width place : Nat) : List Nat :=
  if place + 9 < width then List.range' place 10 else [place]

/-- The first free place on the way that starts at `place` and is led on by what is left of the
hash. After thirteen steps nothing is left, and the way goes around all places. -/
def seat (width : Nat) (isFree : Nat → Bool) : Nat → Nat → Nat → Option Nat
  | 0, _, _ => none
  | fuel + 1, place, rest =>
    match (run width place).find? isFree with
    | some free => some free
    | none => seat width isFree fuel ((place * 5 + 1 + rest / 32) % width) (rest / 32)

/-- Puts a value with its hash, which counts as a word of 64 bits, on its place. -/
def put (width : Nat) (table : List (Nat × Value)) (hash : Int) (v : Value) : List (Nat × Value) :=
  let word := (hash % Nat.pow 2 64).toNat
  match seat width (fun p => (table.lookup p).isNone) (width + 13) (word % width) word with
  | some p => (p, v) :: table
  | none => table

/-- The table of values with their hashes. -/
def table (width : Nat) (entries : List (Int × Value)) : List (Nat × Value) :=
  entries.foldl (fun t e => put width t e.1 e.2) []

end Placement

/-- The set without an order that holds the given different values. They are in the order of their
places if the hash of each is fixed, and else as they are given. -/
def ofDistinct (xs : List Value) : Value :=
  match xs.mapM hash? with
  | none => .unordered xs
  | some hashes =>
    let width := Placement.width xs.length
    let table := Placement.table width (hashes.zip xs)
    .unordered ((List.range width).filterMap fun place => table.lookup place)

end Value
end SchemaModel
