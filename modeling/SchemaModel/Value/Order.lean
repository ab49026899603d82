import SchemaModel.Value.Equality

/-!
Order of values. Only values of one family can be compared: numbers, texts, octets, dates, moments
with a known clock, moments without. Tuples are compared by the first place in which they differ.
-/
namespace SchemaModel.Value

/-- Whether the first list comes before the second in lexicographic order. -/
def octetsBefore : List UInt8 → List UInt8 → Bool
  | [], ys => !ys.isEmpty
  | _ :: _, [] => false
  | x :: xs, y :: ys => x < y || (x == y && octetsBefore xs ys)

/-- A number as a double or an exact integer. -/
def asInt? : Value → Option Int
  | .bool b => some b.toNat
  | .int i => some i
  | _ => none

/-- Whether a double is less than an integer. -/
def doubleBelowInt : Double → Int → Bool
  | .finite s m e, i =>
    let (n, d) := Double.toFraction s m e
    n < i * d
  | .infinite s, _ => s
  | .nan _, _ => false

/-- Whether an integer is less than a double. -/
def intBelowDouble (i : Int) : Double → Bool
  | .finite s m e =>
    let (n, d) := Double.toFraction s m e
    i * d < n
  | .infinite s => !s
  | .nan _ => false

mutual

/-- Whether the first value comes before the second, if they can be compared. -/
def before? : Value → Value → Option Bool
  | .text s, .text t => some (s < t)
  | .bytes a, .bytes b => some (octetsBefore a b)
  | .date a, .date b => some (a.dayNumber < b.dayNumber)
  | .moment a, .moment b =>
    if a.offset.isSome = b.offset.isSome then some (a.instant < b.instant) else none
  | .tuple xs, .tuple ys => tupleBefore? xs ys
  | .double a, .double b => some (a.less b)
  | .double a, y => y.asInt?.map (doubleBelowInt a)
  | x, .double b => x.asInt?.map (intBelowDouble · b)
  | x, y =>
    match x.asInt?, y.asInt? with
    | some i, some j => some (i < j)
    | _, _ => none

/-- Whether the first tuple comes before the second; a tuple comes before those that go on where it
ends. -/
def tupleBefore? : List Value → List Value → Option Bool
  | [], ys => some !ys.isEmpty
  | _ :: _, [] => some false
  | x :: xs, y :: ys => if x.same y then tupleBefore? xs ys else before? x y

end

/-- The values in ascending order, if every two of them can be compared. -/
def sorted? (xs : List Value) : Option (List Value) :=
  if xs.all fun x => xs.all fun y => x.same y || (x.before? y).isSome then
    some (xs.mergeSort fun x y => !(y.before? x).getD false)
  else none

end SchemaModel.Value
