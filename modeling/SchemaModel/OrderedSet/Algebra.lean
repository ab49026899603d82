import SchemaModel.OrderedSet.Basic

/-!
Union, intersection, difference and comparison of ordered sets, and the forms that change a set in
place. The operators build new sets from any operand that has elements; comparing asks for a set. A
set without order is an operand as it is: whatever is looked up in it must be a key.
-/
namespace SchemaModel

/-- The elements that a value offers one by one: a text offers its characters and a mapping its
keys. -/
def Value.elements? : Value → Option (List Value)
  | .list xs | .tuple xs | .set xs | .unordered xs | .frozen xs => some xs
  | .text s => some (s.toList.map fun c => .text c.toString)
  | .bytes bs => some (bs.map fun b => .int b.toNat)
  | .mapping es => some (es.map (·.1))
  | .marked _ v => v.elements?
  | _ => none

namespace OrderedSet

/-! ## Operands -/

/-- The set on the other side of an operator. -/
inductive Operand
  | ordered (t : OrderedSet)
  /-- A set without order. -/
  | plain (items : List Value)
  deriving Repr

namespace Operand

def elements : Operand → List Value
  | .ordered t => t.order
  | .plain items => items

def size (t : Operand) : Nat := t.elements.length

def contains? (t : Operand) (x : Value) : Except SetError Bool :=
  match t with
  | .ordered t => t.contains? x
  | .plain items => if x.isSought then .ok (x.isAmong items) else .error .lookup

/-- The set that a value is. -/
def ofSet? : Value → Option Operand
  | .set ys => some (.ordered (ofList ys))
  | .unordered ys | .frozen ys => some (.plain ys)
  | .marked _ v => ofSet? v
  | _ => none

end Operand

/-- The elements of an operand. -/
def elements (y : Value) : Except SetError (List Value) :=
  match y.elements? with
  | some ys => .ok ys
  | none => .error .operand

/-- The set that an operand is or, if it is none, the set of its elements. -/
def operand (y : Value) : Except SetError Operand :=
  match Operand.ofSet? y with
  | some t => .ok t
  | none => do return .ordered (← ofList? (← elements y))

/-- The elements that pass a test, in their order. -/
def choose (p : Value → Except SetError Bool) : List Value → Except SetError (List Value)
  | [] => .ok []
  | x :: xs => do
    let passes ← p x
    let rest ← choose p xs
    return if passes then x :: rest else rest

/-- Whether all elements pass a test. The first one that does not is the last one that is asked. -/
def allPass (p : Value → Except SetError Bool) : List Value → Except SetError Bool
  | [] => .ok true
  | x :: xs => do if ← p x then allPass p xs else return false

/-! ## New sets -/

def union (s : OrderedSet) (y : Value) : Except SetError OrderedSet := do
  ofList? (s.order ++ (← elements y))

/-- The common elements, taken from the operand and in its order. -/
def inter (s : OrderedSet) (y : Value) : Except SetError OrderedSet := do
  ofList? (← choose s.contains? (← elements y))

/-- The elements of one set that another does not hold. -/
def without (s : OrderedSet) (t : Operand) : Except SetError OrderedSet := do
  ofList? (← choose (fun x => (t.contains? x).map not) s.order)

def diff (s : OrderedSet) (y : Value) : Except SetError OrderedSet := do s.without (← operand y)

def symmDiff (s : OrderedSet) (y : Value) : Except SetError OrderedSet := do
  let t ← operand y
  let left ← s.without t
  let right ← ofList? (← choose (fun x => (s.contains? x).map not) t.elements)
  ofList? (left.order ++ right.order)

/-! ## Comparison -/

/-- The set that a value is, for comparing. -/
def comparand (y : Value) : Except SetError Operand :=
  match Operand.ofSet? y with
  | some t => .ok t
  | none => .error .operand

/-- Whether the elements of a set are among those of an operand. -/
def subset (s : OrderedSet) (t : Operand) : Except SetError Bool :=
  if t.size < s.size then .ok false else allPass t.contains? s.order

def superset (s : OrderedSet) (t : Operand) : Except SetError Bool :=
  if s.size < t.size then .ok false else allPass s.contains? t.elements

def le (s : OrderedSet) (y : Value) : Except SetError Bool := do s.subset (← comparand y)

def lt (s : OrderedSet) (y : Value) : Except SetError Bool := do
  let t ← comparand y
  if s.size < t.size then s.subset t else return false

def ge (s : OrderedSet) (y : Value) : Except SetError Bool := do s.superset (← comparand y)

def gt (s : OrderedSet) (y : Value) : Except SetError Bool := do
  let t ← comparand y
  if t.size < s.size then s.superset t else return false

/-- Whether a value is a set with the same elements. -/
def equals (s : OrderedSet) (y : Value) : Except SetError Bool :=
  match Operand.ofSet? y with
  | some t => if s.size = t.size then s.subset t else .ok false
  | none => .ok false

def isDisjoint (s : OrderedSet) (y : Value) : Except SetError Bool := do
  allPass (fun x => (s.contains? x).map not) (← elements y)

/-! ## Changes in place -/

def unionInPlace (s : OrderedSet) (y : Value) : Except SetError OrderedSet := do
  s.addAll? (← elements y)

/-- Gives up what the difference leaves, so that the rest keeps the order of the set. -/
def interInPlace (s : OrderedSet) (y : Value) : Except SetError OrderedSet := do
  (← s.diff y).order.foldlM giveUp? s

def diffInPlace (s : OrderedSet) (y : Value) : Except SetError OrderedSet := do
  (← elements y).foldlM discard? s

/-- Takes out an element that is there and adds one that is not. -/
def toggle (s : OrderedSet) (x : Value) : OrderedSet :=
  if s.contains x then s.discard x else s.add x

def toggle? (s : OrderedSet) (x : Value) : Except SetError OrderedSet := do
  if ← s.contains? x then s.discard? x else s.add? x

/-- Toggles the elements of the operand; null, from which a set is built as from no elements, leaves
the set as it is. -/
def symmDiffInPlace (s : OrderedSet) (y : Value) : Except SetError OrderedSet :=
  match y with
  | .null => .ok s
  | y => do (← operand y).elements.foldlM toggle? s

end OrderedSet
end SchemaModel
