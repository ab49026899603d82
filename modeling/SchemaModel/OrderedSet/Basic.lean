import SchemaModel.Value.Equality

/-!
Sets that remember the order in which their elements were added. Beside the order a set keeps two
indexes of its elements: the fixed ones, which may be keys, and the loose ones, which may not. An
element is looked up in the index that it belongs to.

Loose elements are compared one after another, and so are those of the order when one is taken out.
An operation that comes upon a refused comparison is refused. What an operation does otherwise is
said first, and the operation itself after it.
-/
namespace SchemaModel

/-- A set of values in insertion order. -/
structure OrderedSet where
  fixed : List Value
  loose : List Value
  order : List Value
  deriving Repr, Inhabited

/-- Why an operation on a set is refused. -/
inductive SetError
  /-- The operand has no elements, or is no set where one is needed. -/
  | operand
  /-- The element to be removed is absent. -/
  | absent
  /-- A value that is no key is looked up in a set that holds keys only. -/
  | lookup
  /-- Two values refuse to be compared. -/
  | comparison
  /-- The set never becomes empty. -/
  | endless
  deriving DecidableEq, Repr

namespace OrderedSet

def empty : OrderedSet := ⟨[], [], []⟩

instance : EmptyCollection OrderedSet := ⟨empty⟩

def size (s : OrderedSet) : Nat := s.order.length

def contains (s : OrderedSet) (x : Value) : Bool :=
  x.isAmong (if x.isFixed then s.fixed else s.loose)

/-- Adds an element at the end, unless it is there already. -/
def add (s : OrderedSet) (x : Value) : OrderedSet :=
  if s.contains x then s
  else if x.isFixed then { s with fixed := s.fixed ++ [x], order := s.order ++ [x] }
  else { s with loose := s.loose ++ [x], order := s.order ++ [x] }

def addAll (s : OrderedSet) (xs : List Value) : OrderedSet := xs.foldl add s

def ofList (xs : List Value) : OrderedSet := addAll ∅ xs

/-- The list without its first element that is the same as `x`. -/
def dropSame (x : Value) (xs : List Value) : List Value := xs.eraseP fun y => y.same x

/-- Removes an element if it is there. -/
def discard (s : OrderedSet) (x : Value) : OrderedSet :=
  if s.contains x then
    if x.isFixed then { s with fixed := dropSame x s.fixed, order := dropSame x s.order }
    else { s with loose := dropSame x s.loose, order := dropSame x s.order }
  else s

def toValue (s : OrderedSet) : Value := .set s.order

/-! ## Operations that may be refused -/

/-- Whether a value is found. Only among loose elements can a comparison be refused. -/
def contains? (s : OrderedSet) (x : Value) : Except SetError Bool :=
  if !x.isFixed && Value.searchFails (fun y => x.isRefused y) (fun y => x.same y) s.loose then
    .error .comparison
  else .ok (s.contains x)

def add? (s : OrderedSet) (x : Value) : Except SetError OrderedSet :=
  (s.contains? x).map fun _ => s.add x

def addAll? (s : OrderedSet) (xs : List Value) : Except SetError OrderedSet := xs.foldlM add? s

def ofList? (xs : List Value) : Except SetError OrderedSet := addAll? ∅ xs

/-- Discards a value that is compared with the elements in a given way. -/
def discardBy? (like : Value → Value → Bool) (s : OrderedSet) (x : Value) :
    Except SetError OrderedSet :=
  let fails := Value.searchFails (fun y => x.isRefused y) (fun y => like x y)
  let dropFails := Value.searchFails (fun y => y.isRefused x) (fun y => like y x)
  let drop (ys : List Value) := ys.eraseP fun y => like y x
  if x.isFixed then
    if !s.fixed.any (fun y => like x y) then .ok s
    else if dropFails s.order then .error .comparison
    else .ok { s with fixed := drop s.fixed, order := drop s.order }
  else if fails s.loose then .error .comparison
  else if !s.loose.any (fun y => like x y) then .ok s
  else if dropFails s.loose || dropFails s.order then .error .comparison
  else .ok { s with loose := drop s.loose, order := drop s.order }

def discard? (s : OrderedSet) (x : Value) : Except SetError OrderedSet :=
  discardBy? Value.same s x

/-- Discards an element that the set has given out itself. -/
def giveUp? (s : OrderedSet) (x : Value) : Except SetError OrderedSet :=
  discardBy? Value.isLike s x

/-- Removes an element that must be there. -/
def remove? (s : OrderedSet) (x : Value) : Except SetError OrderedSet := do
  if ← s.contains? x then s.discard? x else .error .absent

/-- Takes out the oldest element. -/
def pop? (s : OrderedSet) : Except SetError (Value × OrderedSet) :=
  match s.order with
  | [] => .error .absent
  | x :: _ => (s.giveUp? x).map fun t => (x, t)

/-- Takes out elements until there is none. An element that is not found stays, and then the end
never comes. -/
def clear? (s : OrderedSet) : Except SetError OrderedSet :=
  match s.pop? with
  | .error .absent => .ok s
  | .error e => .error e
  | .ok (_, t) => if t.size < s.size then clear? t else .error .endless
termination_by s.size

end OrderedSet
end SchemaModel
