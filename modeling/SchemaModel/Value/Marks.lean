import SchemaModel.Value.Basic

/-!
Marks of objects: how an object gets one, how all are taken off, and how mentions of objects are
replaced.
-/
namespace SchemaModel.Value

/-! ## Giving marks -/

mutual

/-- Gives every list and mapping a mark of its own, from `next` on, and says which mark comes next.
Keys keep what they have. -/
def mark (next : Nat) : Value → Value × Nat
  | .list xs =>
    let (ys, after) := markAll (next + 1) xs
    (.marked next (.list ys), after)
  | .mapping es =>
    let (fs, after) := markEntries (next + 1) es
    (.marked next (.mapping fs), after)
  | v => (v, next)

def markAll (next : Nat) : List Value → List Value × Nat
  | [] => ([], next)
  | x :: xs =>
    let (y, after) := mark next x
    let (ys, after) := markAll after xs
    (y :: ys, after)

def markEntries (next : Nat) : List (Value × Value) → List (Value × Value) × Nat
  | [] => ([], next)
  | (k, v) :: es =>
    let (w, after) := mark next v
    let (fs, after) := markEntries after es
    ((k, w) :: fs, after)

end

/-! ## Taking marks off -/

/-- The value under a mark. -/
def bare : Value → Value
  | .marked _ v => v
  | v => v

mutual

/-- The value without any marks, but for those of objects inside themselves. -/
def unmarked : Value → Value
  | .list xs => .list (unmarkedAll xs)
  | .tuple xs => .tuple (unmarkedAll xs)
  | .set xs => .set (unmarkedAll xs)
  | .unordered xs => .unordered (unmarkedAll xs)
  | .frozen xs => .frozen (unmarkedAll xs)
  | .mapping es => .mapping (unmarkedEntries es)
  | .marked _ v => v.unmarked
  | v => v

def unmarkedAll : List Value → List Value
  | [] => []
  | x :: xs => x.unmarked :: unmarkedAll xs

def unmarkedEntries : List (Value × Value) → List (Value × Value)
  | [] => []
  | (k, v) :: es => (k.unmarked, v.unmarked) :: unmarkedEntries es

end

/-! ## Mentions -/

mutual

/-- Puts what `give` gives in the place of every mention of an object. -/
def replaceMentions (give : Nat → Bool → Value) : Value → Value
  | .list xs => .list (replaceAll give xs)
  | .tuple xs => .tuple (replaceAll give xs)
  | .set xs => .set (replaceAll give xs)
  | .unordered xs => .unordered (replaceAll give xs)
  | .frozen xs => .frozen (replaceAll give xs)
  | .mapping es => .mapping (replaceEntries give es)
  | .marked m v => .marked m (replaceMentions give v)
  | .again m isMapping => give m isMapping
  | v => v

def replaceAll (give : Nat → Bool → Value) : List Value → List Value
  | [] => []
  | x :: xs => replaceMentions give x :: replaceAll give xs

def replaceEntries (give : Nat → Bool → Value) : List (Value × Value) → List (Value × Value)
  | [] => []
  | (k, v) :: es => (replaceMentions give k, replaceMentions give v) :: replaceEntries give es

end

mutual

/-- Whether no object contains itself, so that the value can be written out in full. -/
def isFinite : Value → Bool
  | .list xs | .tuple xs | .set xs | .unordered xs | .frozen xs => allFinite xs
  | .mapping es => allEntriesFinite es
  | .marked _ v => v.isFinite
  | .again .. => false
  | _ => true

def allFinite : List Value → Bool
  | [] => true
  | x :: xs => x.isFinite && allFinite xs

def allEntriesFinite : List (Value × Value) → Bool
  | [] => true
  | (k, v) :: es => k.isFinite && v.isFinite && allEntriesFinite es

end

end SchemaModel.Value
