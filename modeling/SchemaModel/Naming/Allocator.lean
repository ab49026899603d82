/-!
Unique names. An allocator remembers who owns each name that it has given out. An owner that asks
again for the same base gets the same name; another owner gets the base with a number after it.
-/
namespace SchemaModel.Naming

/-- The names that are taken, each with its owner. -/
structure Allocator (Owner : Type) where
  owners : List (String × Owner)
  deriving Repr

namespace Allocator

variable {Owner : Type}

def empty : Allocator Owner := ⟨[]⟩

def owner? (a : Allocator Owner) (name : String) : Option Owner := a.owners.lookup name

def isTaken (a : Allocator Owner) (name : String) : Bool := (a.owner? name).isSome

/-- The candidates for a base: the base itself, then the base with the numbers from 2 on. -/
def candidate (base : String) : Nat → String
  | 0 => base
  | k + 1 => base ++ toString (k + 2)

/-- Whether an owner may have a name: nobody else owns it. -/
def isFree [DecidableEq Owner] (a : Allocator Owner) (who : Owner) (name : String) : Bool :=
  match a.owner? name with
  | none => true
  | some o => o = who

/-- The place of the first candidate from `k` on that an owner may have, among the next `count`. -/
def firstFree [DecidableEq Owner] (a : Allocator Owner) (who : Owner) (base : String) :
    Nat → Nat → Nat
  | 0, k => k
  | count + 1, k =>
    if a.isFree who (candidate base k) then k else firstFree a who base count (k + 1)

/-- Gives an owner a name made from `base`. One more candidate than there are names taken is
enough. -/
def allocate [DecidableEq Owner] (a : Allocator Owner) (base : String) (who : Owner) :
    String × Allocator Owner :=
  let name := candidate base (firstFree a who base a.owners.length 0)
  (name, if a.isTaken name then a else ⟨a.owners ++ [(name, who)]⟩)

end Allocator
end SchemaModel.Naming
