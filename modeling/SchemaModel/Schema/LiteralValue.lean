import SchemaModel.Literal
import SchemaModel.Value.Equality

/-!
Literals and the raw values of documents. A raw value becomes a literal by its kind alone; a literal
becomes a raw value by forgetting its flavour.
-/
namespace SchemaModel

/-- Why a raw value declares no literal. -/
inductive LiteralFault
  /-- It is of a kind that no literal can hold. -/
  | kind (name : String)
  /-- It contains itself. -/
  | endless
  /-- It has a key with an integer that cannot be written. -/
  | digits
  deriving DecidableEq, Repr

namespace Literal

mutual

/-- The literal that a raw value declares. Dates become texts in the standard form. -/
def ofValue : Value → Except LiteralFault Literal
  | .null => .ok .null
  | .bool b => .ok (.bool b)
  | .int i => .ok (.int i)
  | .double x => .ok (.decimal x)
  | .text s => .ok (.text s)
  | .date d => .ok (.text d.iso)
  | .moment m => .ok (.text m.iso)
  | .list xs | .tuple xs => (ofValues xs).map .sequence
  | .mapping es => (ofEntries es).map .object
  | .bytes bs => .error (.kind (Value.bytes bs).kindName)
  | .member m => .error (.kind (Value.member m).kindName)
  | .set xs => .error (.kind (Value.set xs).kindName)
  | .unordered xs => .error (.kind (Value.unordered xs).kindName)
  | .frozen xs => .error (.kind (Value.frozen xs).kindName)
  | .marked _ v => ofValue v
  | .again .. => .error .endless

def ofValues : List Value → Except LiteralFault (List Literal)
  | [] => .ok []
  | x :: xs => do return (← ofValue x) :: (← ofValues xs)

/-- Fields are named by the plain text of their key. -/
def ofEntries : List (Value × Value) → Except LiteralFault (List (String × Literal))
  | [] => .ok []
  | (k, v) :: es =>
    match k.display? with
    | some name => do return (name, ← ofValue v) :: (← ofEntries es)
    | none => .error .digits

end

/-- A sequence where elements are to be unique is flavoured so; its items are not. -/
def flavoured (unique : Bool) : Literal → Literal
  | .sequence items => if unique then .uniqueSequence items else .sequence items
  | l => l

/-- Sets a field of a raw mapping. -/
def putField (name : String) (v : Value) (es : List (Value × Value)) : List (Value × Value) :=
  Value.putEntry (.text name) v es

mutual

/-- The raw value of a literal. Of several fields of one name the last one counts, in the place of
the first. -/
def toValue : Literal → Value
  | .null => .null
  | .bool b => .bool b
  | .int i => .int i
  | .decimal x => .double x
  | .text s => .text s
  | .sequence items | .uniqueSequence items => .list (toValues items)
  | .object fields => .mapping (toEntries fields [])

def toValues : List Literal → List Value
  | [] => []
  | l :: ls => l.toValue :: toValues ls

/-- Sets the fields one after the other in a raw mapping. -/
def toEntries : List (String × Literal) → List (Value × Value) → List (Value × Value)
  | [], es => es
  | (name, l) :: fs, es => toEntries fs (putField name l.toValue es)

end

/-- The raw value of a literal that may be missing. -/
def toValueOf : Option Literal → Value
  | none => .null
  | some l => l.toValue

end Literal
end SchemaModel
