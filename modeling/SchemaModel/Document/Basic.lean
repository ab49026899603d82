import SchemaModel.Value.Marks

/-!
Documents: values whose objects may be shared and may contain themselves. A document is a value
together with a table of the objects that are mentioned in it by their marks. A value in which no
object is mentioned is a document by itself.
-/
namespace SchemaModel

/-- A value, and the object of each mark that it mentions. -/
structure Document where
  value : Value
  objects : Array Value := #[]
  deriving Repr, Inhabited

namespace Document

/-- The document that a value is by itself. Its lists and mappings are objects of their own. -/
def ofValue (v : Value) : Document := { value := (v.mark 0).1 }

/-- What stands at a place of the document: the object, where one is mentioned. -/
def content (d : Document) : Value → Value
  | .marked _ v => v
  | .again m _ => (d.objects[m]?).getD .null
  | v => v

/-- The mark of the object at a place. -/
def mark? : Value → Option Nat
  | .marked m _ | .again m _ => some m
  | _ => none

/-- Puts the objects of the table in the place of their mentions. The objects that are being put in
around a place are in `path`: there are at most as many as the table has, which is what `fuel`
counts. -/
def expand (d : Document) : Nat → List Nat → Value → Value
  | 0, _, v => v
  | fuel + 1, path, v =>
    v.replaceMentions fun m isMapping =>
      match d.objects[m]? with
      | none => .again m isMapping
      | some object =>
        if m ∈ path then .again m isMapping
        else .marked m (d.expand fuel (m :: path) object)

/-- A place of the document as a value that needs no table: an object is mentioned only inside
itself. -/
def closed (d : Document) (v : Value) : Value :=
  if d.objects.isEmpty then v else d.expand (d.objects.size + 1) [] v

/-- The document as a value that needs no table. -/
def toValue (d : Document) : Value := d.closed d.value

mutual

/-- The number of values inside a value, itself included. -/
def count : Value → Nat
  | .list xs | .tuple xs | .set xs | .unordered xs | .frozen xs => countAll xs + 1
  | .mapping es => countEntries es + 1
  | .marked _ v => count v
  | _ => 1

def countAll : List Value → Nat
  | [] => 0
  | x :: xs => count x + countAll xs

def countEntries : List (Value × Value) → Nat
  | [] => 0
  | (k, v) :: es => count k + count v + countEntries es

end

/-- A bound of the number of objects, and of how deep they are nested unless one contains itself. -/
def size (d : Document) : Nat := count d.value + d.objects.size

end Document
end SchemaModel
