import SchemaModel.Naming.Names

/-!
The names claimed inside one generated type. They are never changed to avoid a clash: two sources
of one name are an error.
-/
namespace SchemaModel.Naming

/-- Two different sources of one name. -/
structure Collision where
  name : String
  first : String
  second : String
  scope : String
  deriving DecidableEq, Repr

def Collision.message (c : Collision) : String :=
  "'" ++ c.first ++ "' and '" ++ c.second ++ "' both generate the name '" ++ c.name ++ "' in "
    ++ c.scope

/-- Field names with the text that claimed each. -/
structure FieldTable where
  scope : String
  sources : List (String × String)
  deriving Repr

namespace FieldTable

def empty (scope : String) : FieldTable := ⟨scope, []⟩

def source? (t : FieldTable) (name : String) : Option String := t.sources.lookup name

/-- Claims the field name of a text. -/
def claim (t : FieldTable) (source : String) : Except Collision (String × FieldTable) :=
  let name := fieldName source
  match t.source? name with
  | none => .ok (name, { t with sources := t.sources ++ [(name, source)] })
  | some previous =>
    if previous = source then .ok (name, t)
    else .error { name, first := previous, second := source, scope := t.scope }

end FieldTable
end SchemaModel.Naming
