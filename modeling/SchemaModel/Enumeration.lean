import SchemaModel.Literal
import SchemaModel.Naming.FieldTable
import SchemaModel.TargetType

/-!
From the declared choices of an enumerated type to its members. A choice declared twice gives one
member; two choices with one member name are an error, and so is an integer that cannot be written.
-/
namespace SchemaModel.Enumeration

/-- Why declared choices give no enumerated type. -/
inductive Error
  | collision (c : Naming.Collision)
  /-- A choice is an integer with too many digits. -/
  | digits
  deriving DecidableEq, Repr

/-- The texts of the declared choices. Null and composite literals name no member. -/
def texts (literals : List Literal) : List String := literals.filterMap Literal.text?

/-- Adds the member that a text declares, unless it is there already. -/
def addMember (scope : String) (members : List Member) (text : String) :
    Except Naming.Collision (List Member) :=
  if members.any fun m => m.literal = text then .ok members
  else
    let name := Naming.constantName text
    match members.find? fun m => m.name = name with
    | some m => .error { name, first := m.literal, second := text, scope }
    | none => .ok (members ++ [⟨name, members.length, text⟩])

/-- The members that texts declare, numbered in order of first occurrence. -/
def members (texts : List String) (scope : String := "enum") :
    Except Naming.Collision (List Member) :=
  texts.foldlM (addMember scope) []

/-- The enumerated type with the given name and declared choices. The texts of all choices are
written before the first of them gets its member. -/
def type (name : String) (literals : List Literal) : Except Error EnumType :=
  if literals.any Literal.isLong then .error .digits
  else ((members (texts literals) ("enum " ++ name)).mapError .collision).map (⟨name, ·⟩)

end SchemaModel.Enumeration
