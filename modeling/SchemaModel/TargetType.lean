import SchemaModel.Member

/-!
Target types: what the properties of a schema resolve to. They do not depend on the language that
is generated.
-/
namespace SchemaModel

inductive ScalarKind
  | string | integer | long | double | boolean
  deriving DecidableEq, Repr

/-- How a date is represented: as a moment declared in milliseconds since the epoch, as a moment
declared by a text in some format, or as the integer of milliseconds itself. -/
inductive DateKind
  | epochMillis | formatted | epochMillisAsLong
  deriving DecidableEq, Repr

/-- An enumerated type; its members stand in declaration order. -/
structure EnumType where
  name : String
  members : List Member
  deriving DecidableEq, Repr, Inhabited

/-- The type of a property. A reference names a generated type; what that type holds is kept
elsewhere, so that recursive schemas have finite types. -/
inductive TargetType
  | scalar (kind : ScalarKind)
  | date (kind : DateKind) (format : Option String)
  | enum (type : EnumType)
  | list (element : TargetType)
  | set (element : TargetType)
  | reference (name : String)
  deriving DecidableEq, Repr, Inhabited

def ScalarKind.name : ScalarKind → String
  | .string => "String"
  | .integer => "Integer"
  | .long => "Long"
  | .double => "Double"
  | .boolean => "Boolean"

def DateKind.name : DateKind → String
  | .epochMillis => "EpochMillisAsDate"
  | .formatted => "FormattedStringAsDate"
  | .epochMillisAsLong => "EpochMillisAsLong"

namespace EnumType

/-- The member that a text declares; if several do, the last of them. -/
def member? (t : EnumType) (literal : String) : Option Member :=
  t.members.reverse.find? fun m => m.literal = literal

/-- The declaring texts in order. -/
def literals (t : EnumType) : List String := t.members.map (·.literal)

end EnumType

namespace TargetType

/-- The name of a type in messages. -/
def text : TargetType → String
  | .scalar kind => kind.name
  | .date kind format =>
    match format with
    | some f => if f.isEmpty then kind.name else kind.name ++ "(" ++ f ++ ")"
    | none => kind.name
  | .enum type => "Enum " ++ type.name
  | .list element => "List<" ++ element.text ++ ">"
  | .set element => "Set<" ++ element.text ++ ">"
  | .reference name => name

def isReference : TargetType → Bool
  | .reference _ => true
  | _ => false

end TargetType
end SchemaModel
