import SchemaModel.Text.Quoted

/-!
Members of enumerated types.
-/
namespace SchemaModel

/-- A member of an enumerated type: its generated name, its place in the declaration, and the text
that declares it. -/
structure Member where
  name : String
  ordinal : Nat
  literal : String
  deriving DecidableEq, Repr, Inhabited

/-- The expression that builds the member. -/
def Member.source (m : Member) : String :=
  "EnumMember(name=" ++ Text.quoted m.name ++ ", ordinal=" ++ toString m.ordinal ++ ", literal=" ++
    Text.quoted m.literal ++ ")"

end SchemaModel
