import SchemaModel.Number.Numeral
import SchemaModel.Value.Basic

/-!
Why a document cannot become a schema.
-/
namespace SchemaModel

inductive LoadError
  /-- The document is no mapping. -/
  | document
  | selfReference (reference pointer : String)
  | externalReference (reference : String)
  | unresolvable (reference : String)
  | kindDeclaration (declared : Value)
  | notObject (pointer : String) (found : String)
  | properties (pointer : String)
  | enum (pointer : String)
  | defaultKind (found : String)
  /-- A list index whose digits have no place value, or too many digits. -/
  | index (token : String)
  /-- An integer with too many digits was to be written. -/
  | digits
  /-- A reference that is no text. -/
  | referenceKind (reference : Value)
  /-- A property name that is no text. -/
  | propertyName (name : Value)
  /-- The schema or a default is inside itself without a reference, so that it has no end. -/
  | endless
  deriving Repr

namespace LoadError

def message : LoadError → String
  | .document => "Schema document must be an object"
  | .selfReference reference pointer =>
    "Reference " ++ Text.quoted reference ++ " at " ++ pointer ++ " points to itself"
  | .externalReference reference =>
    "Only in-document references are supported: " ++ Text.quoted reference
  | .unresolvable reference => "Unresolvable reference: " ++ Text.quoted reference
  | .kindDeclaration declared => "Invalid type declaration: " ++ declared.source
  | .notObject pointer found => "Schema at " ++ pointer ++ " must be an object, got " ++ found
  | .properties pointer => "'properties' at " ++ pointer ++ " must be an object"
  | .enum pointer => "'enum' at " ++ pointer ++ " must be an array"
  | .defaultKind found => "Unsupported default value type: " ++ found
  | .index token => Numeral.intMessage 10 token
  | .digits => Numeral.limitMessage none
  | .referenceKind _ | .propertyName _ | .endless => ""

end LoadError
end SchemaModel
