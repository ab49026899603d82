import SchemaModel.Document.Basic
import SchemaModel.Json.Read
import SchemaModel.Json.Write
import SchemaModel.Yaml.Read
import SchemaModel.Yaml.Write

/-!
Documents as texts: the formats in which they are written down, and which of them a file is in.
-/
namespace SchemaModel

inductive DocumentFormat
  | json | yaml
  deriving DecidableEq, Repr

/-- Why a text holds no document. -/
inductive DocumentError
  | json (e : Json.Error)
  | yaml (e : Yaml.Error)
  deriving Repr

namespace DocumentFormat

/-- The format of a file by the end of its name. -/
def ofFileName (name : String) : DocumentFormat :=
  if name.endsWith ".yaml" || name.endsWith ".yml" then .yaml else .json

/-- The document that a text holds. -/
def read (format : DocumentFormat) (text : String) : Except DocumentError Document :=
  match format with
  | .json => do return .ofValue (← (Json.read text).mapError .json)
  | .yaml => (Yaml.read text).mapError .yaml

/-- The text of a value, if the format can express it. -/
def write (format : DocumentFormat) (v : Value) : Except Json.WriteError String :=
  match format with
  | .json => Json.write v
  | .yaml => if v.hasLong then .error .digits else .ok (Yaml.write v)

end DocumentFormat

/-- The lines of a file end with a line feed, whether they are written with a carriage return in
front of it or in its place. -/
def unifyLineEnds : List Char → List Char
  | [] => []
  | '\r' :: '\n' :: cs => '\n' :: unifyLineEnds cs
  | '\r' :: cs => '\n' :: unifyLineEnds cs
  | c :: cs => c :: unifyLineEnds cs

end SchemaModel
