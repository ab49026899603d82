import SchemaModel.Document.Format
import SchemaModel.Schema.Load
import SchemaModel.Settings

/-!
Schemas and settings from texts: a text is read as a document and the document as a schema or as
settings.
-/
namespace SchemaModel

/-- Why a text holds no schema. -/
inductive SchemaError
  | document (e : DocumentError)
  | load (e : LoadError)
  deriving Repr

def SchemaError.message : SchemaError → String
  | .document (.json e) =>
    if e.isSyntax then "Invalid JSON schema document: " ++ e.message else e.message
  | .document (.yaml .malformed) => "Invalid YAML schema document: "
  | .document (.yaml e) => e.message
  | .load e => e.message

namespace Schema

def ofText (format : DocumentFormat) (text : String) : Except SchemaError Schema := do
  let document ← (format.read text).mapError .document
  (Schema.ofDocument document).mapError .load

/-- The schema in a file, whose name tells its format. -/
def ofFile (name text : String) : Except SchemaError Schema :=
  ofText (.ofFileName name) (String.ofList (unifyLineEnds text.toList))

end Schema

/-- Why a text holds no settings. -/
inductive SettingsTextError
  | document (e : DocumentError)
  | settings (e : SettingsError)
  deriving Repr

namespace Settings

def ofText (format : DocumentFormat) (text : String) : Except SettingsTextError Settings := do
  let document ← (format.read text).mapError .document
  (Settings.ofValue document.toValue.unmarked).mapError .settings

end Settings
end SchemaModel
