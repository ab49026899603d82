import SchemaModel.Naming.Words

/-!
Generated names. Each is a pure function of the text that it comes from: class names are capitalised
words run together, field names small words joined by underscores, and the names of enumeration
members capital words joined by underscores.
-/
namespace SchemaModel.Naming

/-- Words that the generated language keeps for itself. -/
def keywords : List String :=
  ["False", "None", "True", "and", "as", "assert", "async", "await", "break", "class", "continue",
   "def", "del", "elif", "else", "except", "finally", "for", "from", "global", "if", "import", "in",
   "is", "lambda", "nonlocal", "not", "or", "pass", "raise", "return", "try", "while", "with",
   "yield"]

/-- Words that the generated language keeps for itself in some places only. -/
def softKeywords : List String := ["_", "case", "match"]

def capitalize : List Char → List Char
  | [] => []
  | c :: cs => c.toUpper :: cs

/-- A name may not begin with a digit. -/
def guardDigit : List Char → List Char
  | [] => []
  | c :: cs => if c.isDigit then '_' :: c :: cs else c :: cs

/-- Words with an underscore between each two. -/
def joined (ws : List (List Char)) : List Char := ['_'].intercalate ws

/-- The class name of a text, `fallback` if it has no words. -/
def className (text : String) (fallback : String := "Type") : String :=
  match words text.toList with
  | [] => fallback
  | ws => String.ofList (guardDigit (ws.map capitalize).flatten)

/-- Sets a name apart from the words of the generated language. -/
def guardKeyword (name : String) : String :=
  if name ∈ keywords ∨ name ∈ softKeywords then name ++ "_" else name

/-- The field name of a text, `fallback` if it has no words. -/
def fieldName (text : String) (fallback : String := "field") : String :=
  match words text.toList with
  | [] => fallback
  | ws => guardKeyword (String.ofList (guardDigit (joined (ws.map (·.map Char.toLower)))))

/-- The name of the enumeration member that a text declares. -/
def constantName (text : String) : String :=
  match words text.toList with
  | [] => "EMPTY"
  | ws => String.ofList (guardDigit (joined (ws.map (·.map Char.toUpper))))

end SchemaModel.Naming
