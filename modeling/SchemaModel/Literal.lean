import SchemaModel.Value.Basic

/-!
Literals: the values that schemas declare as defaults and as enumerated choices, before their type
is known. Converting a literal is the business of the type that it is converted to.
-/
namespace SchemaModel

/-- A declared value. -/
inductive Literal
  | null
  | bool (b : Bool)
  | int (i : Int)
  | decimal (x : Double)
  | text (s : String)
  | sequence (items : List Literal)
  /-- A sequence declared where elements are to be unique. -/
  | uniqueSequence (items : List Literal)
  /-- Fields in declaration order; a name may occur more than once. -/
  | object (fields : List (String × Literal))
  deriving Repr, Inhabited

namespace Literal

/-- Whether a literal declares nothing: it is missing or null. -/
def isAbsent : Option Literal → Bool
  | none | some .null => true
  | some _ => false

/-- Whether a literal is an integer that has too many digits to be written. -/
def isLong : Literal → Bool
  | .int i => Numeral.isLong i
  | _ => false

/-- The text of a scalar that can be written: numbers and truth values in their JSON spelling. -/
def text? : Literal → Option String
  | .text s => some s
  | .bool b => some (if b then "true" else "false")
  | .int i => if Numeral.isLong i then none else some (toString i)
  | .decimal x => some x.text
  | .null | .sequence _ | .uniqueSequence _ | .object _ => none

/-- The items of a sequence of either flavour. -/
def items? : Literal → Option (List Literal)
  | .sequence items | .uniqueSequence items => some items
  | _ => none

/-- The first field of a name. -/
def field? (name : String) (fields : List (String × Literal)) : Option Literal := fields.lookup name

/-! ## Expressions -/

/-- The expression of a tuple with the given elements. -/
def tupleSource : List String → String
  | [one] => "(" ++ one ++ ",)"
  | all => "(" ++ ", ".intercalate all ++ ")"

mutual

/-- The expression that builds a literal, as messages show it, however long its integers are. -/
def source : Literal → String
  | .null => "NullLiteral()"
  | .bool b => "BoolLiteral(value=" ++ Value.boolSource b ++ ")"
  | .int i => "IntLiteral(value=" ++ toString i ++ ")"
  | .decimal x => "DecimalLiteral(value=" ++ x.text ++ ")"
  | .text s => "TextLiteral(value=" ++ Text.quoted s ++ ")"
  | .sequence items => "SequenceLiteral(items=" ++ tupleSource (sources items) ++ ")"
  | .uniqueSequence items => "UniqueSequenceLiteral(items=" ++ tupleSource (sources items) ++ ")"
  | .object fields => "ObjectLiteral(fields=" ++ tupleSource (fieldSources fields) ++ ")"

def sources : List Literal → List String
  | [] => []
  | l :: ls => l.source :: sources ls

def fieldSources : List (String × Literal) → List String
  | [] => []
  | (name, l) :: fs => ("(" ++ Text.quoted name ++ ", " ++ l.source ++ ")") :: fieldSources fs

end

/-- The expression of a literal that may be missing. -/
def sourceOf : Option Literal → String
  | none => "None"
  | some l => l.source

mutual

/-- Whether a literal holds an integer that has too many digits to be written, so that no message
can show it. -/
def hasLong : Literal → Bool
  | .int i => Numeral.isLong i
  | .sequence items | .uniqueSequence items => anyLong items
  | .object fields => fieldsLong fields
  | .null | .bool _ | .decimal _ | .text _ => false

def anyLong : List Literal → Bool
  | [] => false
  | l :: ls => l.hasLong || anyLong ls

def fieldsLong : List (String × Literal) → Bool
  | [] => false
  | (_, l) :: fs => l.hasLong || fieldsLong fs

end

end Literal
end SchemaModel
