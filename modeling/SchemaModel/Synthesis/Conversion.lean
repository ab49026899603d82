import SchemaModel.Calendar.Reading
import SchemaModel.Literal
import SchemaModel.Number.Numeral
import SchemaModel.TargetType

/-!
Conversion of single literals to values: numbers with their ranges, truth values, texts, dates and
members of enumerations.
-/
namespace SchemaModel

/-- Why a literal does not fit its type. -/
inductive ConversionFault
  | truthValueAsNumber
  | notFinite
  | notNumber
  | integerText (text : String)
  | width (value low high : Int)
  /-- An integer has too many digits to be written. -/
  | digits
  | tooLarge
  | doubleText (text : String)
  | notTruthValue
  | notScalar
  | notDateText (format : Option String)
  | date (cause : DateFault)
  | notMember (literals : List String)
  | notSequence
  deriving DecidableEq, Repr

/-- The expression of a declared format. -/
def formatSource : Option String → String
  | some f => Text.quoted f
  | none => "None"

def ConversionFault.message : ConversionFault → String
  | .truthValueAsNumber => "boolean is not a number"
  | .notFinite => "not a finite number"
  | .notNumber => "not a number"
  | .integerText text => Numeral.intMessage 10 text
  | .width value low high =>
    toString value ++ " does not fit in [" ++ toString low ++ ", " ++ toString high ++ "]"
  | .digits => Numeral.limitMessage none
  | .tooLarge => "too large for a double"
  | .doubleText text => "could not convert string to float: " ++ Text.quoted text
  | .notTruthValue => "not a boolean"
  | .notScalar => "not a scalar"
  | .notDateText format => "expected a date string in format " ++ formatSource format
  | .date cause => cause.message
  | .notMember literals => "not one of [" ++ ", ".intercalate (literals.map Text.quoted) ++ "]"
  | .notSequence => "expected an array"

namespace Literal

/-! ## Numbers -/

/-- The bounds of a signed integer of the given number of bits. -/
def signedBounds (bits : Nat) : Int × Int := (-Nat.pow 2 (bits - 1), Nat.pow 2 (bits - 1) - 1)

/-- The integer that a literal stands for: fractions are cut off, and texts are read as
numerals. -/
def toInt : Literal → Except ConversionFault Int
  | .bool _ => .error .truthValueAsNumber
  | .int i => .ok i
  | .decimal x => if x.isFinite then .ok x.truncate else .error .notFinite
  | .text s =>
    match Numeral.toInt? 10 s with
    | some i => .ok i
    | none => .error (.integerText (Text.trim s))
  | _ => .error .notNumber

/-- The integer that a literal stands for, if it fits into the given number of bits. -/
def toSigned (bits : Nat) (l : Literal) : Except ConversionFault Int := do
  let i ← l.toInt
  let (low, high) := signedBounds bits
  if low ≤ i ∧ i ≤ high then .ok i
  else .error (if Numeral.isLong i then .digits else .width i low high)

def toDouble : Literal → Except ConversionFault Double
  | .int i =>
    match Double.ofInt? i with
    | some x => .ok x
    | none => .error .tooLarge
  | .decimal x => .ok x
  | .text s =>
    match Numeral.toDouble? s with
    | some x => .ok x
    | none => .error (.doubleText (Text.trim s))
  | _ => .error .notNumber

/-! ## Truth values and texts -/

/-- A truth value, or its name in any case. -/
def toBool : Literal → Except ConversionFault Bool
  | .bool b => .ok b
  | .text s =>
    let name := (Text.trimBlanks s.toList).map Char.toLower
    if name = ['t', 'r', 'u', 'e'] then .ok true
    else if name = ['f', 'a', 'l', 's', 'e'] then .ok false
    else .error .notTruthValue
  | _ => .error .notTruthValue

def toText (l : Literal) : Except ConversionFault String :=
  match l.text? with
  | some s => .ok s
  | none => .error (if l.isLong then .digits else .notScalar)

/-- The value of a scalar type that a literal declares. -/
def toScalar (kind : ScalarKind) (l : Literal) : Except ConversionFault Value :=
  match kind with
  | .string => l.toText.map .text
  | .integer => (l.toSigned 32).map .int
  | .long => (l.toSigned 64).map .int
  | .double => l.toDouble.map .double
  | .boolean => l.toBool.map .bool

/-! ## Dates and members -/

/-- The member of an enumerated type that a literal names. -/
def toMember (type : EnumType) (l : Literal) : Except ConversionFault Value :=
  match l.text?.bind type.member? with
  | some m => .ok (.member m)
  | none => .error (if l.isLong then .digits else .notMember type.literals)

end Literal
end SchemaModel
