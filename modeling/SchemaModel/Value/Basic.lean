import SchemaModel.Calendar.Moment
import SchemaModel.Member
import SchemaModel.Number.Numeral
import SchemaModel.Number.Shortest

/-!
Values: what schema documents hold and what declared defaults become. Sets keep the order in which
their elements were added, and mappings that of their keys.

Objects of a document, which are its lists, mappings, sets and dates, may carry marks. Two objects
of one mark are one and the same, and an object may contain itself: where it does, its mark stands
alone. A mark says nothing of what a value is, so that nothing but identity depends on it.
-/
namespace SchemaModel

inductive Value
  | null
  | bool (b : Bool)
  | int (i : Int)
  | double (x : Double)
  | text (s : String)
  | bytes (octets : List UInt8)
  | date (d : Date)
  | moment (m : Moment)
  | member (m : Member)
  | list (items : List Value)
  | tuple (items : List Value)
  /-- A set that remembers the order of its elements. -/
  | set (items : List Value)
  /-- A set whose order carries no meaning. -/
  | unordered (items : List Value)
  /-- A set without order that can never change, so that it may be a key. -/
  | frozen (items : List Value)
  | mapping (entries : List (Value × Value))
  /-- An object with its mark. -/
  | marked (mark : Nat) (object : Value)
  /-- The object of a mark, given elsewhere: around this place or in a table of objects. -/
  | again (mark : Nat) (isMapping : Bool)
  deriving Repr, Inhabited

namespace Value

/-- The name that messages give to the kind of a value. -/
def kindName : Value → String
  | .null => "NoneType"
  | .bool _ => "bool"
  | .int _ => "int"
  | .double _ => "float"
  | .text _ => "str"
  | .bytes _ => "bytes"
  | .date _ => "date"
  | .moment _ => "datetime"
  | .member _ => "EnumMember"
  | .list _ => "list"
  | .tuple _ => "tuple"
  | .set _ => "OrderedSet"
  | .unordered _ => "set"
  | .frozen _ => "frozenset"
  | .mapping _ => "dict"
  | .marked _ v => v.kindName
  | .again _ isMapping => if isMapping then "dict" else "list"

/-- Whether a value counts as given: zero and whatever is empty do not. -/
def isGiven : Value → Bool
  | .null => false
  | .bool b => b
  | .int i => i != 0
  | .double x => !x.isZero
  | .text s => !s.isEmpty
  | .bytes bs => !bs.isEmpty
  | .date _ | .moment _ | .member _ => true
  | .list xs | .tuple xs | .set xs | .unordered xs | .frozen xs => !xs.isEmpty
  | .mapping es => !es.isEmpty
  | .marked _ v => v.isGiven
  | .again .. => true

def isText : Value → Bool
  | .text _ => true
  | _ => false

/-- The text, if the value is one. -/
def text? : Value → Option String
  | .text s => some s
  | _ => none

/-! ## Expressions -/

/-- The expression of a truth value. -/
def boolSource (b : Bool) : String := if b then "True" else "False"

mutual

/-- The expression that builds a value, as messages show it, however long its integers are. An object
inside itself is shown by its brackets alone. -/
def source : Value → String
  | .null => "None"
  | .bool b => boolSource b
  | .int i => toString i
  | .double x => x.text
  | .text s => Text.quoted s
  | .bytes bs => Text.quotedOctets bs
  | .date d => d.source
  | .moment m => m.source
  | .member m => m.source
  | .list xs => "[" ++ ", ".intercalate (sources xs) ++ "]"
  | .tuple xs =>
    match sources xs with
    | [one] => "(" ++ one ++ ",)"
    | all => "(" ++ ", ".intercalate all ++ ")"
  | .set xs => "OrderedSet([" ++ ", ".intercalate (sources xs) ++ "])"
  | .unordered xs =>
    match sources xs with
    | [] => "set()"
    | all => "\x7b" ++ ", ".intercalate all ++ "\x7d"
  | .frozen xs =>
    match sources xs with
    | [] => "frozenset()"
    | all => "frozenset(\x7b" ++ ", ".intercalate all ++ "\x7d)"
  | .mapping es => "\x7b" ++ ", ".intercalate (entrySources es) ++ "\x7d"
  | .marked _ v => v.source
  | .again _ isMapping => if isMapping then "\x7b...\x7d" else "[...]"

def sources : List Value → List String
  | [] => []
  | x :: xs => x.source :: sources xs

def entrySources : List (Value × Value) → List String
  | [] => []
  | (k, v) :: es => (k.source ++ ": " ++ v.source) :: entrySources es

end

/-- The plain text of a value: texts stand for themselves, dates and moments are written in the
standard form, everything else as its expression. -/
def display : Value → String
  | .text s => s
  | .date d => d.iso
  | .moment m => m.text " "
  | .marked _ v => v.display
  | v => v.source

mutual

/-- Whether a value holds an integer that has too many digits to be written. -/
def hasLong : Value → Bool
  | .int i => Numeral.isLong i
  | .list xs | .tuple xs | .set xs | .unordered xs | .frozen xs => anyLong xs
  | .mapping es => entriesLong es
  | .marked _ v => v.hasLong
  | .null | .bool _ | .double _ | .text _ | .bytes _ | .date _ | .moment _ | .member _
  | .again .. => false

def anyLong : List Value → Bool
  | [] => false
  | x :: xs => x.hasLong || anyLong xs

def entriesLong : List (Value × Value) → Bool
  | [] => false
  | (k, v) :: es => k.hasLong || v.hasLong || entriesLong es

end

/-- The expression of a value, if its integers can be written. -/
def source? (v : Value) : Option String := if v.hasLong then none else some v.source

/-- The plain text of a value, if its integers can be written. -/
def display? (v : Value) : Option String := if v.hasLong then none else some v.display

end Value
end SchemaModel
