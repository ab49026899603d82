import SchemaModel.Text.Quoted
import SchemaModel.Value.Basic

/-!
Writing of values as JSON texts in ASCII, on one line. Keys that are no texts are written as the
text of their JSON form.
-/
namespace SchemaModel.Json

/-- Why a value has no text. -/
inductive WriteError
  /-- JSON cannot express it. -/
  | kind
  /-- It contains itself. -/
  | endless
  /-- An integer has too many digits to be written. -/
  | digits
  deriving DecidableEq, Repr

def WriteError.message : WriteError → String
  | .kind => ""
  | .endless => "Circular reference detected"
  | .digits => Numeral.limitMessage none

/-- A code unit by its number. -/
def unitEscape (n : Nat) : List Char := '\\' :: 'u' :: Text.hexPadded 4 n

/-- One character as it stands in a string; beyond ASCII it is written in units of sixteen bits. -/
def stringChar (c : Char) : List Char :=
  let n := c.toNat
  if c = '"' ∨ c = '\\' then ['\\', c]
  else if c = '\n' then ['\\', 'n']
  else if c = '\r' then ['\\', 'r']
  else if c = '\t' then ['\\', 't']
  else if n = 0x0c then ['\\', 'f']
  else if n = 0x08 then ['\\', 'b']
  else if 0x20 ≤ n ∧ n < 0x7f then [c]
  else if n < 0x10000 then unitEscape n
  else unitEscape (0xd800 + (n - 0x10000) / 0x400) ++ unitEscape (0xdc00 + (n - 0x10000) % 0x400)

def stringText (s : String) : String := String.ofList ('"' :: s.toList.flatMap stringChar ++ ['"'])

/-- The layout of numbers: as everywhere, but for the names of the numbers that JSON lacks. -/
def numberLayout : NumberLayout :=
  { NumberLayout.standard with infinity := "Infinity", notANumber := "NaN" }

def intText (i : Int) : Except WriteError String :=
  if Numeral.isLong i then .error .digits else .ok (toString i)

/-- The text of a key, if a value can be one. -/
def keyText : Value → Except WriteError String
  | .text s => .ok s
  | .null => .ok "null"
  | .bool b => .ok (if b then "true" else "false")
  | .int i => intText i
  | .double x => .ok (x.textIn numberLayout)
  | _ => .error .kind

mutual

/-- The JSON text of a value; dates, octets, sets, members and what contains itself have none. -/
def write : Value → Except WriteError String
  | .null => .ok "null"
  | .bool b => .ok (if b then "true" else "false")
  | .int i => intText i
  | .double x => .ok (x.textIn numberLayout)
  | .text s => .ok (stringText s)
  | .list xs | .tuple xs => do return "[" ++ ", ".intercalate (← writeAll xs) ++ "]"
  | .mapping es => do return "\x7b" ++ ", ".intercalate (← writeEntries es) ++ "\x7d"
  | .marked _ v => write v
  | .bytes _ | .date _ | .moment _ | .member _ | .set _ | .unordered _ | .frozen _ => .error .kind
  | .again .. => .error .endless

def writeAll : List Value → Except WriteError (List String)
  | [] => .ok []
  | x :: xs => do return (← write x) :: (← writeAll xs)

def writeEntries : List (Value × Value) → Except WriteError (List String)
  | [] => .ok []
  | (k, v) :: es => do
    return (stringText (← keyText k) ++ ": " ++ (← write v)) :: (← writeEntries es)

end

end SchemaModel.Json
