import SchemaModel.Number.Numeral
import SchemaModel.Value.Equality

/-!
Reading of JSON texts. The names of infinity and of not-a-number are read as numbers; a number with
a fraction or an exponent is a double, any other an integer of any size. A key that is repeated
keeps its first place and its last value.
-/
namespace SchemaModel.Json

/-- What is wrong with a text. -/
inductive Fault
  | byteOrderMark | value | propertyName | colon | comma | extra
  | unterminated | control | escape | codePoint
  /-- An integer has too many digits to be read. -/
  | digits (count : Nat)
  deriving DecidableEq, Repr

/-- A fault and the number of characters from its place to the end. -/
structure Stop where
  fault : Fault
  remaining : Nat
  deriving DecidableEq, Repr

def Fault.message : Fault → String
  | .byteOrderMark => "Unexpected UTF-8 BOM (decode using utf-8-sig)"
  | .value => "Expecting value"
  | .propertyName => "Expecting property name enclosed in double quotes"
  | .colon => "Expecting ':' delimiter"
  | .comma => "Expecting ',' delimiter"
  | .extra => "Extra data"
  | .unterminated => "Unterminated string starting at"
  | .control => "Invalid control character at"
  | .escape => "Invalid \\escape"
  | .codePoint => "Invalid \\uXXXX escape"
  | .digits count => Numeral.limitMessage (some count)

/-- A fault and its place in the text. -/
structure Error where
  fault : Fault
  line : Nat
  column : Nat
  position : Nat
  deriving DecidableEq, Repr

/-- Whether the text is at fault. Too many digits are none of its faults. -/
def Error.isSyntax (e : Error) : Bool :=
  match e.fault with
  | .digits _ => false
  | _ => true

def Error.message (e : Error) : String :=
  if e.isSyntax then
    e.fault.message ++ ": line " ++ toString e.line ++ " column " ++ toString e.column ++
      " (char " ++ toString e.position ++ ")"
  else e.fault.message

/-- The error at the place where `remaining` characters are left. -/
def Stop.locate (stop : Stop) (cs : List Char) : Error :=
  let position := cs.length - stop.remaining
  let before := cs.take position
  { fault := stop.fault
    line := before.count '\n' + 1
    column := (before.reverse.takeWhile (· != '\n')).length + 1
    position }

/-! ## Characters -/

def isSpace (c : Char) : Bool := c == ' ' || c == '\t' || c == '\n' || c == '\r'

def skipSpace (cs : List Char) : List Char := cs.dropWhile isSpace

/-- The number that four characters stand for in base sixteen. -/
def hexNumber? (ds : List Char) : Option Nat :=
  ds.foldlM (fun n c => (if c.toNat < 0x80 then Numeral.digitIn? 16 c else none).map (n * 16 + ·)) 0

/-- The character that a short escape stands for. -/
def shortEscape? : Char → Option Char
  | '"' => some '"'
  | '\\' => some '\\'
  | '/' => some '/'
  | 'b' => some '\x08'
  | 'f' => some '\x0c'
  | 'n' => some '\n'
  | 'r' => some '\r'
  | 't' => some '\t'
  | _ => none

/-- A code point escaped in halves; a lone half is replaced. -/
def joinHalves (high low : Nat) : Char :=
  Char.ofNat (0x10000 + (high - 0xd800) * 0x400 + (low - 0xdc00))

def isHighHalf (n : Nat) : Bool := 0xd800 ≤ n && n < 0xdc00

def isLowHalf (n : Nat) : Bool := 0xdc00 ≤ n && n < 0xe000

def ofCodePoint (n : Nat) : Char := if isHighHalf n || isLowHalf n then '\ufffd' else Char.ofNat n

/-- The second half after an escaped first half, and the text after it, if another escape follows
that could be one. -/
def secondHalf? (cs : List Char) : Except Stop (Option (Nat × List Char)) :=
  match cs with
  | '\\' :: 'u' :: rest =>
    if rest.length ≤ 4 then .ok none
    else match hexNumber? (rest.take 4) with
      | none => .error ⟨.codePoint, rest.length + 1⟩
      | some n => .ok (if isLowHalf n then some (n, rest.drop 4) else none)
  | _ => .ok none

/-- The character that a code point escape stands for, given the text after its `u`. -/
def codePoint (rest : List Char) : Except Stop (Char × List Char) := do
  if rest.length ≤ 4 then throw ⟨.codePoint, rest.length + 1⟩
  match hexNumber? (rest.take 4) with
  | none => throw ⟨.codePoint, rest.length + 1⟩
  | some n =>
    let after := rest.drop 4
    if isHighHalf n then
      match ← secondHalf? after with
      | some (low, after) => return (joinHalves n low, after)
      | none => return (ofCodePoint n, after)
    return (ofCodePoint n, after)

/-- The rest of a string after its opening quote; `start` characters were left at that quote.
Every step reads at least one character, which `fuel` counts. -/
def stringBody (start : Nat) : Nat → List Char → Except Stop (List Char × List Char)
  | 0, _ | _, [] => .error ⟨.unterminated, start⟩
  | _ + 1, '"' :: cs => .ok ([], cs)
  | _ + 1, ['\\'] => .error ⟨.unterminated, start⟩
  | fuel + 1, '\\' :: 'u' :: cs => do
    let (c, rest) ← codePoint cs
    let (body, rest) ← stringBody start fuel rest
    return (c :: body, rest)
  | fuel + 1, '\\' :: e :: cs =>
    match shortEscape? e with
    | none => .error ⟨.escape, cs.length + 2⟩
    | some c => do
      let (body, rest) ← stringBody start fuel cs
      return (c :: body, rest)
  | fuel + 1, c :: cs =>
    if c.toNat ≤ 0x1f then .error ⟨.control, cs.length + 1⟩
    else do
      let (body, rest) ← stringBody start fuel cs
      return (c :: body, rest)

/-- A string, given the text after its opening quote. -/
def string (cs : List Char) : Except Stop (String × List Char) := do
  let (body, rest) ← stringBody (cs.length + 1) (cs.length + 1) cs
  return (String.ofList body, rest)

/-! ## Numbers -/

/-- The digits before the point: one zero, or digits that do not begin with zero. -/
def wholeDigits? : List Char → Option (List Char × List Char)
  | '0' :: cs => some (['0'], cs)
  | c :: cs =>
    if c.isDigit then some (c :: cs.takeWhile Char.isDigit, cs.dropWhile Char.isDigit) else none
  | [] => none

/-- The digits after a point, if a point with digits follows. -/
def fractionDigits (cs : List Char) : Option (List Char) × List Char :=
  match cs with
  | '.' :: rest =>
    let ds := rest.takeWhile Char.isDigit
    if ds.isEmpty then (none, cs) else (some ds, rest.dropWhile Char.isDigit)
  | _ => (none, cs)

/-- The exponent, if an `e` with digits follows. -/
def exponentPart (cs : List Char) : Option Int × List Char :=
  match cs with
  | e :: rest =>
    if e = 'e' ∨ e = 'E' then
      let (negative, ds) := Numeral.splitSign rest
      let digits := ds.takeWhile Char.isDigit
      if digits.isEmpty then (none, cs)
      else
        let n : Int := Numeral.natOfDigits digits
        (some (if negative then -n else n), ds.dropWhile Char.isDigit)
    else (none, cs)
  | [] => (none, cs)

/-- The number at the start of a text, and what follows it, unless it is an integer with too many
digits. -/
def number? (cs : List Char) : Option (Value × List Char) := do
  let negative := cs.head? = some '-'
  let (whole, rest) ← wholeDigits? (if negative then cs.tail else cs)
  let (fraction, rest) := fractionDigits rest
  let (exponent, rest) := exponentPart rest
  if fraction.isNone && exponent.isNone then
    if (Numeral.excess? whole).isSome then none
    let n : Int := Numeral.natOfDigits whole
    return (.int (if negative then -n else n), rest)
  let fraction := fraction.getD []
  return (.double (Double.ofDecimal negative (Numeral.natOfDigits (whole ++ fraction))
    (exponent.getD 0 - fraction.length)), rest)

/-- What is wrong where no value can be read. -/
def valueFault (cs : List Char) : Fault :=
  match (wholeDigits? (if cs.head? = some '-' then cs.tail else cs)).bind (Numeral.excess? ·.1) with
  | some count => .digits count
  | none => .value

/-- The names of values. -/
def constants : List (String × Value) :=
  [("null", .null), ("true", .bool true), ("false", .bool false), ("NaN", .double (.nan true)),
   ("Infinity", .double (.infinite false)), ("-Infinity", .double (.infinite true))]

/-- The named value at the start of a text. -/
def constant? (cs : List Char) : Option (Value × List Char) :=
  constants.findSome? fun (name, v) =>
    if name.toList.isPrefixOf cs then some (v, cs.drop name.length) else none

/-! ## Values -/

mutual

/-- The value at the start of a text. Of two nested calls one at least reads a character, which
`fuel` counts. -/
def value : Nat → List Char → Except Stop (Value × List Char)
  | 0, cs => .error ⟨.value, cs.length⟩
  | fuel + 1, cs =>
    match cs with
    | '"' :: rest => do
      let (s, rest) ← string rest
      return (.text s, rest)
    | '[' :: rest =>
      match skipSpace rest with
      | ']' :: rest => .ok (.list [], rest)
      | rest => do
        let (xs, rest) ← elements fuel rest
        return (.list xs, rest)
    | '\x7b' :: rest =>
      match skipSpace rest with
      | '\x7d' :: rest => .ok (.mapping [], rest)
      | rest => do
        let (es, rest) ← members fuel [] rest
        return (.mapping es, rest)
    | _ =>
      match (constant? cs).or (number? cs) with
      | some found => .ok found
      | none => .error ⟨valueFault cs, cs.length⟩

/-- The elements of a list up to its closing bracket. -/
def elements : Nat → List Char → Except Stop (List Value × List Char)
  | 0, cs => .error ⟨.value, cs.length⟩
  | fuel + 1, cs => do
    let (x, rest) ← value fuel cs
    match skipSpace rest with
    | ']' :: rest => return ([x], rest)
    | ',' :: rest => do
      let (xs, rest) ← elements fuel (skipSpace rest)
      return (x :: xs, rest)
    | rest => throw ⟨.comma, rest.length⟩

/-- The entries of a mapping up to its closing brace, added to those read before. -/
def members : Nat → List (Value × Value) → List Char →
    Except Stop (List (Value × Value) × List Char)
  | 0, _, cs => .error ⟨.propertyName, cs.length⟩
  | fuel + 1, es, cs =>
    match cs with
    | '"' :: rest => do
      let (key, rest) ← string rest
      match skipSpace rest with
      | ':' :: rest => do
        let (v, rest) ← value fuel (skipSpace rest)
        let es := Value.putEntry (.text key) v es
        match skipSpace rest with
        | '\x7d' :: rest => return (es, rest)
        | ',' :: rest => members fuel es (skipSpace rest)
        | rest => throw ⟨.comma, rest.length⟩
      | rest => throw ⟨.colon, rest.length⟩
    | _ => .error ⟨.propertyName, cs.length⟩

end

/-- The value that a whole text stands for. -/
def document (cs : List Char) : Except Stop Value := do
  if cs.head? = some '\ufeff' then throw ⟨.byteOrderMark, cs.length⟩
  let (v, rest) ← value (2 * cs.length + 2) (skipSpace cs)
  match skipSpace rest with
  | [] => return v
  | rest => throw ⟨.extra, rest.length⟩

/-- Reads a JSON text. -/
def read (text : String) : Except Error Value :=
  (document text.toList).mapError (·.locate text.toList)

end SchemaModel.Json
