import SchemaModel.Calendar.Moment
import SchemaModel.Number.Shortest
import SchemaModel.Value.Basic
import SchemaModel.Yaml.Cursor
import SchemaModel.Number.Numeral

/-!
Scalars by kind. A plain scalar is a truth value, a number, a date, null or a merge key if it is
written like one, and a text otherwise; a scalar whose kind is declared is read as that kind.
-/
namespace SchemaModel.Yaml

/-- The kinds that nodes may have. -/
inductive Tag
  | null | bool | int | float | text | binary | timestamp | merge | value
  | sequence | mapping | set | orderedMap | pairs
  | unknown
  deriving DecidableEq, Repr

/-- What the names of the standard kinds have in common. -/
def standardTags : String := "tag:yaml.org,2002:"

/-- The kind that a full name stands for. -/
def Tag.ofName (name : String) : Tag :=
  let known : List (String × Tag) :=
    [("null", .null), ("bool", .bool), ("int", .int), ("float", .float), ("str", .text),
     ("binary", .binary), ("timestamp", .timestamp), ("merge", .merge), ("value", .value),
     ("seq", .sequence), ("map", .mapping), ("set", .set), ("omap", .orderedMap),
     ("pairs", .pairs)]
  ((known.find? fun e => standardTags ++ e.1 == name).map (·.2)).getD .unknown

/-! ## How plain scalars are written -/

def trueNames : List String :=
  ["yes", "Yes", "YES", "true", "True", "TRUE", "on", "On", "ON"]

def falseNames : List String :=
  ["no", "No", "NO", "false", "False", "FALSE", "off", "Off", "OFF"]

def nullNames : List String := ["~", "null", "Null", "NULL", ""]

def isDigitOrLine (c : Char) : Bool := c.isDigit || c == '_'

/-- A text without its sign. -/
def unsigned (cs : List Char) : List Char := (Numeral.splitSign cs).2

/-- Whether a text is a run of at least one character that satisfies a test. -/
def isRun (test : Char → Bool) (cs : List Char) : Bool := !cs.isEmpty && cs.all test

/-- Places of a number in base sixty after the first: each has a colon and one or two digits. -/
def isSixties : List Char → Bool
  | ':' :: c :: d :: rest =>
    if d.isDigit then c.isDigit && c ≤ '5' && (rest.isEmpty || isSixties rest)
    else c.isDigit && isSixties (d :: rest)
  | [':', c] => c.isDigit
  | _ => false

def isIntText (cs : List Char) : Bool :=
  match unsigned cs with
  | '0' :: 'b' :: ds => isRun (fun c => c == '0' || c == '1' || c == '_') ds
  | '0' :: 'x' :: ds =>
    isRun (fun c => c.isDigit || c == '_' || ('a' ≤ c && c ≤ 'f') || ('A' ≤ c && c ≤ 'F')) ds
  | '0' :: ds => ds.all fun c => ('0' ≤ c && c ≤ '7') || c == '_'
  | c :: ds =>
    c.isDigit &&
      (let rest := ds.dropWhile isDigitOrLine
       rest.isEmpty || isSixties rest)
  | [] => false

/-- The exponent of a number: nothing, or `e` with a sign and digits. -/
def isExponent : List Char → Bool
  | [] => true
  | e :: s :: ds => (e == 'e' || e == 'E') && (s == '-' || s == '+') && isRun Char.isDigit ds
  | _ => false

/-- A number with a point, and before it digits, perhaps in base sixty. -/
def isPointNumber (cs : List Char) : Bool :=
  match unsigned cs with
  | c :: ds =>
    c.isDigit &&
      (let rest := ds.dropWhile isDigitOrLine
       match rest with
       | '.' :: fraction => isExponent (fraction.dropWhile isDigitOrLine)
       | _ =>
         match rest.dropWhile (· != '.') with
         | '.' :: fraction => isSixties (rest.takeWhile (· != '.')) && fraction.all isDigitOrLine
         | _ => false)
  | [] => false

def isFloatText (cs : List Char) : Bool :=
  isPointNumber cs ||
    (match cs with
     | '.' :: c :: ds => c.isDigit && isExponent (ds.dropWhile isDigitOrLine)
     | _ => false) ||
    [".inf", ".Inf", ".INF"].contains (String.ofList (unsigned cs)) ||
    [".nan", ".NaN", ".NAN"].contains (String.ofList cs)

/-- The parts of a date as written. The time of day has a fraction of a second, and a zone in
minutes unless it is left out. -/
structure Stamp where
  year : Nat
  month : Nat
  day : Nat
  clock : Option (Nat × Nat × Nat × List Char × Option Int)
  /-- Month and day have two digits each. -/
  full : Bool

/-- One or two digits. -/
def shortDigits? (cs : List Char) : Option (List Char × List Char) :=
  let ds := (cs.take 2).takeWhile Char.isDigit
  if ds.isEmpty then none else some (ds, cs.drop ds.length)

/-- Exactly two digits. -/
def twoDigits? (cs : List Char) : Option (Nat × List Char) :=
  let ds := (cs.take 2).takeWhile Char.isDigit
  if ds.length == 2 then some (Numeral.natOfDigits ds, cs.drop 2) else none

/-- What follows a character that must stand first. -/
def after? (c : Char) (cs : List Char) : Option (List Char) :=
  if cs.head? == some c then some cs.tail else none

/-- The zone at the end of a date, in minutes. -/
def stampZone? (cs : List Char) : Option (Option Int) := do
  if cs.isEmpty then return none
  let cs := cs.dropWhile fun c => c == ' ' || c == '\t'
  if cs == ['Z'] then return some 0
  let sign : Int ← match cs with
    | '-' :: _ => some (-1)
    | '+' :: _ => some 1
    | _ => none
  let (hours, rest) ← shortDigits? cs.tail
  let minutes ← match rest with
    | [] => some 0
    | _ => do
      let (n, rest) ← twoDigits? (← after? ':' rest)
      if rest.isEmpty then some n else none
  return some (sign * (Numeral.natOfDigits hours * 60 + minutes : Nat))

/-- The time of day of a date. -/
def stampClock? (cs : List Char) : Option (Nat × Nat × Nat × List Char × Option Int) := do
  let cs ← match cs with
    | c :: rest =>
      if c == 'T' || c == 't' then some rest
      else if c == ' ' || c == '\t' then some (rest.dropWhile fun c => c == ' ' || c == '\t')
      else none
    | [] => none
  let (hour, cs) ← shortDigits? cs
  let (minute, cs) ← twoDigits? (← after? ':' cs)
  let (second, cs) ← twoDigits? (← after? ':' cs)
  let (fraction, cs) := match cs with
    | '.' :: rest => (rest.takeWhile Char.isDigit, rest.dropWhile Char.isDigit)
    | _ => ([], cs)
  return (Numeral.natOfDigits hour, minute, second, fraction, ← stampZone? cs)

/-- The parts of a date. -/
def stamp? (cs : List Char) : Option Stamp := do
  let year := (cs.take 4).takeWhile Char.isDigit
  if year.length != 4 then none
  let (month, rest) ← shortDigits? (← after? '-' (cs.drop 4))
  let (day, rest) ← shortDigits? (← after? '-' rest)
  let clock ← if rest.isEmpty then some none else (stampClock? rest).map some
  return { year := Numeral.natOfDigits year, month := Numeral.natOfDigits month,
           day := Numeral.natOfDigits day, clock, full := month.length == 2 && day.length == 2 }

/-- A text without the line feed at its end. A line feed alone stays. -/
def withoutBreak (text : String) : String :=
  match text.toList.reverse with
  | '\n' :: c :: cs => String.ofList (c :: cs).reverse
  | _ => text

/-- The marks of aliases, anchors and tags, which are a kind of their own that no node can have. -/
def markNames : List String := ["!", "&", "*"]

/-- The kind of a plain scalar. A line feed at the end, which a declared scalar may have, does not
count. -/
def Tag.ofPlain (text : String) : Tag :=
  let text := withoutBreak text
  let cs := text.toList
  if trueNames.contains text || falseNames.contains text then .bool
  else if nullNames.contains text then .null
  else if isFloatText cs then .float
  else if isIntText cs then .int
  else if text == "<<" then .merge
  else if text == "=" then .value
  else if markNames.contains text then .unknown
  else if (stamp? cs).any fun s => s.full || s.clock.isSome then .timestamp
  else .text

/-! ## Reading by kind -/

/-- A number written in base sixty, most significant place first. -/
def sixties (places : List Int) : Int := places.foldl (fun n d => n * 60 + d) 0

/-- The parts of a text between colons. -/
def colonParts : List Char → List (List Char)
  | [] => [[]]
  | c :: cs =>
    if c == ':' then [] :: colonParts cs
    else match colonParts cs with
      | [] => [[c]]
      | part :: parts => (c :: part) :: parts

/-- The integer that digits in a base stand for. -/
def baseInt (base : Nat) (cs : List Char) : Except Error Int :=
  let text := String.ofList cs
  match Numeral.toInt? base text with
  | some n => .ok n
  | none => .error (.integer base text)

def readInt (text : String) : Except Error Int := do
  let cs := text.toList.filter (· != '_')
  if cs.isEmpty then throw .noDigits
  let sign : Int := if cs.head? == some '-' then -1 else 1
  let ds := unsigned cs
  match ds with
  | [] => throw .noDigits
  | ['0'] => return 0
  | '0' :: 'b' :: rest => return sign * (← baseInt 2 rest)
  | '0' :: 'x' :: rest => return sign * (← baseInt 16 rest)
  | '0' :: _ => return sign * (← baseInt 8 ds)
  | _ =>
    if ds.contains ':' then return sign * sixties (← (colonParts ds).mapM (baseInt 10))
    return sign * (← baseInt 10 ds)

/-- The number that a text stands for. -/
def plainDouble (cs : List Char) : Except Error Double :=
  let text := String.ofList cs
  match Numeral.toDouble? text with
  | some x => .ok x
  | none => .error (.double text)

/-- Adds up the places of a number in base sixty, the least first. -/
def sumSixties (sum base : Double) : List Double → Double
  | [] => sum
  | d :: ds => sumSixties (sum.add (d.mul base)) (base.mul (.ofRatio false 60 1)) ds

def readDouble (text : String) : Except Error Double := do
  let cs := (text.toList.filter (· != '_')).map Char.toLower
  if cs.isEmpty then throw .noDigits
  let negative := cs.head? == some '-'
  let ds := unsigned cs
  let x ←
    if ds == ".inf".toList then pure (.infinite false)
    else if ds == ".nan".toList then return .nan true
    else if ds.contains ':' then do
      let places ← (colonParts ds).mapM plainDouble
      pure (sumSixties (.zero false) (.ofRatio false 1 1) places.reverse)
    else plainDouble ds
  return if negative then x.neg else x

def readBool (text : String) : Except Error Bool :=
  let name := String.ofList (text.toList.map Char.toLower)
  if trueNames.contains name then .ok true
  else if falseNames.contains name then .ok false
  else .error .truthValue

/-- The date or moment that a text stands for, whether or not a line feed ends it. -/
def readStamp (text : String) : Except Error Value := do
  match stamp? (withoutBreak text).toList with
  | none => throw .timestamp
  | some s =>
    match s.clock with
    | none => return .date (← (Date.ofFields s.year s.month s.day).mapError .date)
    | some (hour, minute, second, fraction, zone) => do
      if let some z := zone then
        if 1440 ≤ z.natAbs then throw (.date (.offset (.ofMicroseconds (z * 60000000))))
      let six := fraction.take 6
      let micros := Numeral.natOfDigits six * Nat.pow 10 (6 - six.length)
      let m ← (Moment.ofFields s.year s.month s.day hour minute second micros zone).mapError .date
      return .moment m

/-- The value of a character in base sixty-four. -/
def sextet? (c : Char) : Option Nat :=
  if c.isUpper then some (c.toNat - 'A'.toNat)
  else if c.isLower then some (c.toNat - 'a'.toNat + 26)
  else if c.isDigit then some (c.toNat - '0'.toNat + 52)
  else if c == '+' then some 62
  else if c == '/' then some 63
  else none

/-- Decodes base sixty-four. `place` counts the characters of the present group of four, `left`
holds the bits not yet written, and `pads` the padding signs in a row. Other characters do not
count. -/
def decodeSextets (place left pads : Nat) : List Char → Option (List UInt8)
  | [] => if place == 0 then some [] else none
  | c :: cs =>
    if c == '=' then
      if 2 ≤ place && 4 ≤ place + pads + 1 then some []
      else decodeSextets place left (if 2 ≤ place then pads + 1 else pads) cs
    else
      match sextet? c with
      | none => decodeSextets place left pads cs
      | some n =>
        match place with
        | 0 => decodeSextets 1 n 0 cs
        | 1 => (decodeSextets 2 (n % 16) 0 cs).map (UInt8.ofNat (left * 4 + n / 16) :: ·)
        | 2 => (decodeSextets 3 (n % 4) 0 cs).map (UInt8.ofNat (left * 16 + n / 4) :: ·)
        | _ => (decodeSextets 0 0 0 cs).map (UInt8.ofNat (left * 64 + n) :: ·)

def readBinary (text : String) : Except Error Value :=
  if text.toList.any fun c => 0x7f < c.toNat then .error .malformed
  else match decodeSextets 0 0 0 text.toList with
    | some bs => .ok (.bytes bs)
    | none => .error .malformed

/-- The value of a scalar of a kind; collections and the unknown kinds have none. -/
def readScalar (tag : Tag) (text : String) : Except Error Value :=
  match tag with
  | .null => .ok .null
  | .bool => (readBool text).map .bool
  | .int => (readInt text).map .int
  | .float => (readDouble text).map .double
  | .text => .ok (.text text)
  | .binary => readBinary text
  | .timestamp => readStamp text
  | .merge | .value | .sequence | .mapping | .set | .orderedMap | .pairs | .unknown =>
    .error .malformed

end SchemaModel.Yaml
