import SchemaModel.Number.Double
import SchemaModel.Text.Blank
import SchemaModel.Text.Digit
import SchemaModel.Text.Quoted

/-!
Numerals: texts read as integers or as double-precision numbers. Digits may come from any script,
a single underscore may stand between two digits, and blanks around the numeral do not count. In base
ten an integer of very many digits is neither read nor written.
-/
namespace SchemaModel.Numeral

/-- A sign, if there is one (`true` for minus), and what follows it. -/
def splitSign : List Char → Bool × List Char
  | '-' :: cs => (true, cs)
  | '+' :: cs => (false, cs)
  | cs => (false, cs)

/-- The value of a digit in bases up to sixteen; letters count from ten on. -/
def digitIn? (base : Nat) (c : Char) : Option Nat :=
  let value? :=
    if 'a' ≤ c ∧ c ≤ 'z' then some (c.toNat - 'a'.toNat + 10)
    else if 'A' ≤ c ∧ c ≤ 'Z' then some (c.toNat - 'A'.toNat + 10)
    else Text.digitValue? c
  value?.filter (· < base)

/-! ## The limit of digits -/

/-- The most digits that an integer may have to be read or written in base ten. -/
def maxDigits : Nat := 4300

/-- Whether an integer has too many digits to be written. -/
def isLong (i : Int) : Bool := maxDigits < (Nat.toDigits 10 i.natAbs).length

/-- The message about an integer that is not written or, where digits were counted, not read. -/
def limitMessage (counted : Option Nat) : String :=
  "Exceeds the limit (" ++ toString maxDigits ++ " digits) for integer string conversion" ++
    (match counted with
     | some count => ": value has " ++ toString count ++ " digits"
     | none => "") ++ "; use sys.set_int_max_str_digits() to increase the limit"

/-! ## Integers -/

/-- The value of digits with single underscores between them, `acc` standing for those already
read. -/
def digitsFrom? (base : Nat) (acc : Nat) : List Char → Option Nat
  | [] => none
  | [c] => (digitIn? base c).map (acc * base + ·)
  | c :: '_' :: cs => do digitsFrom? base (acc * base + (← digitIn? base c)) cs
  | c :: cs => do digitsFrom? base (acc * base + (← digitIn? base c)) cs

/-- Drops the mark that may announce the base. -/
def dropBaseMark (base : Nat) : List Char → List Char
  | '0' :: x :: cs =>
    if (base = 2 ∧ (x = 'b' ∨ x = 'B')) ∨ (base = 8 ∧ (x = 'o' ∨ x = 'O')) ∨
        (base = 16 ∧ (x = 'x' ∨ x = 'X')) then
      match cs with
      | '_' :: rest => rest
      | _ => cs
    else '0' :: x :: cs
  | cs => cs

/-- The integer that characters without surrounding blanks stand for. -/
def intOfChars? (base : Nat) (cs : List Char) : Option Int :=
  let (negative, rest) := splitSign cs
  (digitsFrom? base 0 (dropBaseMark base rest)).map fun n => if negative then -(n : Int) else n

/-- The number of digits with which a text in base ten begins, if they are too many. What follows the
digits does not matter then, but a misplaced underscore among them does. -/
def excess? (cs : List Char) : Option Nat :=
  let run := cs.takeWhile fun c => c = '_' ∨ Text.isDecimalDigit c
  let count := (run.filter (· ≠ '_')).length
  if maxDigits < count ∧ (digitsFrom? 10 0 run).isSome then some count else none

/-- The digits of a text with which reading it in a base may exceed the limit. -/
def excessIn? (base : Nat) (s : String) : Option Nat :=
  if base = 10 then excess? (splitSign (Text.trimBlanks s.toList)).2 else none

/-- The integer that a text stands for in the given base. -/
def toInt? (base : Nat) (s : String) : Option Int :=
  match excessIn? base s with
  | some _ => none
  | none => intOfChars? base (Text.trimBlanks s.toList)

/-- Why a text stands for no integer in the given base. -/
def intMessage (base : Nat) (s : String) : String :=
  match excessIn? base s with
  | some count => limitMessage (some count)
  | none =>
    "invalid literal for int() with base " ++ toString base ++ ": " ++
      ((Text.quoted s).take 200).toString

/-- Removes each underscore that stands between two digits; any other underscore spoils the
numeral. `afterDigit` says whether a digit came just before. -/
def dropUnderscores (afterDigit : Bool) : List Char → Option (List Char)
  | [] => some []
  | '_' :: c :: cs =>
    if afterDigit && c.isDigit then (dropUnderscores true cs).map (c :: ·) else none
  | ['_'] => none
  | c :: cs => (dropUnderscores c.isDigit cs).map (c :: ·)

/-- Writes every decimal digit in ASCII. -/
def asciiDigit (c : Char) : Char :=
  match Text.digitValue? c with
  | some d => Char.ofNat ('0'.toNat + d)
  | none => c

/-- The value of ASCII digits, most significant first. -/
def natOfDigits (ds : List Char) : Nat :=
  ds.foldl (fun n c => n * 10 + (c.toNat - '0'.toNat)) 0

/-- The exponent part of a numeral: nothing, or `e`, an optional sign and digits. -/
def exponent? : List Char → Option Int
  | [] => some 0
  | c :: cs =>
    if c = 'e' ∨ c = 'E' then
      let (negative, ds) := splitSign cs
      if ds.isEmpty || !ds.all Char.isDigit then none
      else some (if negative then -(natOfDigits ds : Int) else natOfDigits ds)
    else none

/-- An unsigned decimal numeral: digits, a point with further digits, an exponent; at least one
digit must come before the exponent. -/
def decimal? (negative : Bool) (cs : List Char) : Option Double :=
  let whole := cs.takeWhile Char.isDigit
  let (fraction, rest) :=
    match cs.dropWhile Char.isDigit with
    | '.' :: cs => (cs.takeWhile Char.isDigit, cs.dropWhile Char.isDigit)
    | cs => ([], cs)
  if whole.isEmpty && fraction.isEmpty then none
  else (exponent? rest).map fun x =>
    Double.ofDecimal negative (natOfDigits (whole ++ fraction)) (x - fraction.length)

/-- The number that characters without surrounding blanks stand for; the names of infinity and of
not-a-number are read in any case. -/
def doubleOfChars? (cs : List Char) : Option Double := do
  let (negative, rest) := splitSign (← dropUnderscores false (cs.map asciiDigit))
  let name := String.ofList (rest.map Char.toLower)
  if name = "inf" ∨ name = "infinity" then return .infinite negative
  if name = "nan" then return .nan false
  decimal? negative rest

/-- The number that a text stands for. -/
def toDouble? (s : String) : Option Double := doubleOfChars? (Text.trimBlanks s.toList)

end SchemaModel.Numeral
