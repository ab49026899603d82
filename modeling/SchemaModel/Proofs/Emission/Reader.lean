import SchemaModel.Enumeration
import SchemaModel.Number.Numeral
import SchemaModel.OrderedSet.Basic

/-!
A reader of the expressions that stand for defaults in generated modules. It knows the forms of the
generated language that such expressions use, and the enumerated types that are in scope.
-/
namespace SchemaModel.Emission.Reader

/-- What follows a given beginning. -/
def after? (lead : String) (cs : List Char) : Option (List Char) := lead.toList.isPrefixOf? cs

/-! ## Numbers -/

/-- The number that digits stand for. -/
def digits? (base : Nat) (ds : List Char) : Option Nat :=
  ds.foldlM (fun n c => (Numeral.digitIn? base c).map (n * base + ·)) 0

/-- A decimal numeral without needless zeros. -/
def natural? (ds : List Char) : Option Nat :=
  (digits? 10 ds).filter fun n => Nat.toDigits 10 n = ds

/-- An integer, with a minus if it is negative. -/
def integer? : List Char → Option Int
  | '-' :: ds => (natural? ds).map fun n => -(n : Int)
  | ds => (natural? ds).map Int.ofNat

def isNumberChar (c : Char) : Bool :=
  c.isDigit || c == '-' || c == '+' || c == '.' || c == 'e'

/-- The number at the start of a text; a point or an exponent makes it a floating one. -/
def number? (cs : List Char) : Option (Value × List Char) :=
  let run := cs.takeWhile isNumberChar
  let rest := cs.dropWhile isNumberChar
  if run.any fun c => c == '.' || c == 'e' then
    (Numeral.toDouble? (String.ofList run)).map fun x => (.double x, rest)
  else (integer? run).map fun i => (.int i, rest)

/-! ## Texts -/

/-- The character that a short escape stands for. -/
def shortEscape? : Char → Option Char
  | '\\' => some '\\'
  | '\'' => some '\''
  | '"' => some '"'
  | 'n' => some '\n'
  | 'r' => some '\r'
  | 't' => some '\t'
  | _ => none

/-- The character whose code point is written with `width` digits in base sixteen. -/
def codePoint? (width : Nat) (cs : List Char) : Option (Char × List Char) := do
  let ds := cs.take width
  let n ← digits? 16 ds
  if ds.length = width ∧ n.isValidChar then some (Char.ofNat n, cs.drop width) else none

/-- The character that an escape stands for, given what follows its backslash. -/
def escape? : List Char → Option (Char × List Char)
  | [] => none
  | c :: cs =>
    if c = 'x' then codePoint? 2 cs
    else if c = 'u' then codePoint? 4 cs
    else if c = 'U' then codePoint? 8 cs
    else (shortEscape? c).map (·, cs)

/-- The rest of a text up to its closing mark. Every step reads at least one character, which `fuel`
counts. -/
def quoted? (mark : Char) : Nat → List Char → Option (List Char × List Char)
  | 0, _ | _, [] => none
  | fuel + 1, c :: cs =>
    if c = mark then some ([], cs)
    else if c = '\n' then none
    else if c = '\\' then do
      let (d, rest) ← escape? cs
      let (text, rest) ← quoted? mark fuel rest
      some (d :: text, rest)
    else do
      let (text, rest) ← quoted? mark fuel cs
      some (c :: text, rest)

/-! ## Names -/

/-- The named values. -/
def constants : List (String × Value) :=
  [("None", .null), ("True", .bool true), ("False", .bool false),
   ("float('inf')", .double (.infinite false)), ("float('-inf')", .double (.infinite true)),
   ("float('nan')", .double (.nan false))]

def constant? (cs : List Char) : Option (Value × List Char) :=
  constants.findSome? fun (name, v) => (after? name cs).map (v, ·)

def isNameChar (c : Char) : Bool := c.isAlphanum || c == '_'

/-- The member of a type in scope that is named at the start of a text. -/
def member? (scope : List EnumType) (cs : List Char) : Option (Value × List Char) :=
  scope.findSome? fun t => do
    let rest ← after? (t.name ++ ".") cs
    let name := String.ofList (rest.takeWhile isNameChar)
    let m ← t.members.find? fun m => m.name = name
    some (.member m, rest.dropWhile isNameChar)

/-! ## Moments -/

/-- Numbers, each with a comma behind it. -/
def fields? : Nat → List Char → Option (List Nat × List Char)
  | 0, cs => some ([], cs)
  | count + 1, cs => do
    let n ← natural? (cs.takeWhile Char.isDigit)
    let rest ← after? ", " (cs.dropWhile Char.isDigit)
    let (ns, rest) ← fields? count rest
    some (n :: ns, rest)

/-- A moment in universal time, if there is one with the given fields. -/
def moment? (cs : List Char) : Option (Value × List Char) := do
  let rest ← after? "_dt.datetime(" cs
  let (ns, rest) ← fields? 7 rest
  let rest ← after? "tzinfo=_dt.timezone.utc)" rest
  match ns with
  | [year, month, day, hour, minute, second, microsecond] =>
    if microsecond < 1000000 then
      match Moment.ofFields year month day hour minute second microsecond (some 0) with
      | .ok m => some (.moment m, rest)
      | .error _ => none
    else none
  | _ => none

/-! ## Expressions -/

mutual

/-- The value of the expression at the start of a text. Of two nested calls one at least reads a
character, which `fuel` counts. -/
def value (scope : List EnumType) : Nat → List Char → Option (Value × List Char)
  | 0, _ => none
  | fuel + 1, cs =>
    (member? scope cs).or <|
      match cs with
      | '[' :: rest => (items scope fuel rest).map fun (xs, rest) => (.list xs, rest)
      | '_' :: 'O' :: _ => do
        let rest ← after? "_OrderedSet([" cs
        let (xs, rest) ← items scope fuel rest
        let rest ← after? ")" rest
        some ((OrderedSet.ofList xs).toValue, rest)
      | '_' :: _ => moment? cs
      | c :: rest =>
        if c = '\'' ∨ c = '"' then
          (quoted? c rest.length rest).map fun (text, rest) => (.text (String.ofList text), rest)
        else if c.isDigit ∨ c = '-' then number? cs
        else constant? cs
      | [] => none

/-- The items of a list up to its closing bracket. What starts like a bracket may still be the name
of a type. -/
def items (scope : List EnumType) : Nat → List Char → Option (List Value × List Char)
  | 0, _ => none
  | fuel + 1, cs =>
    match value scope fuel cs with
    | some (x, rest) => (more scope fuel rest).map fun (xs, rest) => (x :: xs, rest)
    | none =>
      match cs with
      | ']' :: rest => some ([], rest)
      | _ => none

/-- The items behind the first one, each with a comma before it. -/
def more (scope : List EnumType) : Nat → List Char → Option (List Value × List Char)
  | 0, _ => none
  | _ + 1, ']' :: rest => some ([], rest)
  | fuel + 1, ',' :: ' ' :: cs => do
    let (x, rest) ← value scope fuel cs
    let (xs, rest) ← more scope fuel rest
    some (x :: xs, rest)
  | _ + 1, _ => none

end

/-- The value that a whole text denotes. -/
def read? (scope : List EnumType) (text : String) : Option Value :=
  match value scope text.toList.length text.toList with
  | some (v, []) => some v
  | _ => none

end SchemaModel.Emission.Reader
