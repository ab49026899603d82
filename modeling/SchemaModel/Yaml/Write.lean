import SchemaModel.Value.Marks
import SchemaModel.Yaml.Scalar

/-!
Writing of values as YAML documents in block style. Scalars are plain where they read back as
themselves, else in single quotes, and in double quotes where something has to be escaped. Lines are
broken at a space once they are wider than 80 columns. An object that occurs again gets an anchor
where it is written first, and an alias stands for it from then on.
-/
namespace SchemaModel.Yaml

/-! ## The sheet -/

/-- What has been written, and what the last line looks like. -/
structure Sheet where
  /-- The characters written, the last one first. -/
  written : List Char := []
  column : Nat := 0
  /-- The last character separates. -/
  spaced : Bool := true
  /-- The line holds nothing but indentation and marks. -/
  fresh : Bool := true
  /-- The objects that occur more than once, in the order in which that shows. -/
  repeated : List Nat := []
  /-- The repeated objects that have been written. -/
  anchored : List Nat := []

namespace Sheet

def put (s : Sheet) (cs : List Char) : Sheet :=
  { s with written := cs.reverse ++ s.written, column := s.column + cs.length }

def lineBreak (s : Sheet) : Sheet :=
  { s with written := '\n' :: s.written, column := 0, spaced := true, fresh := true }

/-- Goes to a column on a line that is fresh. -/
def goTo (s : Sheet) (indent : Nat) : Sheet :=
  let s :=
    if !s.fresh || indent < s.column || (s.column == indent && !s.spaced) then s.lineBreak else s
  if s.column < indent then
    { s.put (List.replicate (indent - s.column) ' ') with spaced := true }
  else s

/-- Writes a mark, with a space before it if it needs one. A mark may keep the line fresh. -/
def mark (s : Sheet) (cs : List Char) (apart fresh : Bool) : Sheet :=
  let s' := s.put (if s.spaced || !apart then cs else ' ' :: cs)
  { s' with spaced := false, fresh := s.fresh && fresh }

/-- Goes on in the middle of a scalar. -/
def within (s : Sheet) : Sheet := { s with spaced := false, fresh := false }

end Sheet

/-- The width from which on lines are broken. -/
def width : Nat := 80

/-! ## Which style a scalar takes -/

inductive Style
  | plain | single | double
  deriving DecidableEq

/-- Whether a text begins with a mark that would be taken for something else. -/
def beginsWithMark (cs : List Char) : Bool :=
  match cs with
  | [] => false
  | c :: rest =>
    "#,[]\x7b\x7d&*!|>'\"%@`".toList.contains c ||
      ((c == '?' || c == ':' || c == '-') && isGap rest.head?) ||
      cs.take 3 == ['-', '-', '-'] || cs.take 3 == ['.', '.', '.']

/-- Whether a text holds a colon before a gap or a number sign after one. -/
def holdsMark : List Char → Bool
  | c :: d :: rest =>
    (c == ':' && isGap (some d)) || (d == '#' && isGap (some c)) || holdsMark (d :: rest)
  | [c] => c == ':'
  | [] => false

/-- Whether a character has to be escaped. -/
def needsEscape (c : Char) : Bool := c != '\n' && !(0x20 ≤ c.toNat && c.toNat ≤ 0x7e)

/-- Whether the first of two neighbouring characters ever has the given form. -/
def anyPair (test : Char → Char → Bool) : List Char → Bool
  | c :: d :: rest => test c d || anyPair test (d :: rest)
  | _ => false

def isSpaceOrBreak (c : Char) : Bool := c == ' ' || (c != '\r' && isBreak c)

/-- Whether a text is written on several lines. -/
def isMultiline (cs : List Char) : Bool := cs.any fun c => c != '\r' && isBreak c

/-- Whether a text may be written plain in a block. -/
def allowsPlain (cs : List Char) : Bool :=
  !(cs.any needsEscape || isMultiline cs || beginsWithMark cs || holdsMark cs ||
    cs.head?.any isSpaceOrBreak || cs.getLast?.any isSpaceOrBreak)

/-- Whether a text may be written in single quotes: nothing in it is escaped, and no space stands
beside a line break. -/
def allowsSingle (cs : List Char) : Bool :=
  !(cs.any needsEscape ||
    anyPair (fun c d => (c == ' ' && d == '\n') || (c == '\n' && d == ' ')) cs)

/-- The style of a text, which reads back as a text only if `implicit` holds of its plain form. -/
def styleOf (implicit key : Bool) (cs : List Char) : Style :=
  if implicit && !(key && (cs.isEmpty || isMultiline cs)) && allowsPlain cs then .plain
  else if allowsSingle cs && !(key && isMultiline cs) then .single
  else .double

/-! ## Writing scalars -/

/-- The runs of a text: maximal runs of spaces, of line breaks, and of other characters. -/
def runs : List Char → List (List Char)
  | [] => []
  | c :: cs =>
    match cs, runs cs with
    | d :: _, r :: rs =>
      if (c == ' ') == (d == ' ') && (c == '\n') == (d == '\n') then (c :: r) :: rs
      else [c] :: r :: rs
    | _, rs => [c] :: rs

/-- Writes a single space, or breaks the line there if it is too wide. -/
def foldSpace (s : Sheet) (indent : Nat) (split : Bool) : Sheet :=
  if width < s.column && split then s.goTo indent else s.put [' ']

/-- Writes a text without quotes. -/
def writePlain (s : Sheet) (indent : Nat) (split : Bool) (cs : List Char) : Sheet :=
  let s := if s.spaced then s else s.put [' ']
  (runs cs).foldl (fun s r => if r == [' '] then (foldSpace s indent split).within else s.put r)
    s.within

/-- Writes line breaks inside single quotes; the first of them is written twice. -/
def writeBreaks (s : Sheet) (indent : Nat) (count : Nat) : Sheet :=
  (Nat.repeat Sheet.lineBreak (count + 1) s).goTo indent

/-- Writes one run of a text in single quotes. Spaces at the ends of the text stay as they are. -/
def writeSingleRun (indent : Nat) (split atEnd : Bool) (s : Sheet) (r : List Char) : Sheet :=
  match r with
  | '\n' :: _ => writeBreaks s indent r.length
  | [' '] => if atEnd then s.put [' '] else foldSpace s indent split
  | _ => s.put (r.flatMap fun c => if c == '\'' then ['\'', '\''] else [c])

/-- Writes the runs of a text in single quotes. -/
def writeSingleRuns (indent : Nat) (split : Bool) (first : Bool) (s : Sheet) :
    List (List Char) → Sheet
  | [] => s
  | r :: rs =>
    writeSingleRuns indent split false (writeSingleRun indent split (first || rs.isEmpty) s r) rs

def writeSingle (s : Sheet) (indent : Nat) (split : Bool) (cs : List Char) : Sheet :=
  (writeSingleRuns indent split true (s.mark ['\''] true false) (runs cs)).mark ['\''] false false

/-- Digits of `n` in base sixteen, in capitals. -/
def hexCapitals (digits n : Nat) : List Char := (Text.hexPadded digits n).map Char.toUpper

/-- The characters that have escapes of their own. -/
def escapeNames : List (Nat × Char) :=
  [(0, '0'), (7, 'a'), (8, 'b'), (9, 't'), (10, 'n'), (11, 'v'), (12, 'f'), (13, 'r'), (27, 'e'),
   (34, '"'), (92, '\\'), (0x85, 'N'), (0xa0, '_'), (0x2028, 'L'), (0x2029, 'P')]

/-- The escape of a character, if it has to be escaped in double quotes. -/
def doubleEscape? (c : Char) : Option (List Char) :=
  let n := c.toNat
  if 0x20 ≤ n ∧ n ≤ 0x7e ∧ c ≠ '"' ∧ c ≠ '\\' then none
  else
    match escapeNames.lookup n with
    | some e => some ['\\', e]
    | none =>
      if n ≤ 0xff then some ('\\' :: 'x' :: hexCapitals 2 n)
      else if n ≤ 0xffff then some ('\\' :: 'u' :: hexCapitals 4 n)
      else some ('\\' :: 'U' :: hexCapitals 8 n)

/-- Breaks the line after a backslash; a space at the start of the next line is escaped. -/
def breakDouble (s : Sheet) (indent : Nat) (next : Option Char) : Sheet :=
  let s := ((s.put ['\\']).goTo indent).within
  if next == some ' ' then s.put ['\\'] else s

/-- Writes the characters of a text in double quotes. `pending` holds, last one first, characters
that wait to be written together. A line that gets too wide is broken at a space or beside an
escape; the last place of an escape does not count. -/
def writeDoubleChars (indent : Nat) (split : Bool) (first : Bool) (s : Sheet)
    (pending : List Char) : List Char → Sheet
  | [] => s.put pending.reverse
  | c :: cs =>
    let mayBreak := !first && !cs.isEmpty && split
    match doubleEscape? c with
    | some e =>
      let s := (s.put pending.reverse).put e
      let s := if mayBreak && width + 1 < s.column then breakDouble s indent cs.head? else s
      writeDoubleChars indent split false s [] cs
    | none =>
      if mayBreak && (c == ' ' || pending.isEmpty) && width < s.column + pending.length then
        writeDoubleChars indent split false (breakDouble (s.put pending.reverse) indent (some c))
          [c] cs
      else writeDoubleChars indent split false s (c :: pending) cs

def writeDouble (s : Sheet) (indent : Nat) (split : Bool) (cs : List Char) : Sheet :=
  (writeDoubleChars indent split true (s.mark ['"'] true false) [] cs).mark ['"'] false false

/-- Writes a text in its style; the key of an entry stays on one line. -/
def writeText (s : Sheet) (indent : Nat) (implicit key : Bool) (text : String) : Sheet :=
  let cs := text.toList
  match styleOf implicit key cs with
  | .plain => writePlain s indent (!key) cs
  | .single => writeSingle s indent (!key) cs
  | .double => writeDouble s indent (!key) cs

/-- The layout of numbers: as everywhere, but for the names of the numbers that are not finite. -/
def numberLayout : NumberLayout :=
  { NumberLayout.standard with infinity := ".inf", notANumber := ".nan" }

/-- The text of a number. One with an exponent has a point before it. -/
def doubleText (x : Double) : String :=
  let text := x.textIn numberLayout
  if text.contains '.' then text
  else String.ofList (text.toList.flatMap fun c => if c == 'e' then ['.', '0', 'e'] else [c])

/-- The text of a scalar other than octets, and the name of its kind. -/
def scalar? : Value → Option (String × String)
  | .null => some ("null", "null")
  | .bool b => some (if b then "true" else "false", "bool")
  | .int i => some (toString i, "int")
  | .double x => some (doubleText x, "float")
  | .text s => some (s, "str")
  | .date d => some (d.iso, "timestamp")
  | .moment m => some (m.text " ", "timestamp")
  | _ => none

/-! ## Octets -/

/-- The character of a number below 64. -/
def sextetChar (n : Nat) : Char :=
  if n < 26 then Char.ofNat ('A'.toNat + n)
  else if n < 52 then Char.ofNat ('a'.toNat + (n - 26))
  else if n < 62 then Char.ofNat ('0'.toNat + (n - 52))
  else if n = 62 then '+' else '/'

/-- Octets in base sixty-four, padded to groups of four characters. -/
def encodeSextets : List UInt8 → List Char
  | a :: b :: c :: rest =>
    let n := a.toNat * 65536 + b.toNat * 256 + c.toNat
    sextetChar (n / 262144) :: sextetChar (n / 4096 % 64) :: sextetChar (n / 64 % 64) ::
      sextetChar (n % 64) :: encodeSextets rest
  | [a, b] =>
    let n := a.toNat * 1024 + b.toNat * 4
    [sextetChar (n / 4096), sextetChar (n / 64 % 64), sextetChar (n % 64), '=']
  | [a] =>
    let n := a.toNat * 16
    [sextetChar (n / 64), sextetChar (n % 64), '=', '=']
  | [] => []

/-- Pieces of at most `size` elements. -/
def pieces (size : Nat) : Nat → List Char → List (List Char)
  | 0, _ => []
  | fuel + 1, cs => if cs.isEmpty then [] else cs.take size :: pieces size fuel (cs.drop size)

/-- Writes octets as lines of base sixty-four. -/
def writeOctets (s : Sheet) (indent : Nat) (bs : List UInt8) : Sheet :=
  let s := s.mark "!!binary".toList true false
  if bs.isEmpty then (s.mark ['"'] true false).mark ['"'] false false
  else
    let cs := encodeSextets bs
    (pieces 76 (cs.length + 1) cs).foldl (fun s line => ((s.goTo indent).put line).lineBreak)
      (s.mark ['|'] true false).lineBreak

/-! ## Objects that occur again -/

/-- The objects that have occurred, and those that have occurred again, the last one first. -/
structure Occurrences where
  seen : List Nat := []
  repeated : List Nat := []

/-- Another occurrence of an object. -/
def Occurrences.repeat (o : Occurrences) (m : Nat) : Occurrences :=
  if o.repeated.contains m then o else { o with repeated := m :: o.repeated }

mutual

/-- Goes through a value and finds the objects that occur again. -/
def occurrences (o : Occurrences) : Value → Occurrences
  | .list xs | .tuple xs | .set xs | .unordered xs | .frozen xs => occurrencesAll o xs
  | .mapping es => occurrencesEntries o es
  | .marked m v =>
    if o.seen.contains m then o.repeat m else occurrences { o with seen := m :: o.seen } v
  | .again m _ => o.repeat m
  | _ => o

def occurrencesAll (o : Occurrences) : List Value → Occurrences
  | [] => o
  | x :: xs => occurrencesAll (occurrences o x) xs

def occurrencesEntries (o : Occurrences) : List (Value × Value) → Occurrences
  | [] => o
  | (k, v) :: es => occurrencesEntries (occurrences (occurrences o k) v) es

end

/-- The name of the anchor of a repeated object: its number with three digits at least. -/
def anchorText (s : Sheet) (m : Nat) : List Char :=
  let digits := (toString (s.repeated.idxOf m + 1)).toList
  "id".toList ++ List.replicate (3 - digits.length) '0' ++ digits

/-- Writes the alias of an object. -/
def writeAlias (s : Sheet) (m : Nat) : Sheet := s.mark ('*' :: anchorText s m) true false

/-- Writes the anchor of an object that will occur again. -/
def writeAnchor (s : Sheet) (m : Nat) : Sheet :=
  if s.repeated.contains m then
    { s.mark ('&' :: anchorText s m) true false with anchored := m :: s.anchored }
  else s

/-! ## Writing nodes -/

/-- The column of what is written inside a block at `indent`; `none` is outside of all blocks. -/
def inner : Option Nat → Nat
  | none => 0
  | some n => n + 2

/-- The column on which a scalar goes on inside a block at `indent`. -/
def scalarIndent (indent : Option Nat) : Nat := indent.getD 0 + 2

/-- Whether a key is written on one line before its colon: a short scalar on one line. -/
def isSimpleKey (key : Value) : Bool :=
  match scalar? key.bare with
  | none => false
  | some (text, kind) =>
    let cs := text.toList
    cs.length + kind.length + 2 < 128 && !cs.isEmpty && !isMultiline cs

/-- Writes a scalar, or an empty collection. -/
def writeScalar (s : Sheet) (indent : Option Nat) (key : Bool) (v : Value) : Sheet :=
  match scalar? v with
  | some (text, kind) =>
    writeText s (scalarIndent indent) (kind != "str" || Tag.ofPlain text == .text) key text
  | none => s

def writeEmpty (s : Sheet) (brackets : String) : Sheet := s.mark brackets.toList true false

/-- Goes to the line of an item and marks it. -/
def markItem (s : Sheet) (column : Nat) : Sheet := (s.goTo column).mark ['-'] true true

/-- Marks a key that takes lines of its own. -/
def markKey (s : Sheet) : Sheet := s.mark ['?'] true true

/-- Marks the value of such a key. -/
def markValue (s : Sheet) (column : Nat) : Sheet := (s.goTo column).mark [':'] true true

/-- Writes a key on one line, up to its colon. -/
def writeSimpleKey (s : Sheet) (column : Nat) (key : Value) : Sheet :=
  let s := match key with
    | .marked m v =>
      if s.anchored.contains m then writeAlias s m
      else writeScalar (writeAnchor s m) (some column) true v
    | v => writeScalar s (some column) true v
  s.mark [':'] false false

mutual

/-- Writes a value inside a block at `indent`. A list under a key is not indented unless the line is
still fresh. -/
def writeValue (underKey : Bool) (indent : Option Nat) (s : Sheet) : Value → Sheet
  | .list xs | .tuple xs =>
    if xs.isEmpty then writeEmpty s "[]"
    else writeItems (if underKey && !s.fresh then indent.getD 0 else inner indent) s xs
  | .mapping es =>
    if es.isEmpty then writeEmpty s "\x7b\x7d" else writeEntries (inner indent) s es
  | .unordered xs =>
    let s := s.mark "!!set".toList true false
    if xs.isEmpty then writeEmpty s "\x7b\x7d" else writeKeys (inner indent) s xs
  | .bytes bs => writeOctets s (scalarIndent indent) bs
  | .marked m v =>
    if s.anchored.contains m then writeAlias s m
    else writeValue underKey indent (writeAnchor s m) v
  | .again m _ => writeAlias s m
  | v => writeScalar s indent false v

def writeItems (column : Nat) (s : Sheet) : List Value → Sheet
  | [] => s
  | x :: xs => writeItems column (writeValue false (some column) (markItem s column) x) xs

def writeEntries (column : Nat) (s : Sheet) : List (Value × Value) → Sheet
  | [] => s
  | (k, v) :: es =>
    let s := s.goTo column
    let s :=
      if isSimpleKey k then writeSimpleKey s column k
      else markValue (writeValue true (some column) (markKey s) k) column
    writeEntries column (writeValue true (some column) s v) es

/-- Writes the elements of a set as keys without values. -/
def writeKeys (column : Nat) (s : Sheet) : List Value → Sheet
  | [] => s
  | k :: ks =>
    let s := s.goTo column
    let s :=
      if isSimpleKey k then writeSimpleKey s column k
      else markValue (writeValue true (some column) (markKey s) k) column
    writeKeys column (writeScalar s (some column) false .null) ks

end

/-- The YAML text of a value, which ends with a line break. -/
def write (v : Value) : String :=
  let repeated := (occurrences {} v).repeated.reverse
  String.ofList ((writeValue false none { repeated } v).goTo 0).written.reverse

end SchemaModel.Yaml
