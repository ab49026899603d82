import SchemaModel.Calendar.Fault
import SchemaModel.Number.Numeral

/-!
A place in a YAML text, and the steps that move it.
-/
namespace SchemaModel.Yaml

/-- Why a YAML text has no value. -/
inductive Error
  /-- The text is no YAML document, or holds a node of an unknown kind. -/
  | malformed
  /-- An escape names a code point that does not exist. -/
  | codePoint
  /-- An escape names a number beyond those that a code point may have. -/
  | hugeCodePoint
  /-- A node declared as an integer holds something else, or too many digits. -/
  | integer (base : Nat) (text : String)
  /-- A node declared as a number holds something else. -/
  | double (text : String)
  /-- A node declared as a number holds no digit at all. -/
  | noDigits
  /-- A node declared as a truth value holds something else. -/
  | truthValue
  /-- A node declared as a date holds something else. -/
  | timestamp
  /-- A node declared as a date is a mapping with a default value. -/
  | timestampMapping
  /-- A date that does not exist. -/
  | date (cause : DateFault)
  /-- A mapping is its own default value. -/
  | endless
  deriving DecidableEq, Repr

def Error.message : Error → String
  | .codePoint => "chr() arg not in range(0x110000)"
  | .integer base text => Numeral.intMessage base text
  | .double text => "could not convert string to float: " ++ Text.quoted text
  | .date cause => cause.message
  | .malformed | .hugeCodePoint | .noDigits | .truthValue | .timestamp | .timestampMapping
  | .endless => ""

/-- What is left of a text, and how much has been read of it and of its current line. -/
structure Cursor where
  rest : List Char
  index : Nat
  line : Nat
  column : Nat
  deriving Repr

/-- Characters that end a line. -/
def isBreak (c : Char) : Bool :=
  c == '\n' || c == '\r' || c.toNat == 0x85 || c.toNat == 0x2028 || c.toNat == 0x2029

/-- The end of the text or of a line. -/
def isLineEnd : Option Char → Bool
  | none => true
  | some c => isBreak c

/-- The end of the text or of a line, or a space. -/
def isWordEnd : Option Char → Bool
  | none => true
  | some c => c == ' ' || isBreak c

/-- The end of the text or of a line, a space or a tab. -/
def isGap : Option Char → Bool
  | none => true
  | some c => c == ' ' || c == '\t' || isBreak c

/-- Characters of names: of anchors, directives and tag handles. -/
def isNameChar (c : Char) : Bool := c.isAlphanum || c == '-' || c == '_'

namespace Cursor

def start (cs : List Char) : Cursor := ⟨cs, 0, 0, 0⟩

/-- The character `k` places ahead. -/
def peek (p : Cursor) (k : Nat := 0) : Option Char := p.rest[k]?

def atEnd (p : Cursor) : Bool := p.rest.isEmpty

/-- Whether the next character is `c`. -/
def sees (p : Cursor) (c : Char) : Bool := p.peek == some c

/-- Moves past one character. A carriage return ends a line unless a line feed follows it. -/
def next (p : Cursor) : Cursor :=
  match p.rest with
  | [] => p
  | c :: cs =>
    if isBreak c && !(c == '\r' && cs.head? == some '\n') then ⟨cs, p.index + 1, p.line + 1, 0⟩
    else ⟨cs, p.index + 1, p.line, if c == '\ufeff' then p.column else p.column + 1⟩

def forward (p : Cursor) : Nat → Cursor
  | 0 => p
  | n + 1 => p.next.forward n

/-- The longest run of characters that satisfy a test, and the place after it. -/
def span (p : Cursor) (test : Char → Bool) : List Char × Cursor :=
  let cs := p.rest.takeWhile test
  (cs, p.forward cs.length)

def skip (p : Cursor) (test : Char → Bool) : Cursor := (p.span test).2

def skipSpaces (p : Cursor) : Cursor := p.skip (· == ' ')

/-- Reads a line break, if there is one. All but two kinds of break are the same. -/
def lineBreak (p : Cursor) : List Char × Cursor :=
  match p.rest with
  | '\r' :: '\n' :: _ => (['\n'], p.forward 2)
  | c :: _ =>
    if c == '\n' || c == '\r' || c.toNat == 0x85 then (['\n'], p.next)
    else if isBreak c then ([c], p.next)
    else ([], p)
  | [] => ([], p)

/-- Whether a mark of three characters stands here on its own. -/
def seesMark (p : Cursor) (mark : Char) : Bool :=
  p.rest.take 3 == [mark, mark, mark] && isGap (p.peek 3)

/-- Whether a document starts or ends here. -/
def seesDocumentMark (p : Cursor) : Bool := p.seesMark '-' || p.seesMark '.'

/-- Skips spaces and a comment. -/
def skipComment (p : Cursor) : Cursor :=
  let p := p.skipSpaces
  if p.sees '#' then p.skip fun c => !isBreak c else p

/-- Reads the rest of a line that must hold nothing but a comment. -/
def finishLine (p : Cursor) : Except Error Cursor :=
  let p := p.skipComment
  if isLineEnd p.peek then .ok p.lineBreak.2 else .error .malformed

end Cursor
end SchemaModel.Yaml
