import SchemaModel.Text.Blank
import SchemaModel.Text.Digit
import SchemaModel.Text.LetterCase

/-!
Shapes of text: what one field of a date pattern may look like. A shape gives, for every text, the
rests after its possible readings, the preferred reading first.
-/
namespace SchemaModel.Pattern

inductive Shape
  | empty
  | one (accepts : Char → Bool)
  | seq (first second : Shape)
  | alt (first second : Shape)

namespace Shape

/-- The rests that remain after reading the shape at the start of a text, by preference. -/
def rests : Shape → List Char → List (List Char)
  | .empty, cs => [cs]
  | .one _, [] => []
  | .one accepts, c :: cs => if accepts c then [cs] else []
  | .seq a b, cs => (a.rests cs).flatMap b.rests
  | .alt a b, cs => a.rests cs ++ b.rests cs

/-- The shape or nothing. -/
def optional (s : Shape) : Shape := .alt s .empty

def char (c : Char) : Shape := .one (· == c)

/-- A digit of any script. -/
def digit : Shape := .one Text.isDecimalDigit

/-- An ASCII character between two others. -/
def between (lo hi : Char) : Shape := .one fun c => lo ≤ c && c ≤ hi

/-- One of several shapes, by preference. -/
def choice : List Shape → Shape
  | [] => .one fun _ => false
  | [s] => s
  | s :: ss => .alt s (choice ss)

def sequence : List Shape → Shape
  | [] => .empty
  | [s] => s
  | s :: ss => .seq s (sequence ss)

/-- Between one and `n + 1` copies, as many as possible. -/
def upTo (s : Shape) : Nat → Shape
  | 0 => s
  | n + 1 => .seq s (optional (upTo s n))

/-- A word without regard to case. -/
def word (w : String) : Shape := sequence (w.toList.map fun c => .one (Text.sameLetter c))

end Shape
end SchemaModel.Pattern
