import SchemaModel.Document.Basic
import SchemaModel.Number.Numeral
import SchemaModel.Text.Quoted
import SchemaModel.Value.Equality

/-!
Pointers into a document. A pointer is a text: the mark `#` and then, for each step, a slash and a
token. A slash or a tilde inside a token is written with a tilde and a digit.
-/
namespace SchemaModel.Pointer

/-- A token in its written form. -/
def escape : List Char → List Char
  | [] => []
  | '~' :: cs => '~' :: '0' :: escape cs
  | '/' :: cs => '~' :: '1' :: escape cs
  | c :: cs => c :: escape cs

/-- A token from its written form. A tilde before anything but the two digits stands for itself. -/
def unescape : List Char → List Char
  | [] => []
  | '~' :: '1' :: cs => '/' :: unescape cs
  | '~' :: '0' :: cs => '~' :: unescape cs
  | c :: cs => c :: unescape cs

theorem unescape_escape (cs : List Char) : unescape (escape cs) = cs := by
  fun_induction escape cs with
  | case1 => rfl
  | case2 cs ih => simp [unescape, ih]
  | case3 cs ih => simp [unescape, ih]
  | case4 c cs h1 h2 ih =>
    have : unescape (c :: escape cs) = c :: unescape (escape cs) := by
      rw [unescape]
      · exact fun _ hc _ => h1 hc
      · exact fun _ hc _ => h1 hc
    rw [this, ih]

/-- The parts of a text between separators; there is always one. -/
def split (sep : Char) : List Char → List (List Char)
  | [] => [[]]
  | c :: cs =>
    if c = sep then [] :: split sep cs
    else match split sep cs with
      | [] => [[c]]
      | part :: parts => (c :: part) :: parts

/-- The pointer to the whole document. -/
def root : String := "#"

/-- The pointer to a property below a pointer. -/
def property (pointer name : String) : String :=
  pointer ++ "/properties/" ++ String.ofList (escape name.toList)

/-- The pointer to the items below a pointer. -/
def items (pointer : String) : String := pointer ++ "/items"

/-- Why a pointer leads nowhere. -/
inductive Error
  /-- It does not point into the document. -/
  | external
  | unresolvable
  /-- A token of digits that is no number: one of them has no place value, or there are too many. -/
  | index (token : String)
  deriving DecidableEq, Repr

/-- The place in a list that a token of digits names. -/
def index? (token : List Char) : Option Nat :=
  match Numeral.excess? token with
  | some _ => none
  | none => Numeral.digitsFrom? 10 0 token

/-- One step: a key of a mapping, or the place in a list. -/
def step (document : Document) (target : Value) (token : List Char) : Except Error Value :=
  match document.content target with
  | .mapping entries =>
    match Value.entry? (String.ofList token) entries with
    | some v => .ok v
    | none => .error .unresolvable
  | .list xs =>
    if !token.isEmpty && token.all Text.isDigitLike then
      match index? token with
      | none => .error (.index (String.ofList token))
      | some n =>
        match xs[n]? with
        | some v => .ok v
        | none => .error .unresolvable
    else .error .unresolvable
  | _ => .error .unresolvable

/-- The tokens of a pointer, if it points into the document; the root has none. -/
def tokens? (pointer : String) : Option (List (List Char)) :=
  match pointer.toList with
  | ['#'] => some []
  | '#' :: '/' :: cs => some ((split '/' cs).map unescape)
  | _ => none

/-- The place that a pointer leads to. -/
def resolve (document : Document) (pointer : String) : Except Error Value :=
  match tokens? pointer with
  | none => .error .external
  | some tokens => tokens.foldlM (step document) document.value

end SchemaModel.Pointer
