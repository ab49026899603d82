import SchemaModel.Number.Numeral
import SchemaModel.Yaml.Cursor

/-!
The text of scalars: plain, quoted, and block scalars, with the folding of their lines.
-/
namespace SchemaModel.Yaml

/-! ## Plain scalars -/

/-- The characters of a plain scalar on one line. A colon ends it where a value may follow; inside
brackets the marks of collections end it too. -/
def plainRun (inFlow : Bool) : List Char → List Char
  | [] => []
  | c :: cs =>
    let colon :=
      c == ':' && (isGap cs.head? || (inFlow && cs.head?.any ",[]\x7b\x7d".toList.contains))
    if isGap (some c) || colon || (inFlow && ",?[]\x7b\x7d".toList.contains c) then []
    else c :: plainRun inFlow cs

/-- Reads spaces and line breaks between the lines of a plain scalar: the breaks, and whether a
document mark stops the scalar. -/
def plainBreaks : Nat → Cursor → List Char × Bool × Cursor
  | 0, p => ([], false, p)
  | fuel + 1, p =>
    let p := p.skipSpaces
    match p.lineBreak with
    | ([], _) => ([], false, p)
    | (b, p) =>
      if p.seesDocumentMark then ([], true, p)
      else
        let (bs, stop, p) := plainBreaks fuel p
        (b ++ bs, stop, p)

/-- A break between two lines and the empty lines after it: a plain break alone becomes a space. -/
def fold (first breaks : List Char) : List Char :=
  if first != ['\n'] then first ++ breaks
  else if breaks.isEmpty then [' ']
  else breaks

/-- What separates two parts of a plain scalar, whether a line was ended, and the place after it. -/
structure PlainGap where
  text : List Char
  newLine : Bool
  after : Cursor

/-- Reads the gap after a part of a plain scalar. -/
def plainGap (p : Cursor) : PlainGap :=
  let (spaces, p) := p.span (· == ' ')
  match p.lineBreak with
  | ([], _) => ⟨spaces, false, p⟩
  | (b, p) =>
    if p.seesDocumentMark then ⟨[], true, p⟩
    else
      let (bs, stop, p) := plainBreaks (p.rest.length + 1) p
      ⟨if stop then [] else fold b bs, true, p⟩

/-- What has been read of a plain scalar: its text, the place after it, and whether it ended at the
start of a line. -/
structure PlainText where
  text : List Char
  after : Cursor
  newLine : Bool

/-- Reads a plain scalar part by part, `gap` being what goes before the next part. Lines must be
indented by `indent` outside of brackets. -/
def plainText (inFlow : Bool) (indent : Nat) : Nat → List Char → Bool → Cursor → PlainText
  | 0, _, newLine, p => ⟨[], p, newLine⟩
  | fuel + 1, gap, newLine, p =>
    if p.sees '#' then ⟨[], p, newLine⟩
    else
      let run := plainRun inFlow p.rest
      if run.isEmpty then ⟨[], p, newLine⟩
      else
        let g := plainGap (p.forward run.length)
        let part := gap ++ run
        if g.text.isEmpty || g.after.sees '#' || (!inFlow && g.after.column < indent) then
          ⟨part, g.after, g.newLine⟩
        else
          let more := plainText inFlow indent fuel g.text g.newLine g.after
          { more with text := part ++ more.text }

/-! ## Quoted scalars -/

/-- The characters that short escapes stand for. -/
def escapes : List (Char × Nat) :=
  [('0', 0), ('a', 7), ('b', 8), ('t', 9), ('\t', 9), ('n', 10), ('v', 11), ('f', 12), ('r', 13),
   ('e', 27), (' ', 32), ('"', 34), ('\\', 92), ('/', 47), ('N', 0x85), ('_', 0xa0), ('L', 0x2028),
   ('P', 0x2029)]

/-- The number of digits after the mark of a long escape. -/
def escapeDigits? : Char → Option Nat
  | 'x' => some 2
  | 'u' => some 4
  | 'U' => some 8
  | _ => none

/-- The character that digits in base sixteen name. -/
def codePoint (ds : List Char) : Except Error Char :=
  if !ds.all fun c => c.toNat < 0x80 && (Numeral.digitIn? 16 c).isSome then .error .malformed
  else
    let n := ds.foldl (fun n c => n * 16 + (Numeral.digitIn? 16 c).getD 0) 0
    if n < 0x110000 then .ok (Char.ofNat n)
    else if n < 0x80000000 then .error .codePoint
    else .error .hugeCodePoint

/-- Reads the breaks between the lines of a quoted scalar, with the spaces around them. -/
def quotedBreaks : Nat → Cursor → Except Error (List Char × Cursor)
  | 0, p => .ok ([], p)
  | fuel + 1, p => do
    if p.seesDocumentMark then throw .malformed
    let p := p.skip fun c => c == ' ' || c == '\t'
    match p.lineBreak with
    | ([], _) => return ([], p)
    | (b, p) => do
      let (bs, p) ← quotedBreaks fuel p
      return (b ++ bs, p)

/-- Reads an escape, given the place after its backslash. -/
def escape (p : Cursor) : Except Error (List Char × Cursor) := do
  match p.peek with
  | none => throw .malformed
  | some c =>
    if let some n := escapes.lookup c then return ([Char.ofNat n], p.next)
    if let some count := escapeDigits? c then
      let ds := p.next.rest.take count
      if ds.length < count then throw .malformed
      return ([← codePoint ds], p.next.forward count)
    if isBreak c then
      let p := p.lineBreak.2
      return ← quotedBreaks (p.rest.length + 1) p
    throw .malformed

/-- Reads the spaces inside a quoted scalar. A line break there folds. -/
def quotedSpaces (p : Cursor) : Except Error (List Char × Cursor) := do
  let (spaces, p) := p.span fun c => c == ' ' || c == '\t'
  if p.atEnd then throw .malformed
  match p.lineBreak with
  | ([], _) => return (spaces, p)
  | (b, p) => do
    let (bs, p) ← quotedBreaks (p.rest.length + 1) p
    return (fold b bs, p)

/-- Reads a quoted scalar after its opening quote, up to and with the closing one. In double quotes
a backslash escapes; in single quotes two quotes stand for one. -/
def quotedText (double : Bool) : Nat → Cursor → Except Error (List Char × Cursor)
  | 0, _ => .error .malformed
  | fuel + 1, p => do
    let quote := if double then '"' else '\''
    match p.peek with
    | none => throw .malformed
    | some c =>
      if c == quote then
        if !double && p.peek 1 == some quote then
          let (cs, p) ← quotedText double fuel (p.forward 2)
          return (quote :: cs, p)
        return ([], p.next)
      else if double && c == '\\' then
        let (e, p) ← escape p.next
        let (cs, p) ← quotedText double fuel p
        return (e ++ cs, p)
      else if isGap (some c) then
        let (g, p) ← quotedSpaces p
        let (cs, p) ← quotedText double fuel p
        return (g ++ cs, p)
      else
        let (cs, p) ← quotedText double fuel p.next
        return (c :: cs, p)

/-! ## Block scalars -/

/-- What happens to the line breaks at the end of a block scalar. -/
inductive Chomping
  | strip | clip | keep
  deriving DecidableEq

/-- The sign that says how a block scalar ends. -/
def chompingSign? : Option Char → Option Chomping
  | some '+' => some .keep
  | some '-' => some .strip
  | _ => none

/-- The digit that says how far a block scalar is indented. -/
def indentDigit? (c : Option Char) : Option Nat :=
  match c with
  | some c => if c.isDigit then some (c.toNat - '0'.toNat) else none
  | none => none

/-- Reads what stands after the mark of a block scalar: a sign and a digit in either order. -/
def blockHeader (p : Cursor) : Except Error (Chomping × Option Nat × Cursor) := do
  let (chomping, indent, p) :=
    match chompingSign? p.peek with
    | some k =>
      match indentDigit? (p.peek 1) with
      | some n => (k, some n, p.forward 2)
      | none => (k, none, p.next)
    | none =>
      match indentDigit? p.peek with
      | some n =>
        match chompingSign? (p.peek 1) with
        | some k => (k, some n, p.forward 2)
        | none => (.clip, some n, p.next)
      | none => (.clip, none, p)
  if indent = some 0 || !isWordEnd p.peek then throw .malformed
  return (chomping, indent, ← p.finishLine)

/-- Reads the empty lines at the head of a block scalar and finds how far its first line is
indented. -/
def blockIndentation : Nat → Nat → Cursor → List Char × Nat × Cursor
  | 0, widest, p => ([], widest, p)
  | fuel + 1, widest, p =>
    if p.sees ' ' then blockIndentation fuel (max widest (p.column + 1)) p.next
    else
      match p.lineBreak with
      | ([], _) => ([], widest, p)
      | (b, p) =>
        let (bs, widest, p) := blockIndentation fuel widest p
        (b ++ bs, widest, p)

/-- Skips spaces up to a column. -/
def skipIndent (indent : Nat) : Nat → Cursor → Cursor
  | 0, p => p
  | fuel + 1, p => if p.column < indent && p.sees ' ' then skipIndent indent fuel p.next else p

/-- Reads empty lines between the lines of a block scalar. -/
def blockBreaks (indent : Nat) : Nat → Cursor → List Char × Cursor
  | 0, p => ([], p)
  | fuel + 1, p =>
    let p := skipIndent indent (p.rest.length + 1) p
    match p.lineBreak with
    | ([], _) => ([], p)
    | (b, p) =>
      let (bs, p) := blockBreaks indent fuel p
      (b ++ bs, p)

def isSpaceOrTab (c : Option Char) : Bool := c == some ' ' || c == some '\t'

/-- Reads the lines of a block scalar; `breaks` are the empty lines before the next one. In a folded
scalar a break between two lines that begin with no blank becomes a space. -/
def blockLines (folded : Bool) (chomping : Chomping) (indent : Nat) :
    Nat → List Char → Cursor → List Char × Cursor
  | 0, _, p => ([], p)
  | fuel + 1, breaks, p =>
    let blankStart := isSpaceOrTab p.peek
    let (line, p) := p.span fun c => !isBreak c
    let (b, p) := p.lineBreak
    let (more, p) := blockBreaks indent (p.rest.length + 1) p
    if p.column == indent && !p.atEnd then
      let joint :=
        if folded && b == ['\n'] && !blankStart && !isSpaceOrTab p.peek then
          (if more.isEmpty then [' '] else [])
        else b
      let (rest, p) := blockLines folded chomping indent fuel more p
      (breaks ++ line ++ joint ++ rest, p)
    else
      let tail := match chomping with
        | .strip => []
        | .clip => b
        | .keep => b ++ more
      (breaks ++ line ++ tail, p)

/-- Reads a block scalar after its mark, inside a block indented by `parent`. -/
def blockText (folded : Bool) (parent : Int) (p : Cursor) : Except Error (List Char × Cursor) := do
  let (chomping, indent, p) ← blockHeader p
  let least := (max (parent + 1) 1).toNat
  let (breaks, indent, p) :=
    match indent with
    | some n =>
      let indent := least + n - 1
      let (bs, p) := blockBreaks indent (p.rest.length + 1) p
      (bs, indent, p)
    | none =>
      let (bs, widest, p) := blockIndentation (p.rest.length + 1) 0 p
      (bs, max least widest, p)
  if p.column == indent && !p.atEnd then
    return blockLines folded chomping indent (p.rest.length + 1) breaks p
  return (if chomping == .keep then breaks else [], p)

end SchemaModel.Yaml
