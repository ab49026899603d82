import SchemaModel.Yaml.ScalarText

/-!
The tokens of a YAML text. Blocks have no closing marks; their ends follow from the indentation.
That a text is a key shows only at the colon after it, so places where a key may begin are kept in
mind until then, and the tokens from there on are held back.
-/
namespace SchemaModel.Yaml

/-- A tag as written: the handle before the last mark, if any, and the rest. -/
structure TagText where
  handle : Option String
  suffix : String
  deriving Repr

inductive Directive
  | version (major : Nat)
  | tag (handle : String) (replacement : String)
  | other
  deriving Repr

inductive Token
  | directive (d : Directive)
  | documentStart | documentEnd | streamEnd
  | blockSequenceStart | blockMappingStart | blockEnd
  | flowSequenceStart | flowSequenceEnd | flowMappingStart | flowMappingEnd
  | blockEntry | flowEntry | key | value
  | alias (name : String)
  | anchor (name : String)
  | tag (t : TagText)
  | scalar (plain : Bool) (text : String)
  deriving Repr

/-- The tokens of a text as far as it can be read, and what is wrong with the rest. Nothing is wrong
until the last of the tokens has been taken. -/
structure TokenStream where
  tokens : List Token
  fault : Option Error := none

/-! ## Names, tags and directives -/

/-- Reads the name of an anchor or alias, given the place after its mark. -/
def anchorName (p : Cursor) : Except Error (String × Cursor) :=
  let (cs, p) := p.span isNameChar
  let ends := isGap p.peek || p.peek.any "?:,]\x7d%@`".toList.contains
  if cs.isEmpty || !ends then .error .malformed else .ok (String.ofList cs, p)

/-- Characters of the name of a resource. -/
def isUriChar (c : Char) : Bool := c.isAlphanum || "-;/?:@&=+$,_.!~*'()[]%".toList.contains c

/-- Reads octets escaped by percent signs. -/
def uriEscapes : Nat → Cursor → Except Error (List UInt8 × Cursor)
  | 0, p => .ok ([], p)
  | fuel + 1, p =>
    match p.rest with
    | '%' :: a :: b :: _ =>
      match Numeral.digitIn? 16 a, Numeral.digitIn? 16 b with
      | some m, some n =>
        if a.toNat < 0x80 && b.toNat < 0x80 then do
          let (bs, p) ← uriEscapes fuel (p.forward 3)
          return (UInt8.ofNat (m * 16 + n) :: bs, p)
        else .error .malformed
      | _, _ => .error .malformed
    | '%' :: _ => .error .malformed
    | _ => .ok ([], p)

/-- Reads the name of a resource. -/
def uriText : Nat → Cursor → Except Error (List Char × Cursor)
  | 0, p => .ok ([], p)
  | fuel + 1, p =>
    let (cs, p) := p.span fun c => isUriChar c && c != '%'
    if p.sees '%' then do
      let (bs, p) ← uriEscapes (p.rest.length + 1) p
      match String.fromUTF8? ⟨bs.toArray⟩ with
      | none => throw .malformed
      | some s => do
        let (more, p) ← uriText fuel p
        return (cs ++ s.toList ++ more, p)
    else .ok (cs, p)

def uri (p : Cursor) : Except Error (String × Cursor) := do
  let (cs, p) ← uriText (p.rest.length + 1) p
  if cs.isEmpty then throw .malformed
  return (String.ofList cs, p)

/-- Reads a tag handle: one mark alone, or a name between two. -/
def tagHandle (p : Cursor) : Except Error (String × Cursor) :=
  if !p.sees '!' then .error .malformed
  else if p.peek 1 == some ' ' then .ok ("!", p.next)
  else
    let (cs, q) := p.next.span isNameChar
    if q.sees '!' then .ok (String.ofList ('!' :: cs ++ ['!']), q.next) else .error .malformed

/-- Reads a tag. -/
def tagText (p : Cursor) : Except Error (TagText × Cursor) := do
  let (tag, p) ← match p.peek 1 with
    | some '<' => do
      let (suffix, p) ← uri (p.forward 2)
      if !p.sees '>' then throw .malformed
      pure (⟨none, suffix⟩, p.next)
    | c => do
      if isGap c then pure (⟨none, "!"⟩, p.next)
      else
        let word := p.next.rest.takeWhile fun c => !isWordEnd (some c)
        let (handle, p) ← if word.contains '!' then tagHandle p else pure ("!", p.next)
        let (suffix, p) ← uri p
        pure (⟨some handle, suffix⟩, p)
  if !isWordEnd p.peek then throw .malformed
  return (tag, p)

/-- Reads the digits of a version number. -/
def versionNumber (p : Cursor) : Except Error (Nat × Cursor) :=
  let (ds, p) := p.span Char.isDigit
  if ds.isEmpty then .error .malformed
  else if (Numeral.excess? ds).isSome then .error (.integer 10 (String.ofList ds))
  else .ok (Numeral.natOfDigits ds, p)

/-- Reads a directive, given the place of its mark. -/
def directive (p : Cursor) : Except Error (Directive × Cursor) := do
  let (name, p) := p.next.span isNameChar
  if name.isEmpty || !isWordEnd p.peek then throw .malformed
  let (d, p) ← match String.ofList name with
    | "YAML" => do
      let (major, p) ← versionNumber p.skipSpaces
      if !p.sees '.' then throw .malformed
      let (_, p) ← versionNumber p.next
      if !isWordEnd p.peek then throw .malformed
      pure (.version major, p)
    | "TAG" => do
      let (handle, p) ← tagHandle p.skipSpaces
      if !p.sees ' ' then throw .malformed
      let (replacement, p) ← uri p.skipSpaces
      if !isWordEnd p.peek then throw .malformed
      pure (.tag handle replacement, p)
    | _ => pure (.other, p.skip fun c => !isBreak c)
  return (d, ← p.finishLine)

/-! ## The scanner -/

/-- A place where a key may have begun: the number of its first token and where it stands. A key
must follow if the place is where a line of the block begins. -/
structure KeyPlace where
  token : Nat
  required : Bool
  index : Nat
  line : Nat
  column : Nat
  deriving Repr

/-- The state of reading tokens. -/
structure Scanner where
  cursor : Cursor
  tokens : Array Token := #[]
  /-- The column of the innermost block, `-1` outside of all. -/
  indent : Int := -1
  outer : List Int := []
  /-- The number of open brackets. -/
  flow : Nat := 0
  /-- Whether a key may begin here. -/
  keyAllowed : Bool := true
  /-- The place of the last possible key for each depth of brackets. -/
  keys : List (Nat × KeyPlace) := []
  deriving Repr

namespace Scanner

def push (s : Scanner) (t : Token) : Scanner := { s with tokens := s.tokens.push t }

def forward (s : Scanner) (n : Nat) : Scanner := { s with cursor := s.cursor.forward n }

/-- Skips spaces, comments and line breaks. Outside of brackets a key may begin on a new line. -/
def skipGap : Nat → Scanner → Scanner
  | 0, s => s
  | fuel + 1, s =>
    let p := s.cursor.skipComment
    match p.lineBreak with
    | ([], _) => { s with cursor := p }
    | (_, p) => skipGap fuel { s with cursor := p, keyAllowed := s.keyAllowed || s.flow == 0 }

/-- Forgets the place of a possible key at the present depth; a required one must not be lost. -/
def dropKey (s : Scanner) : Except Error Scanner :=
  match s.keys.lookup s.flow with
  | none => .ok s
  | some k =>
    if k.required then .error .malformed
    else .ok { s with keys := s.keys.filter fun e => e.1 != s.flow }

/-- Whether a place is on another line or too far away for a key to have begun there. -/
def isStale (s : Scanner) (k : KeyPlace) : Bool :=
  k.line != s.cursor.line || 1024 < s.cursor.index - k.index

/-- Forgets the places where no key can have begun any more. -/
def dropStaleKeys (s : Scanner) : Except Error Scanner :=
  if s.keys.any fun e => s.isStale e.2 && e.2.required then .error .malformed
  else .ok { s with keys := s.keys.filter fun e => !s.isStale e.2 }

/-- The tokens in front of the first place where a key may have begun: no later token can change
them. -/
def settled (s : Scanner) : List Token :=
  let pending := (s.keys.filter fun e => !s.isStale e.2).map fun e => e.2.token
  s.tokens.toList.take (pending.foldl min s.tokens.size)

/-- Keeps in mind that a key may begin with the next token. -/
def saveKey (s : Scanner) : Except Error Scanner := do
  if !s.keyAllowed then return s
  let required := s.flow == 0 && s.indent == s.cursor.column
  let s ← s.dropKey
  let place : KeyPlace :=
    ⟨s.tokens.size, required, s.cursor.index, s.cursor.line, s.cursor.column⟩
  return { s with keys := (s.flow, place) :: s.keys }

/-- Closes the blocks that are indented further than `column`. -/
def closeBlocks (column : Int) : Nat → Scanner → Scanner
  | 0, s => s
  | fuel + 1, s =>
    if s.flow == 0 && column < s.indent then
      closeBlocks column fuel
        { s.push .blockEnd with indent := s.outer.headD (-1), outer := s.outer.tail }
    else s

def unwind (s : Scanner) (column : Int) : Scanner := closeBlocks column (s.outer.length + 1) s

/-- Opens a block at a column, unless one is open there; `place` is where its token goes. -/
def openBlock (s : Scanner) (column : Nat) (start : Token) (place : Nat) : Scanner :=
  if s.indent < column then
    { s with indent := column, outer := s.indent :: s.outer,
             tokens := s.tokens.insertIdxIfInBounds place start }
  else s

/-- The end of all blocks: before directives, document marks and the end of the text. -/
def endBlocks (s : Scanner) : Except Error Scanner := do
  let s ← (s.unwind (-1)).dropKey
  return { s with keyAllowed := false }

/-- Reads an opening bracket. -/
def openFlow (s : Scanner) (t : Token) : Except Error Scanner := do
  let s ← s.saveKey
  return { (s.push t).forward 1 with flow := s.flow + 1, keyAllowed := true }

/-- Reads a closing bracket. -/
def closeFlow (s : Scanner) (t : Token) : Except Error Scanner := do
  let s ← s.dropKey
  return { (s.push t).forward 1 with flow := s.flow - 1, keyAllowed := false }

/-- Reads the mark of an entry or of a key, which may open a block. -/
def blockMark (s : Scanner) (start t : Token) (keyAllowed : Bool) : Except Error Scanner := do
  if s.flow == 0 && !s.keyAllowed then throw .malformed
  let s := if s.flow == 0 then s.openBlock s.cursor.column start s.tokens.size else s
  let s ← s.dropKey
  return { (s.push t).forward 1 with keyAllowed }

/-- Reads the mark of a value. If a key may have begun before it, the key's token is put there. -/
def valueMark (s : Scanner) : Except Error Scanner := do
  match s.keys.lookup s.flow with
  | some k =>
    let s := { s with keys := s.keys.filter fun e => e.1 != s.flow
                      tokens := s.tokens.insertIdxIfInBounds k.token .key
                      keyAllowed := false }
    let s := if s.flow == 0 then s.openBlock k.column .blockMappingStart k.token else s
    return (s.push .value).forward 1
  | none => s.blockMark .blockMappingStart .value (s.flow == 0)

/-- Reads a token that may be a key by itself. -/
def keyToken (s : Scanner) (read : Cursor → Except Error (Token × Cursor)) :
    Except Error Scanner := do
  let s ← s.saveKey
  let (t, p) ← read s.cursor
  return { s.push t with cursor := p, keyAllowed := false }

/-- Reads a quoted scalar. -/
def quotedToken (double : Bool) (p : Cursor) : Except Error (Token × Cursor) := do
  let (cs, p) ← quotedText double (p.rest.length + 1) p.next
  return (.scalar false (String.ofList cs), p)

/-- Reads a block scalar. -/
def blockToken (s : Scanner) (folded : Bool) : Except Error Scanner := do
  let s ← { s with keyAllowed := true }.dropKey
  let (cs, p) ← blockText folded s.indent s.cursor.next
  return { s.push (.scalar false (String.ofList cs)) with cursor := p }

/-- Reads a plain scalar. -/
def plainToken (s : Scanner) : Except Error Scanner := do
  let s ← s.saveKey
  let t := plainText (s.flow != 0) (s.indent + 1).toNat (s.cursor.rest.length + 1) [] false s.cursor
  return { s.push (.scalar true (String.ofList t.text)) with cursor := t.after,
                                                             keyAllowed := t.newLine }

/-- Whether a plain scalar may begin here. -/
def seesPlain (s : Scanner) : Bool :=
  match s.cursor.peek with
  | none => false
  | some c =>
    (!isGap (some c) && !"-?:,[]\x7b\x7d#&*!|>'\"%@`".toList.contains c) ||
      (!isGap (s.cursor.peek 1) && (c == '-' || (s.flow == 0 && (c == '?' || c == ':'))))

/-- Reads the next tokens at a character that is neither blank nor the end of the text. -/
def tokenAt (s : Scanner) (c : Char) : Except Error Scanner := do
  let p := s.cursor
  let inBlock := s.flow == 0
  let beforeGap := isGap (p.peek 1)
  if p.column == 0 && c == '%' then
    let s ← s.endBlocks
    let (d, p) ← directive s.cursor
    return { s.push (.directive d) with cursor := p }
  if p.column == 0 && p.seesMark '-' then return ((← s.endBlocks).push .documentStart).forward 3
  if p.column == 0 && p.seesMark '.' then return ((← s.endBlocks).push .documentEnd).forward 3
  match c with
  | '[' => s.openFlow .flowSequenceStart
  | '\x7b' => s.openFlow .flowMappingStart
  | ']' => s.closeFlow .flowSequenceEnd
  | '\x7d' => s.closeFlow .flowMappingEnd
  | ',' => do
    let s ← { s with keyAllowed := true }.dropKey
    return (s.push .flowEntry).forward 1
  | '*' => s.keyToken fun p => do
    let (name, p) ← anchorName p.next
    return (.alias name, p)
  | '&' => s.keyToken fun p => do
    let (name, p) ← anchorName p.next
    return (.anchor name, p)
  | '!' => s.keyToken fun p => do
    let (t, p) ← tagText p
    return (.tag t, p)
  | '\'' => s.keyToken (quotedToken false)
  | '"' => s.keyToken (quotedToken true)
  | _ =>
    if c == '-' && beforeGap then s.blockMark .blockSequenceStart .blockEntry true
    else if c == '?' && (!inBlock || beforeGap) then s.blockMark .blockMappingStart .key inBlock
    else if c == ':' && (!inBlock || beforeGap) then s.valueMark
    else if c == '|' && inBlock then s.blockToken false
    else if c == '>' && inBlock then s.blockToken true
    else if s.seesPlain then s.plainToken
    else throw .malformed

/-- Reads the next tokens, or those that end the text; says whether it has ended. -/
def step (s : Scanner) : Except Error (Scanner × Bool) := do
  let s ← (skipGap (s.cursor.rest.length + 1) s).dropStaleKeys
  let s := s.unwind s.cursor.column
  match s.cursor.peek with
  | none => return ((← s.endBlocks).push .streamEnd, true)
  | some c => return (← s.tokenAt c, false)

/-- Reads tokens up to the end of the text or to a fault. Every step reads at least one
character. -/
def run : Nat → Scanner → TokenStream
  | 0, s => { tokens := s.settled, fault := some .malformed }
  | fuel + 1, s =>
    match s.step with
    | .error e => { tokens := s.settled, fault := some e }
    | .ok (s, true) => { tokens := s.tokens.toList }
    | .ok (s, false) => run fuel s

end Scanner

/-- Characters that a text may hold. -/
def isAllowed (c : Char) : Bool :=
  let n := c.toNat
  n == 0x9 || n == 0xa || n == 0xd || (0x20 ≤ n && n ≤ 0x7e) || n == 0x85 ||
    (0xa0 ≤ n && n ≤ 0xd7ff) || (0xe000 ≤ n && n ≤ 0xfffd) || 0x10000 ≤ n

/-- The tokens of a text. A byte order mark may stand at its start. -/
def tokens (text : String) : TokenStream :=
  let cs := text.toList
  if !cs.all isAllowed then { tokens := [], fault := some .malformed }
  else
    let p := Cursor.start cs
    Scanner.run (cs.length + 2) { cursor := if p.sees '\ufeff' then p.next else p }

end SchemaModel.Yaml
