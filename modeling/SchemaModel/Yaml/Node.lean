import SchemaModel.Yaml.Scalar
import SchemaModel.Yaml.Token

/-!
The nodes of a YAML document: scalars, sequences and mappings with their kinds, read from tokens.
They form a graph, since an alias stands for the very node that its anchor marks. So a collection
may contain itself.
-/
namespace SchemaModel.Yaml

/-- The place of a node among those of its document, in the order in which they begin. -/
abbrev Place := Nat

inductive Node
  | scalar (tag : Tag) (text : String)
  | sequence (tag : Tag) (items : List Place)
  | mapping (tag : Tag) (entries : List (Place × Place))
  deriving Repr

namespace Node

def tag : Node → Tag
  | .scalar t _ | .sequence t _ | .mapping t _ => t

def withTag (t : Tag) : Node → Node
  | .scalar _ s => .scalar t s
  | .sequence _ ns => .sequence t ns
  | .mapping _ es => .mapping t es

/-- The entries of a mapping; other nodes have none. -/
def entries : Node → List (Place × Place)
  | .mapping _ es => es
  | _ => []

/-- A scalar that is not written. -/
def empty : Node := .scalar .null ""

end Node

/-- The nodes of a document. -/
abbrev Graph := Array Node

namespace Graph

def node (g : Graph) (p : Place) : Node := (g[p]?).getD .empty

def tag (g : Graph) (p : Place) : Tag := (g.node p).tag

def put (g : Graph) (p : Place) (n : Node) : Graph := g.setIfInBounds p n

end Graph

/-- What is left of the tokens, the handles that tags may use, the places of anchors, and the nodes
read so far. -/
structure Source where
  stream : TokenStream
  handles : List (String × String) := []
  anchors : List (String × Place) := []
  graph : Graph := #[]

/-- Actions that read from the tokens. -/
abbrev Parse := StateT Source (Except Error)

/-- The tokens that come next. A fault shows when there are no more tokens before it. -/
def upcoming : Parse (List Token) := do
  let stream := (← get).stream
  match stream.tokens, stream.fault with
  | [], some e => throw e
  | ts, _ => return ts

/-- Passes over the next token. -/
def pass : Parse Unit :=
  modify fun s => { s with stream := { s.stream with tokens := s.stream.tokens.tail } }

/-- Adds a node to the document. -/
def enter (n : Node) : Parse Place := do
  let p := (← get).graph.size
  modify fun s => { s with graph := s.graph.push n }
  return p

/-- Reads a node, or an empty one where the next tokens show that none is written. -/
def nodeUnless (isMissing : List Token → Bool) (read : Parse Place) : Parse Place := do
  if isMissing (← upcoming) then enter .empty else read

/-! ## Anchors and tags -/

/-- Handles that need no declaration. -/
def standardHandles : List (String × String) := [("!", "!"), ("!!", standardTags)]

/-- The full name of a tag. -/
def fullTag (t : TagText) : Parse String := do
  match t.handle with
  | none => return t.suffix
  | some h =>
    match ((← get).handles ++ standardHandles).lookup h with
    | some replacement => return replacement ++ t.suffix
    | none => throw .malformed

/-- Adds a node, with its anchor if it has one; no two nodes of a document may have the same. -/
def declare (anchor : Option String) (n : Node) : Parse Place := do
  if let some a := anchor then
    if ((← get).anchors.lookup a).isSome then throw .malformed
    modify fun s => { s with anchors := (a, s.graph.size) :: s.anchors }
  enter n

/-- The node that an alias stands for. -/
def aliased (name : String) : Parse Place := do
  match (← get).anchors.lookup name with
  | some p => return p
  | none => throw .malformed

/-- What stands in front of a node. -/
structure Properties where
  anchor : Option String := none
  tag : Option String := none

/-- The declared kind of a collection, or the given one. -/
def Properties.kind (ps : Properties) (standard : Tag) : Tag :=
  match ps.tag with
  | none | some "!" => standard
  | some name => Tag.ofName name

/-- The kind of a scalar. The mark alone asks for the kind to be found as if it were plain. -/
def Properties.scalarKind (ps : Properties) (plain : Bool) (text : String) : Tag :=
  match ps.tag with
  | none => if plain then Tag.ofPlain text else .text
  | some "!" => Tag.ofPlain text
  | some name => Tag.ofName name

/-- Reads an anchor if one comes next. -/
def readAnchor : Parse (Option String) := do
  match ← upcoming with
  | .anchor a :: _ => do
    pass
    return some a
  | _ => return none

/-- Reads a tag if one comes next. -/
def readTag : Parse (Option TagText) := do
  match ← upcoming with
  | .tag t :: _ => do
    pass
    return some t
  | _ => return none

/-- Reads an anchor and a tag, in either order. -/
def readProperties : Parse Properties := do
  let (anchor, tag) ← match ← readAnchor with
    | some a => do pure (some a, ← readTag)
    | none =>
      match ← readTag with
      | some t => do pure (← readAnchor, some t)
      | none => pure (none, none)
  match tag with
  | some t => return { anchor, tag := some (← fullTag t) }
  | none => return { anchor }

/-! ## Nodes -/

/-- A scalar with what stands in front of it. -/
def scalarNode (ps : Properties) (plain : Bool) (text : String) : Parse Place :=
  declare ps.anchor (.scalar (ps.scalarKind plain text) text)

/-- A node of which only the anchor or the tag is written. -/
def unwritten (ps : Properties) : Parse Place := do
  if ps.anchor.isNone && ps.tag.isNone then throw .malformed
  scalarNode ps true ""

/-- A sequence with what stands in front of it. Its place is known before its items are. -/
def sequenceNode (ps : Properties) (items : Parse (List Place)) : Parse Place := do
  let tag := ps.kind .sequence
  let p ← declare ps.anchor (.sequence tag [])
  let ns ← items
  modify fun s => { s with graph := s.graph.put p (.sequence tag ns) }
  return p

/-- A mapping with what stands in front of it. Its place is known before its entries are. -/
def mappingNode (ps : Properties) (entries : Parse (List (Place × Place))) : Parse Place := do
  let tag := ps.kind .mapping
  let p ← declare ps.anchor (.mapping tag [])
  let es ← entries
  modify fun s => { s with graph := s.graph.put p (.mapping tag es) }
  return p

/-- No node is written before these tokens of a block mapping. -/
def endsBlockValue : List Token → Bool
  | .key :: _ | .value :: _ | .blockEnd :: _ => true
  | _ => false

/-- No node is written before these tokens of a block sequence. -/
def endsBlockItem : List Token → Bool
  | .blockEntry :: _ | .blockEnd :: _ => true
  | _ => false

/-- No node is written before these tokens of a sequence that is not indented under its key. -/
def endsLooseItem (ts : List Token) : Bool := endsBlockItem ts || endsBlockValue ts

/-- No node is written before these tokens inside brackets. -/
def endsFlowValue : List Token → Bool
  | .flowEntry :: _ | .flowSequenceEnd :: _ | .flowMappingEnd :: _ => true
  | _ => false

/-- No key is written before these tokens inside brackets. -/
def endsFlowKey : List Token → Bool
  | .value :: _ => true
  | ts => endsFlowValue ts

/-- Reads the value of an entry if its mark comes next. -/
def valueUnless (isMissing : List Token → Bool) (read : Parse Place) : Parse Place := do
  match ← upcoming with
  | .value :: _ => do
    pass
    nodeUnless isMissing read
  | _ => enter .empty

/-- Reads the comma before every item but the first. -/
def separate (first : Bool) : Parse Unit := do
  if first then return
  match ← upcoming with
  | .flowEntry :: _ => pass
  | _ => throw .malformed

mutual

/-- Reads a node. Blocks may only begin where `block` allows it, and a sequence that is not indented
only where `loose` does. -/
def readNode (block loose : Bool) : Nat → Parse Place
  | 0 => throw .malformed
  | fuel + 1 => do
    match ← upcoming with
    | .alias a :: _ => do
      pass
      aliased a
    | _ => do
      let ps ← readProperties
      match ← upcoming with
      | .scalar plain text :: _ => do
        pass
        scalarNode ps plain text
      | .flowSequenceStart :: _ => do
        pass
        sequenceNode ps (flowItems true fuel)
      | .flowMappingStart :: _ => do
        pass
        mappingNode ps (flowEntries true fuel)
      | .blockEntry :: _ => do
        if loose then sequenceNode ps (looseItems fuel) else unwritten ps
      | .blockSequenceStart :: _ => do
        if !block then return ← unwritten ps
        pass
        sequenceNode ps (blockItems fuel)
      | .blockMappingStart :: _ => do
        if !block then return ← unwritten ps
        pass
        mappingNode ps (blockEntries fuel)
      | _ => unwritten ps

/-- Reads the items of a block sequence and its end. -/
def blockItems : Nat → Parse (List Place)
  | 0 => throw .malformed
  | fuel + 1 => do
    match ← upcoming with
    | .blockEntry :: _ => do
      pass
      let item ← nodeUnless endsBlockItem (readNode true false fuel)
      return item :: (← blockItems fuel)
    | .blockEnd :: _ => do
      pass
      return []
    | _ => throw .malformed

/-- Reads the items of a block sequence that is not indented under its key. -/
def looseItems : Nat → Parse (List Place)
  | 0 => throw .malformed
  | fuel + 1 => do
    match ← upcoming with
    | .blockEntry :: _ => do
      pass
      let item ← nodeUnless endsLooseItem (readNode true false fuel)
      return item :: (← looseItems fuel)
    | _ => return []

/-- Reads the entries of a block mapping and its end. -/
def blockEntries : Nat → Parse (List (Place × Place))
  | 0 => throw .malformed
  | fuel + 1 => do
    match ← upcoming with
    | .key :: _ => do
      pass
      let key ← nodeUnless endsBlockValue (readNode true true fuel)
      let value ← valueUnless endsBlockValue (readNode true true fuel)
      return (key, value) :: (← blockEntries fuel)
    | .blockEnd :: _ => do
      pass
      return []
    | _ => throw .malformed

/-- Reads the items of a sequence in brackets and its end. An item may be a mapping of one entry. -/
def flowItems (first : Bool) : Nat → Parse (List Place)
  | 0 => throw .malformed
  | fuel + 1 => do
    if let .flowSequenceEnd :: _ ← upcoming then
      pass
      return []
    separate first
    match ← upcoming with
    | .flowSequenceEnd :: _ => do
      pass
      return []
    | .key :: _ => do
      pass
      let key ← nodeUnless endsFlowKey (readNode false false fuel)
      let value ← valueUnless endsFlowValue (readNode false false fuel)
      let item ← enter (.mapping .mapping [(key, value)])
      return item :: (← flowItems false fuel)
    | _ => do
      let item ← readNode false false fuel
      return item :: (← flowItems false fuel)

/-- Reads the entries of a mapping in braces and its end. -/
def flowEntries (first : Bool) : Nat → Parse (List (Place × Place))
  | 0 => throw .malformed
  | fuel + 1 => do
    if let .flowMappingEnd :: _ ← upcoming then
      pass
      return []
    separate first
    match ← upcoming with
    | .flowMappingEnd :: _ => do
      pass
      return []
    | .key :: _ => do
      pass
      let key ← nodeUnless endsFlowKey (readNode false false fuel)
      let value ← valueUnless endsFlowValue (readNode false false fuel)
      return (key, value) :: (← flowEntries false fuel)
    | _ => do
      let key ← readNode false false fuel
      let value ← enter .empty
      return (key, value) :: (← flowEntries false fuel)

end

/-! ## Documents -/

/-- Reads the directives in front of a document: at most one version, which must begin with 1, and
no handle twice. -/
def directives (version : Bool) (handles : List (String × String)) :
    Nat → Parse (List (String × String))
  | 0 => return handles
  | fuel + 1 => do
    match ← upcoming with
    | .directive d :: _ => do
      pass
      match d with
      | .version major =>
        if version || major != 1 then throw .malformed
        directives true handles fuel
      | .tag handle replacement =>
        if (handles.lookup handle).isSome then throw .malformed
        directives version (handles ++ [(handle, replacement)]) fuel
      | .other => directives version handles fuel
    | _ => return handles

/-- Reads the marks at the end of a document. -/
def endMarks : Nat → Parse Unit
  | 0 => return
  | fuel + 1 => do
    if let .documentEnd :: _ ← upcoming then
      pass
      endMarks fuel

/-- Nothing but the end may follow a document. -/
def finish (fuel : Nat) : Parse Unit := do
  endMarks fuel
  match ← upcoming with
  | [.streamEnd] => return
  | _ => do
    let _ ← directives false [] fuel
    throw .malformed

/-- No node is written before these tokens of a document. -/
def endsDocument : List Token → Bool
  | .directive _ :: _ | .documentStart :: _ | .documentEnd :: _ | .streamEnd :: _ => true
  | _ => false

/-- Reads the root of the only document, if there is one, and what may follow it. -/
def readDocument (fuel : Nat) : Parse (Option Place) := do
  let root ← match ← upcoming with
    | .streamEnd :: _ => return none
    | .directive _ :: _ | .documentStart :: _ => do
      let handles ← directives false [] fuel
      match ← upcoming with
      | .documentStart :: _ => do
        pass
        modify fun s => { s with handles }
        nodeUnless endsDocument (readNode true false fuel)
      | _ => throw .malformed
    | _ => readNode true false fuel
  finish fuel
  return some root

/-- The root of the document that tokens form, if there is one, and its nodes. -/
def document (stream : TokenStream) : Except Error (Option Place × Graph) := do
  let (root, s) ← (readDocument (2 * stream.tokens.length + 2)).run { stream }
  return (root, s.graph)

end SchemaModel.Yaml
