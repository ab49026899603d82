import SchemaModel.Schema.LiteralValue
import SchemaModel.Schema.LoadError
import SchemaModel.Schema.Node
import SchemaModel.Schema.Pointer

/-!
Loading of schema documents. Every place of the document that is visited gets one node, remembered
by the pointer to the place before the node is filled; a reference gives the node of the place that
it points to. So references to an ancestor make the schema recursive, and a definition that is
referenced several times is shared. An object that is met inside itself without a reference in
between would be read without end.
-/
namespace SchemaModel

/-- What loading has built so far. -/
structure Loading where
  nodes : Array SchemaNode
  /-- The node of each pointer seen. -/
  places : List (String × NodeId)

namespace Loading

abbrev Action := StateT Loading (Except LoadError)

def place? (l : Loading) (pointer : String) : Option NodeId := l.places.lookup pointer

/-- A new node for a pointer, still to be filled. -/
def register (l : Loading) (pointer : String) : Loading :=
  { nodes := l.nodes.push {}, places := (pointer, l.nodes.size) :: l.places }

/-- Gives a pointer the node of another place. -/
def link (l : Loading) (pointer : String) (id : NodeId) : Loading :=
  { l with places := (pointer, id) :: l.places }

def fill (l : Loading) (id : NodeId) (node : SchemaNode) : Loading :=
  { l with nodes := l.nodes.setIfInBounds id node }

end Loading

namespace Schema

/-- The error about a `type` entry that declares no kind. It shows what is declared, which must be
possible. -/
def kindError (declared : Value) : LoadError :=
  if declared.hasLong then .digits else .kindDeclaration declared

/-- The kind that a `type` entry declares: a text, or the first text of a list other than
`null`. -/
def declaredKind (document : Document) (v : Value) : Except LoadError Value :=
  match document.content v with
  | .null => .ok .null
  | .text s => .ok (.text s)
  | .list xs =>
    .ok ((xs.find? fun x => match x with
      | .text s => s != "null"
      | _ => false).getD .null)
  | _ => .error (kindError (document.closed v))

/-- Documentation is kept as text, whatever it is declared as. -/
def documentation (v : Value) : Except LoadError Value :=
  match v with
  | .null => .ok .null
  | .text s => .ok (.text s)
  | v =>
    match v.display? with
    | some s => .ok (.text s)
    | none => .error .digits

/-- What an object declares apart from its children, its choices and its default. -/
def declaration (document : Document) (entries : List (Value × Value)) :
    Except LoadError SchemaNode := do
  let entry name := (Value.entry? name entries).getD .null
  let kind ← declaredKind document (entry "type")
  let isObject := match kind with
    | .null => (Value.entry? "properties" entries).isSome
    | _ => false
  let title ← documentation (document.closed (entry "title"))
  let description ← documentation (document.closed (entry "description"))
  .ok
    { kind := if isObject then .text SchemaKind.object.name else kind
      format := document.closed (entry "format")
      unique := (document.content (entry "uniqueItems")).isGiven
      title
      description }

/-- The literal of a raw value. -/
def literal (v : Value) : Except LoadError Literal :=
  (Literal.ofValue v).mapError fun
    | .kind name => .defaultKind name
    | .endless => .endless
    | .digits => .digits

/-- The declared choices. -/
def choices (document : Document) (pointer : String) (entries : List (Value × Value)) :
    Except LoadError (Option (List Literal)) :=
  match (Value.entry? "enum" entries).map document.content with
  | none => .ok none
  | some (.list xs) => (xs.mapM fun x => literal (document.closed x)).map some
  | some _ => .error (.enum pointer)

/-- The declared default, flavoured by whether elements are to be unique. -/
def declaredDefault (document : Document) (unique : Bool) (entries : List (Value × Value)) :
    Except LoadError (Option Literal) :=
  match Value.entry? "default" entries with
  | none => .ok none
  | some v => (literal (document.closed v)).map fun l => some (l.flavoured unique)

/-- The place that a reference points to. -/
def follow (document : Document) (reference : String) : Except LoadError Value :=
  (Pointer.resolve document reference).mapError fun
    | .external => .externalReference reference
    | .unresolvable => .unresolvable reference
    | .index token => .index token

/-- Reads the properties one after the other; `read` reads the node at a pointer. -/
def readProperties (read : Value → String → Loading.Action NodeId) (pointer : String) :
    List (Value × Value) → Loading.Action (List (String × Option NodeId))
  | [] => return []
  | (.text name, v) :: es => do
    let id ← read v (Pointer.property pointer name)
    return (name, some id) :: (← readProperties read pointer es)
  | (key, _) :: _ => throw (.propertyName key)

/-- Reads what an object declares and the children that it names. -/
def readObject (document : Document) (read : Value → String → Loading.Action NodeId)
    (pointer : String) (entries : List (Value × Value)) : Loading.Action SchemaNode := do
  let node ← declaration document entries
  let properties ← match (Value.entry? "properties" entries).map document.content with
    | none => pure none
    | some (.mapping ps) => do pure (some (← readProperties read pointer ps))
    | some _ => throw (.properties pointer)
  let items ← match Value.entry? "items" entries with
    | none => pure none
    | some v => do pure (some (← read v (Pointer.items pointer)))
  let enum ← choices document pointer entries
  let default ← declaredDefault document node.unique entries
  return { node with properties, items, enum, default }

/-- The reference that a value is, if it is one. -/
def reference? : Value → Option Value
  | .mapping entries => Value.entry? "$ref" entries
  | _ => none

/-- Reads the node at a pointer, where the document holds `v`. The marks of the objects that are
being read around it, from the last reference on, are in `path`; the pointers of the references that
led here without meeting a declaration are in `chain`. -/
def readAt (document : Document) :
    Nat → List Nat → List String → Value → String → Loading.Action NodeId
  | 0, _, _, _, _ => throw .endless
  | fuel + 1, path, chain, v, pointer => do
    if let some id := (← get).place? pointer then return id
    let object := document.content v
    match reference? object with
    | some (.text reference) => do
      if reference = pointer ∨ reference ∈ chain then throw (.selfReference reference pointer)
      let target ← follow document reference
      let id ← readAt document fuel [] (pointer :: chain) target reference
      modify (·.link pointer id)
      return id
    | some reference => throw (.referenceKind (document.content reference))
    | none => do
      let mark := (Document.mark? v).toList
      if mark.any path.contains then throw .endless
      let id := (← get).nodes.size
      modify (·.register pointer)
      match object with
      | .mapping entries => do
        let node ← readObject document (readAt document fuel (mark ++ path) []) pointer entries
        modify (·.fill id node)
        return id
      | _ => throw (.notObject pointer object.kindName)

/-- Steps that suffice for a document: along the way inwards every reference is followed once, and
between two of them no object is met twice. -/
def readBound (document : Document) : Nat := (document.size + 3) * (document.size + 3)

/-- The schema that a document declares. -/
def ofDocument (document : Document) : Except LoadError Schema :=
  match document.content document.value with
  | .mapping _ => do
    let read := readAt document (readBound document) [] [] document.value Pointer.root
    let (root, l) ← read.run ⟨#[], []⟩
    return { nodes := l.nodes, root }
  | _ => .error .document

/-- The schema that a value declares as a document by itself. -/
def ofValue (v : Value) : Except LoadError Schema := ofDocument { value := v }

end Schema
end SchemaModel
