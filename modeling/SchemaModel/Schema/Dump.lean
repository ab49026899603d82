import SchemaModel.Schema.LiteralValue
import SchemaModel.Schema.Node

/-!
Writing schemas back as documents. A node that several others share is written once for each of
them; a node that contains itself cannot be written.
-/
namespace SchemaModel

/-- Why a schema cannot be written. -/
inductive DumpError
  | recursive
  /-- A property without a node. -/
  | missingNode
  deriving DecidableEq, Repr

def DumpError.message : DumpError → String
  | .recursive => "Cannot serialize a recursive schema"
  | .missingNode => ""

namespace Schema

/-- What is declared, unless it is null. -/
def given? : Value → Option Value
  | .null => none
  | v => some v

/-- What a node declares under each name, with what is written for its properties and its items. -/
def fields (n : SchemaNode) (properties items : Option Value) : List (String × Option Value) :=
  [("type", given? n.kind), ("format", given? n.format),
   ("uniqueItems", if n.unique then some (.bool true) else none), ("title", given? n.title),
   ("description", given? n.description), ("properties", properties), ("items", items),
   ("enum", n.enum.map fun ls => .list (Literal.toValues ls)),
   ("default", n.default.map Literal.toValue)]

/-- The entries of what is declared; whatever is not is left out. -/
def presentEntries (fields : List (String × Option Value)) : List (Value × Value) :=
  fields.filterMap fun (name, v) => v.map fun v => (.text name, v)

/-- Writes the properties one after the other; `write` writes a node. -/
def writeProperties (write : NodeId → Except DumpError Value) :
    List (String × Option NodeId) → Except DumpError (List (Value × Value))
  | [] => .ok []
  | (name, some id) :: ps => do return (.text name, ← write id) :: (← writeProperties write ps)
  | (_, none) :: _ => .error .missingNode

/-- The document of one node, `write` giving those of its children. -/
def writeNode (write : NodeId → Except DumpError Value) (n : SchemaNode) :
    Except DumpError Value := do
  let properties ← n.properties.mapM (writeProperties write)
  let items ← n.items.mapM write
  return .mapping (presentEntries (fields n (properties.map .mapping) items))

/-- The document of the node at a place. The nodes that are being written around it are in `path`;
at most as many as there are nodes can be, which is what `fuel` counts. -/
def writeFrom (s : Schema) : Nat → List NodeId → NodeId → Except DumpError Value
  | 0, _, _ => .error .recursive
  | fuel + 1, path, id =>
    if id ∈ path then .error .recursive
    else
      match s.node? id with
      | none => .error .missingNode
      | some n => writeNode (writeFrom s fuel (id :: path)) n

/-- The document of a schema. -/
def toValue (s : Schema) : Except DumpError Value := s.writeFrom (s.nodes.size + 1) [] s.root

end Schema
end SchemaModel
