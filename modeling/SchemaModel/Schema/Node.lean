import SchemaModel.Literal
import SchemaModel.Value.Equality
import SchemaModel.Value.Marks

/-!
Schemas as graphs. A node carries one declaration and points to further nodes by their place in the
schema's table, so that nodes can be shared and can refer back to themselves.
-/
namespace SchemaModel

/-- The kinds that resolution knows. A node may declare anything else as well. -/
inductive SchemaKind
  | string | integer | number | boolean | date | array | object
  deriving DecidableEq, Repr

namespace SchemaKind

def all : List SchemaKind := [.string, .integer, .number, .boolean, .date, .array, .object]

def name : SchemaKind → String
  | .string => "string"
  | .integer => "integer"
  | .number => "number"
  | .boolean => "boolean"
  | .date => "date"
  | .array => "array"
  | .object => "object"

/-- The kind that a declaration names, if it is one of the known ones. -/
def ofValue? (declared : Value) : Option SchemaKind :=
  match declared with
  | .text s => all.find? fun k => k.name = s
  | _ => none

theorem ofValue?_name (k : SchemaKind) : ofValue? (.text k.name) = some k := by
  cases k <;> decide

end SchemaKind

/-- The place of a node in the table of its schema. -/
abbrev NodeId := Nat

/-- One declaration. What is not declared is null, or absent. -/
structure SchemaNode where
  kind : Value := .null
  format : Value := .null
  /-- The items of an array form a set. -/
  unique : Bool := false
  /-- Property names in declaration order, each with its node if it has one. -/
  properties : Option (List (String × Option NodeId)) := none
  items : Option NodeId := none
  enum : Option (List Literal) := none
  default : Option Literal := none
  title : Value := .null
  description : Value := .null
  deriving Repr, Inhabited

namespace SchemaNode

def knownKind? (n : SchemaNode) : Option SchemaKind := SchemaKind.ofValue? n.kind

/-- Property names with their nodes; a node without properties has none. -/
def propertyList (n : SchemaNode) : List (String × Option NodeId) := n.properties.getD []

def propertyNames (n : SchemaNode) : List String := n.propertyList.map (·.1)

/-- The node of a property. -/
def property? (n : SchemaNode) (name : String) : Option NodeId := (n.propertyList.lookup name).join

/-- The nodes that a node points to: those of its properties, then its items. -/
def children (n : SchemaNode) : List NodeId := n.propertyList.filterMap (·.2) ++ n.items.toList

/-- Gives the lists and mappings that a node declares marks, from `next` on. -/
def mark (next : Nat) (n : SchemaNode) : SchemaNode × Nat :=
  let (kind, after) := n.kind.mark next
  let (format, after) := n.format.mark after
  let (title, after) := n.title.mark after
  let (description, after) := n.description.mark after
  ({ n with kind, format, title, description }, after)

end SchemaNode

/-- Sets a property: a name that is there keeps its place, a new one goes to the end. -/
def putProperty (name : String) (node : Option NodeId) :
    List (String × Option NodeId) → List (String × Option NodeId)
  | [] => [(name, node)]
  | (k, n) :: ps => if k = name then (k, node) :: ps else (k, n) :: putProperty name node ps

/-- A schema: a table of nodes and the place of the root. -/
structure Schema where
  nodes : Array SchemaNode
  root : NodeId
  deriving Repr, Inhabited

namespace Schema

/-- The schema of the given nodes, of which the first is the root. What they declare are objects of
their own. -/
def ofNodes (nodes : List SchemaNode) : Schema :=
  let step (done : Array SchemaNode × Nat) (n : SchemaNode) : Array SchemaNode × Nat :=
    let (n, after) := n.mark done.2
    (done.1.push n, after)
  { nodes := (nodes.foldl step (#[], 0)).1, root := 0 }

def node? (s : Schema) (id : NodeId) : Option SchemaNode := s.nodes[id]?

/-- Works through a list of places: each place that is new is kept and its children come next. -/
def visit (s : Schema) : Nat → List NodeId → List NodeId → List NodeId
  | 0, _, visited => visited
  | _ + 1, [], visited => visited
  | fuel + 1, id :: rest, visited =>
    if id ∈ visited then visit s fuel rest visited
    else visit s fuel (((s.node? id).map SchemaNode.children).getD [] ++ rest) (visited ++ [id])

/-- The number of steps that suffice to visit everything: every place is listed once for each node
that points to it. -/
def visitBound (s : Schema) : Nat := (s.nodes.toList.map fun n => n.children.length).foldr (· + ·) 0 + 2

/-- The places reached from the root, in order of first visit. -/
def visitOrder (s : Schema) : List NodeId := s.visit s.visitBound [s.root] []

end Schema
end SchemaModel
