import SchemaModel.Document.Basic
import SchemaModel.Value.Equality
import SchemaModel.Value.Placement
import SchemaModel.Yaml.Merge

/-!
Documents from YAML texts. Every node has one value, however many aliases stand for it. A collection
becomes an object at once and gets its content later, object by object in the order in which they
are met: so what is wrong near the root shows before what is wrong deep inside. Keys must be values
that never change.
-/
namespace SchemaModel.Yaml

/-- The text of a scalar; a mapping with a default value stands for that value's text. -/
def scalarText (g : Graph) : Nat → Place → Except Error String
  | 0, _ => .error .endless
  | fuel + 1, p =>
    match g.node p with
    | .scalar _ s => .ok s
    | .mapping _ es =>
      match es.find? fun e => g.tag e.1 == .value with
      | some (_, v) => scalarText g fuel v
      | none => .error .malformed
    | .sequence .. => .error .malformed

/-- The kinds whose nodes become objects with content. -/
def Tag.isCollection : Tag → Bool
  | .sequence | .mapping | .set | .orderedMap | .pairs => true
  | _ => false

/-- The kinds whose nodes become values by their text alone. -/
def Tag.isScalar : Tag → Bool
  | .null | .bool | .int | .float | .text | .binary | .timestamp => true
  | _ => false

/-- What has been built: the values of nodes, the objects by their marks, and the nodes whose
objects have no content yet, each with its mark. -/
structure Building where
  graph : Graph
  values : Array (Option Value)
  objects : Array Value := #[]
  waiting : Array (Place × Nat) := #[]

namespace Building

abbrev Action := StateT Building (Except Error)

def nodeAt (p : Place) : Action Node := return (← get).graph.node p

/-- A mark for a new object. -/
def newMark (content : Value) : Action Nat := do
  let mark := (← get).objects.size
  modify fun b => { b with objects := b.objects.push content }
  return mark

/-- The value of a node that is no collection. Dates are objects. -/
def scalarValue (p : Place) (tag : Tag) : Action Value := do
  if !tag.isScalar then throw .malformed
  let g := (← get).graph
  let text ← scalarText g (g.size + 1) p
  match tag, g.node p with
  | .timestamp, .scalar .. => do
    let v ← readScalar .timestamp text
    return .marked (← newMark v) v
  | .timestamp, _ => throw .timestampMapping
  | tag, _ => readScalar tag text

/-- The object of a node that is a collection; its content waits. -/
def collection (p : Place) (tag : Tag) : Action Value := do
  let mark ← newMark .null
  modify fun b => { b with waiting := b.waiting.push (p, mark) }
  return .again mark (tag == .mapping)

/-- The value of a node, which is built when it is met first. -/
def valueAt (p : Place) : Action Value := do
  let b ← get
  match (b.values[p]?).join with
  | some v => return v
  | none => do
    let tag := b.graph.tag p
    let v ← if tag.isCollection then collection p tag else scalarValue p tag
    modify fun b => { b with values := b.values.setIfInBounds p (some v) }
    return v

/-- Sets a key: a key that is there keeps its place, a new one goes to the end. -/
def putEntry (key value : Value) : List (Value × Value) → List (Value × Value)
  | [] => [(key, value)]
  | (k, v) :: es =>
    if k.bare.same key.bare then (k, value) :: es else (k, v) :: putEntry key value es

/-- Sets the entries of a mapping one after the other. -/
def putAll : Graph.Entries → List (Value × Value) → Action (List (Value × Value))
  | [], entries => return entries
  | (k, v) :: es, entries => do
    let key ← valueAt k
    if !key.isFixed then throw .malformed
    putAll es (putEntry key (← valueAt v) entries)

/-- The entries of a mapping with those that it merges. -/
def entriesAt (p : Place) : Action (List (Value × Value)) := do
  let graph ← Graph.merge p (← get).graph
  modify fun b => { b with graph }
  putAll (graph.node p).entries []

/-- The pair that a mapping of one entry is. -/
def pairAt (p : Place) : Action Value := do
  match ← nodeAt p with
  | .mapping _ [(k, v)] => do return .tuple [← valueAt k, ← valueAt v]
  | _ => throw .malformed

/-- The content of the object of a node. -/
def contentAt (p : Place) : Action Value := do
  let n ← nodeAt p
  match n.tag, n with
  | .sequence, .sequence _ ps => do return .list (← ps.mapM valueAt)
  | .mapping, .mapping .. => do return .mapping (← entriesAt p)
  | .set, .mapping .. => do return .ofDistinct ((← entriesAt p).map (·.1))
  | .orderedMap, .sequence _ ps | .pairs, .sequence _ ps => do return .list (← ps.mapM pairAt)
  | _, _ => throw .malformed

/-- Fills the objects from the `i`-th on. Every node has one object at most, which is what `fuel`
counts. -/
def fillFrom : Nat → Nat → Action Unit
  | 0, _ => return
  | fuel + 1, i => do
    match (← get).waiting[i]? with
    | none => return
    | some (p, mark) => do
      let content ← contentAt p
      modify fun b => { b with objects := b.objects.setIfInBounds mark content }
      fillFrom fuel (i + 1)

/-- The document of the node at a place. -/
def documentAt (p : Place) : Action Document := do
  let value ← valueAt p
  fillFrom ((← get).graph.size + 1) 0
  return { value, objects := (← get).objects }

end Building

/-- Reads a YAML text; an empty one is null. -/
def read (text : String) : Except Error Document := do
  match ← document (tokens text) with
  | (none, _) => return { value := .null }
  | (some p, graph) => do
    let start : Building := { graph, values := Array.replicate graph.size none }
    let (d, _) ← (Building.documentAt p).run start
    return d

end SchemaModel.Yaml
