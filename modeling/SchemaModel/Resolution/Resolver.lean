import SchemaModel.Enumeration
import SchemaModel.Naming.Allocator
import SchemaModel.Resolution.Form
import SchemaModel.Synthesis.Default

/-!
Resolution of nodes to target types. Enumerated and generated types share one space of names, in
which every node owns its own. A node with choices resolves to one enumerated type however often it
is met.
-/
namespace SchemaModel

/-- What a resolver remembers. -/
structure Resolver where
  names : Naming.Allocator NodeId
  /-- Enumerated types by name, in order of resolution. -/
  enums : List (String × EnumType)
  /-- The enumerated type of each node that has one. -/
  enumOf : List (NodeId × EnumType)
  warnings : List String
  deriving Repr

/-- Why a node has no type. -/
inductive ResolveError
  | collision (c : Naming.Collision)
  /-- An integer with too many digits was to be written. -/
  | digits
  /-- The items of an array lead back to the array. -/
  | endlessItems
  deriving Repr

def ResolveError.ofEnumeration : Enumeration.Error → ResolveError
  | .collision c => .collision c
  | .digits => .digits

/-- The type of a leaf, or the object whose type is to be built. -/
inductive Resolved
  | type (t : TargetType)
  | object (id : NodeId)

namespace Resolver

/-- Actions keep what they have changed when they fail. -/
abbrev Action := ExceptT ResolveError (StateM Resolver)

def empty : Resolver := ⟨.empty, [], [], []⟩

/-- Gives a node a name made from `base`. -/
def allocate (base : String) (id : NodeId) : Action String := do
  let r ← get
  let (name, names) := r.names.allocate base id
  set { r with names }
  return name

/-- The enumerated type of a node with choices. It is named and built when the node is first met. -/
def enumType (id : NodeId) (literals : List Literal) (hint : String) : Action EnumType := do
  if let some t := (← get).enumOf.lookup id then return t
  let name ← allocate (Naming.className hint "Enum") id
  match Enumeration.type name literals with
  | .error e => throw (.ofEnumeration e)
  | .ok t =>
    modify fun r => { r with enums := r.enums ++ [(name, t)], enumOf := r.enumOf ++ [(id, t)] }
    return t

/-- The warning about a declared kind that is not known. -/
def unrecognizedWarning (kind : Value) (hint : String) : String :=
  "Unrecognized kind " ++ kind.source ++ " for '" ++ propertyLabel hint ++ "', using String"

/-- Gives the warning about a declared kind that is not known, if the kind can be shown. -/
def warn (kind : Value) (hint : String) : Action Unit := do
  if kind.hasLong then throw .digits
  modify fun r => { r with warnings := r.warnings ++ [unrecognizedWarning kind hint] }

/-- Resolves a leaf up to the building of objects. -/
def leaf (hint : String) : Leaf → Action Resolved
  | .type t => return .type t
  | .object id => return .object id
  | .choices id literals => do return .type (.enum (← enumType id literals hint))
  | .unrecognized kind => do
    warn kind hint
    return .type (.scalar .string)

/-- What a place says, as an action. -/
def outline (s : Schema) (settings : Settings) (place : Option NodeId) : Action Outline :=
  match s.outline? settings place with
  | some o => return o
  | none => throw .endlessItems

/-- Resolves a place on its own: an object gets a name but nobody builds its type. -/
def resolve (s : Schema) (settings : Settings) (place : Option NodeId) (hint : String) :
    Action TargetType := do
  let o ← outline s settings place
  match ← leaf hint o.leaf with
  | .type t => return wrap o.arrays t
  | .object id => return wrap o.arrays (.reference (← allocate (Naming.className hint) id))

end Resolver
end SchemaModel
