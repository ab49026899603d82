import SchemaModel.Resolution.Resolver

/-!
Generation of types from the objects of a schema. Every object that is met gets one generated type,
registered before its properties are described, so that a schema which refers back to itself finds
the type that is under way.
-/
namespace SchemaModel

/-- A property as generated code needs it. -/
structure Property where
  name : String
  field : String
  type : TargetType
  /-- Null when there is none. -/
  default : Value
  /-- The declared default. -/
  literal : Option Literal
  description : Value
  deriving Repr

def Property.hasDefault (p : Property) : Bool :=
  match p.default with
  | .null => false
  | _ => true

/-- The properties of an object, under a name. -/
structure GeneratedType where
  name : String
  description : Value
  properties : List Property
  deriving Repr

/-- What one pass generates: the root type, all types with the root at the end, the enumerated types
and the warnings. -/
structure Generation where
  root : GeneratedType
  types : List GeneratedType
  enums : List EnumType
  warnings : List String
  deriving Repr

/-- Why nothing is generated. -/
inductive BuildError
  | collision (c : Naming.Collision)
  | conversion (e : ConversionError)
  | overflow
  | repeatedField
  /-- An integer with too many digits was to be written. -/
  | digits
  | endlessItems
  /-- The steps allowed for the schema are used up. -/
  | steps
  deriving Repr

def BuildError.ofResolve : ResolveError → BuildError
  | .collision c => .collision c
  | .digits => .digits
  | .endlessItems => .endlessItems

def BuildError.ofSynthesis : SynthesisError → BuildError
  | .conversion e => .conversion e
  | .overflow => .overflow
  | .repeatedField => .repeatedField
  | .digits => .digits

/-- What has been generated so far. -/
structure Building where
  resolver : Resolver
  /-- Generated types by name, in order of registration. -/
  types : List (String × GeneratedType)
  /-- The name of the type of each object met. -/
  references : List (NodeId × String)
  deriving Repr

namespace Building

abbrev Action := StateT Building (Except BuildError)

def empty : Building := ⟨.empty, [], []⟩

/-- Runs an action of the resolver. -/
def resolving {α : Type} (a : Resolver.Action α) : Action α := fun b =>
  match a.run.run b.resolver with
  | (.ok x, r) => .ok (x, { b with resolver := r })
  | (.error e, _) => .error (.ofResolve e)

/-- Enters the type of an object under its name, still without properties. -/
def register (b : Building) (id : NodeId) (t : GeneratedType) : Building :=
  { b with types := b.types ++ [(t.name, t)], references := (id, t.name) :: b.references }

/-- Sets the properties of a registered type. -/
def describe (b : Building) (name : String) (properties : List Property) : Building :=
  { b with
    types := b.types.map fun (k, t) => if k = name then (k, { t with properties }) else (k, t) }

/-- The type of a place; `object` builds the type of an object and gives its name. -/
def resolve (s : Schema) (settings : Settings) (object : NodeId → String → Action String)
    (place : Option NodeId) (hint : String) : Action TargetType := do
  let o ← resolving (Resolver.outline s settings place)
  match ← resolving (Resolver.leaf hint o.leaf) with
  | .type t => return wrap o.arrays t
  | .object id => return wrap o.arrays (.reference (← object id hint))

/-- Claims the field name of a source. -/
def claim (fields : Naming.FieldTable) (source : String) : Action (String × Naming.FieldTable) :=
  match fields.claim source with
  | .ok r => return r
  | .error c => throw (.collision c)

/-- The default of a property. -/
def defaultOf (property : String) (t : TargetType) (l : Option Literal) : Action Value :=
  match synthesize property t l with
  | .ok v => return v
  | .error e => throw (.ofSynthesis e)

/-- Describes the properties one after the other. -/
def properties (s : Schema) (settings : Settings) (object : NodeId → String → Action String) :
    Naming.FieldTable → List (String × Option NodeId) → Action (List Property)
  | _, [] => return []
  | fields, (name, place) :: ps => do
    let (field, fields) ← claim fields name
    let type ← resolve s settings object place name
    let node := place.bind s.node?
    let literal := node.bind (·.default)
    let default ← defaultOf name type literal
    let description := (node.map (·.description)).getD .null
    return { name, field, type, default, literal, description } ::
      (← properties s settings object fields ps)

/-- The documentation of an object: its description, or else its title. -/
def documentation (n : SchemaNode) : Value :=
  if n.description.isGiven then n.description else n.title

/-- The name of the type of an object, which is built when the object is first met. Every object
that is being built around this one has been registered, which is what `fuel` counts. -/
def object (s : Schema) (settings : Settings) : Nat → NodeId → String → Action String
  | 0, _, _ => throw .steps
  | fuel + 1, id, hint => do
    if let some name := (← get).references.lookup id then return name
    let name ← resolving (Resolver.allocate (Naming.className hint) id)
    let node := (s.node? id).getD {}
    modify (·.register id ⟨name, documentation node, []⟩)
    let ps ← properties s settings (object s settings fuel) (.empty ("type " ++ name))
      node.propertyList
    modify (·.describe name ps)
    return name

/-- What has been generated, with the type of the given name as root. -/
def finish (b : Building) (root : String) : Generation :=
  let rootType := (b.types.lookup root).getD ⟨root, .null, []⟩
  { root := rootType
    types := (b.types.filter fun (k, _) => k ≠ root).map (·.2) ++ [rootType]
    enums := b.resolver.enums.map (·.2)
    warnings := b.resolver.warnings }

end Building

namespace Generation

/-- Generates the types of a schema, the root under a name made from `name`. -/
def ofSchema (s : Schema) (settings : Settings) (name : String) : Except BuildError Generation := do
  let (root, b) ← (Building.object s settings (s.nodes.size + 1) s.root name).run .empty
  return b.finish root

/-- The generated type of a name. -/
def type? (g : Generation) (name : String) : Option GeneratedType := g.types.find? (·.name = name)

end Generation

/-- The property of a name. -/
def GeneratedType.property? (t : GeneratedType) (name : String) : Option Property :=
  t.properties.find? (·.name = name)

end SchemaModel
