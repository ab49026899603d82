import SchemaModel.Emission.Expression
import SchemaModel.Generation.Build

/-!
The generated module: a class of constants for every enumerated type and a data class for every
generated type, each field with its default. Collections are built anew for every instance.
-/
namespace SchemaModel.Emission

/-- Why no module is emitted. -/
inductive Error
  /-- A class has a name that the head of the module binds. -/
  | reserved (c : Naming.Collision)
  | expression (e : ExpressionError)
  deriving Repr

def scalarAnnotation : ScalarKind → String
  | .string => "str"
  | .integer | .long => "int"
  | .double => "float"
  | .boolean => "bool"

/-- The annotation of a field of the given type. -/
def annotation : TargetType → String
  | .scalar kind => scalarAnnotation kind
  | .date kind _ =>
    match kind with
    | .epochMillisAsLong => "int"
    | .epochMillis | .formatted => "_dt.datetime"
  | .enum type => type.name
  | .list element => "List[" ++ annotation element ++ "]"
  | .set element => "MutableSet[" ++ annotation element ++ "]"
  | .reference name => name

def indent : String := "    "

/-- The lines at the head of every module. -/
def head : List String :=
  ["\"\"\"Generated by schemagen. Do not edit.\"\"\"",
   "",
   "from __future__ import annotations",
   "",
   "import datetime as _dt",
   "from dataclasses import dataclass, field as _field",
   "from enum import Enum",
   "from typing import List, MutableSet, Optional",
   "",
   "from schemagen.containers import OrderedSet as _OrderedSet"]

/-- Names that the head binds and a class could take. -/
def reserved : List String := ["Enum", "List", "MutableSet", "Optional"]

/-- A collection that is built for every instance; an empty one by `fresh`. -/
def collectionField (fresh : String) (p : Property) : Except ExpressionError String := do
  let factory ←
    if p.default.isGiven then do pure ("lambda: " ++ (← expression p.type p.default))
    else pure fresh
  return p.field ++ ": " ++ annotation p.type ++ " = _field(default_factory=" ++ factory ++ ")"

/-- The line that declares a field. -/
def fieldLine (p : Property) : Except ExpressionError String :=
  match p.type with
  | .list _ => collectionField "lambda: []" p
  | .set _ => collectionField "_OrderedSet" p
  | _ => do
    let value ← expression p.type p.default
    return p.field ++ ": Optional[" ++ annotation p.type ++ "] = " ++ value

/-- Documentation as it stands between triple quotes: backslashes are doubled, and three quotes in a
row are escaped. -/
def escapeDocumentation : List Char → List Char
  | [] => []
  | '\\' :: cs => '\\' :: '\\' :: escapeDocumentation cs
  | '"' :: '"' :: '"' :: cs => '\\' :: '"' :: '\\' :: '"' :: '\\' :: '"' :: escapeDocumentation cs
  | c :: cs => c :: escapeDocumentation cs

/-- The class of an enumerated type. -/
def enumLines (t : EnumType) : List String :=
  ("class " ++ t.name ++ "(Enum):") ::
    (if t.members.isEmpty then [indent ++ "pass"] else []) ++
    t.members.map fun m => indent ++ m.name ++ " = " ++ Text.quoted m.literal

/-- The documentation line of a class, given its documentation. -/
def documentationLine (text : String) : String :=
  indent ++ "\"\"\"" ++ String.ofList (escapeDocumentation text.toList) ++ "\"\"\""

/-- The documentation of a class, set apart from its fields. -/
def documentationLines (t : GeneratedType) : Except ExpressionError (List String) :=
  if t.description.isGiven then
    match t.description.display? with
    | some text => .ok (documentationLine text :: if t.properties.isEmpty then [] else [""])
    | none => .error .digits
  else .ok []

/-- The class of a generated type. -/
def typeLines (t : GeneratedType) : Except ExpressionError (List String) := do
  let documentation ← documentationLines t
  let fields ← t.properties.mapM fieldLine
  let body := documentation ++ fields.map (indent ++ ·)
  return "@dataclass" :: ("class " ++ t.name ++ ":") ::
    if body.isEmpty then [indent ++ "pass"] else body

/-- Refuses a class whose name the head of the module binds. -/
def checkNames (names : List String) : Except Error Unit :=
  match names.find? (· ∈ reserved) with
  | some name =>
    .error (.reserved
      { name, first := "generated module imports", second := name, scope := "module" })
  | none => .ok ()

/-- The text of the module for a generation. -/
def moduleText (g : Generation) : Except Error String := do
  checkNames (g.enums.map (·.name) ++ g.types.map (·.name))
  let types ← (g.types.mapM typeLines).mapError .expression
  let classes := g.enums.map enumLines ++ types
  return "\n".intercalate (head ++ (classes.map fun ls => "" :: "" :: ls).flatten ++ [""])

end SchemaModel.Emission
