import SchemaModel.Emission.Module
import SchemaModel.Example
import SchemaModel.Schema.Source

/-!
A run from a schema file, or from the example schema, to a generated module. The run reports each
step; a step that fails ends it, and what has been reported stays.
-/
namespace SchemaModel.Demo

/-- A schema file: its name and its text. -/
structure Input where
  name : String
  text : String

/-- Why a run ends early. -/
inductive Error
  | schema (e : SchemaError)
  | build (e : BuildError)
  | emission (e : Emission.Error)
  deriving Repr

/-- What a run leaves behind: the lines reported, the file written, and why it ended early. -/
structure Outcome where
  report : List String
  file : Option (String × String)
  error : Option Error

/-- The schema of a run and the name of its root type. -/
def schema : Option Input → Except SchemaError (Schema × String)
  | some input => (Schema.ofFile input.name input.text).map (·, "Root")
  | none => .ok (Example.schema, "Default")

/-- A line of one character across the page. -/
def rule (c : Char) : String := String.ofList (List.replicate 80 c)

def title : List String :=
  [rule '=', "COMPLETE PIPELINE DEMO: Schema → Descriptors → Dataclasses", rule '=']

/-- A text filled with spaces up to a width. -/
def filled (width : Nat) (s : String) : String :=
  s ++ String.ofList (List.replicate (width - s.length) ' ')

/-- The list of names as messages show it. -/
def nameList (names : List String) : String := (Value.list (names.map .text)).source

def propertyLine (p : Property) : String :=
  "      " ++ filled 28 p.name ++ " " ++ filled 32 p.type.text ++ " " ++ p.default.source

/-- What is reported of a generation. -/
def buildReport (g : Generation) : List String :=
  ["   ✓ Types: " ++ nameList (g.types.map (·.name)),
   "   ✓ Enums: " ++ nameList (g.enums.map (·.name))] ++ g.root.properties.map propertyLine

/-- The first lines of a text. -/
def firstLines (count : Nat) (text : String) : List String := (text.splitOn "\n").take count

/-- Emits the module of a generation; `report` has been reported before. -/
def emit (report : List String) (fileName : String) (g : Generation) : Outcome :=
  let report := report ++ buildReport g ++ ["", "2. GENERATING MODULE..."]
  match Emission.moduleText g with
  | .error e => { report, file := none, error := some (.emission e) }
  | .ok text =>
    { report := report ++ ["   ✓ Saved " ++ fileName, "", "3. SAMPLE OUTPUT:", rule '-'] ++
        firstLines 30 text
      file := some (fileName, text)
      error := none }

/-- A whole run. -/
def run (input : Option Input) : Outcome :=
  match schema input with
  | .error e => { report := [], file := none, error := some (.schema e) }
  | .ok (s, name) =>
    let report := title ++ ["", "1. BUILDING DESCRIPTORS..."]
    match Generation.ofSchema s {} name with
    | .error e => { report, file := none, error := some (.build e) }
    | .ok g => emit report (name.toLower ++ "_model.py") g

end SchemaModel.Demo
