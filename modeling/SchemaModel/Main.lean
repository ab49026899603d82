import SchemaModel.Demo

/-!
The command line: one optional argument names a schema file.
-/
namespace SchemaModel

/-- The file that the command line names. -/
def readInput : List String → IO (Option Demo.Input)
  | [] => return none
  | name :: _ => return some { name, text := ← IO.FS.readFile name }

/-- What is printed about an early end. -/
def Demo.Error.message : Demo.Error → String
  | .schema e => e.message
  | .build (.collision c) | .emission (.reserved c) => c.message
  | .build (.conversion e) => e.message
  | .build .overflow | .emission (.expression .overflow) => "date value out of range"
  | .build .repeatedField => "a date pattern names a field twice"
  | .build .endlessItems => "an array contains itself"
  | .build .steps => "the schema is too deep"
  | .build .digits => Numeral.limitMessage none
  | .emission (.expression e) => e.message

end SchemaModel

def main (args : List String) : IO UInt32 := do
  let outcome := SchemaModel.Demo.run (← SchemaModel.readInput args)
  for line in outcome.report do
    IO.println line
  if let some (name, text) := outcome.file then
    IO.FS.writeFile name text
  match outcome.error with
  | none => return 0
  | some e =>
    IO.eprintln e.message
    return 1
