import SchemaModel.Calendar.Iso
import SchemaModel.Calendar.Pattern.Parts

/-!
Reading of a date by the format that its property declares. A format with a percent sign is a
pattern; any other names the standard form. The result is always in universal time.
-/
namespace SchemaModel.Moment

/-- Moves a moment to universal time, `ahead` microseconds being the distance of its clock. -/
def shifted (text : String) (m : Moment) (ahead : Int) : Except DateError Moment :=
  match ofClockMicros? (m.clockMicros - ahead) (some 0) with
  | some m => .ok m
  | none => .error (.fault (.moment text))

/-- The pattern that a declared format is, if it has a percent sign. -/
def pattern? (format : Option String) : Option String := format.filter (·.toList.contains '%')

/-- The moment in universal time that a text stands for under a declared format. A text that names
no zone is in universal time already. -/
def ofText (text : String) (format : Option String) : Except DateError Moment := do
  match pattern? format with
  | some pattern =>
    let (m, ahead) ← Pattern.moment text pattern
    shifted text m (ahead.getD 0)
  | none =>
    let m ← Iso.moment text
    shifted text m (m.offset.getD 0 * 60000000)

end SchemaModel.Moment
