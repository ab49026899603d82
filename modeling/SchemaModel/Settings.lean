import SchemaModel.OrderedSet.Algebra
import SchemaModel.Value.Order

/-!
Settings of a generation: how integers are represented, and which named formats make a text a date.
-/
namespace SchemaModel

structure Settings where
  /-- Represents `integer` with 64 bits instead of 32. -/
  longIntegers : Bool := false
  /-- Formats that name the standard form of dates. A format with a percent sign is a date pattern
  in any case. -/
  dateFormats : List Value := [.text "date-time", .text "date"]
  deriving Repr, Inhabited

/-- Why a document holds no settings. -/
inductive SettingsError
  /-- Names that are no setting, in order. -/
  | unknown (names : List Value)
  /-- A value of the wrong shape. -/
  | shape
  deriving Repr

def SettingsError.message : SettingsError → String
  | .unknown names =>
    match (Value.list names).source? with
    | some source => "Unknown generation settings: " ++ source
    | none => Numeral.limitMessage none
  | .shape => ""

namespace Settings

/-- The name of a format that makes a text a date, if the declared format is one. -/
def dateFormat? (s : Settings) (format : Value) : Option String :=
  match format with
  | .text f =>
    if !f.isEmpty && (format.isAmong s.dateFormats || f.contains '%') then some f else none
  | _ => none

def isDateFormat (s : Settings) (format : Value) : Bool := (s.dateFormat? format).isSome

/-- The names of the settings. -/
def names : List Value := [.text "use_long_integers", .text "date_time_formats"]

/-- The formats that a document lists; a single text is a list of one. -/
def formats : Value → Except SettingsError (List Value)
  | .text f => .ok [.text f]
  | v =>
    match v.elements? with
    | some xs => .ok xs
    | none => .error .shape

/-- The settings that a mapping holds. -/
def ofEntries (entries : List (Value × Value)) : Except SettingsError Settings := do
  let dateFormats ← match Value.entry? "date_time_formats" entries with
    | some v => formats v
    | none => pure ({} : Settings).dateFormats
  return { longIntegers := ((Value.entry? "use_long_integers" entries).map Value.isGiven).getD false
           dateFormats }

/-- The settings that a document holds; an empty one holds the defaults. Whatever has elements is
searched for unknown names before its shape is looked at. -/
def ofValue (document : Value) : Except SettingsError Settings := do
  if !document.isGiven then return {}
  match document.elements? with
  | none => throw .shape
  | some keys =>
    if !Value.allFixed keys then throw .shape
    let unknown := (OrderedSet.ofList keys).order.filter fun k => !k.isAmong names
    match Value.sorted? unknown with
    | none => throw .shape
    | some [] =>
      match document with
      | .mapping entries => ofEntries entries
      | _ => throw .shape
    | some sorted => throw (.unknown sorted)

end Settings
end SchemaModel
