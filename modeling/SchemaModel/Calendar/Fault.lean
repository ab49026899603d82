import SchemaModel.Number.Numeral

/-!
What can go wrong when a date is read or moved, with the wording of each fault.
-/
namespace SchemaModel

/-- A length of time as days, seconds below a day and microseconds below a second. -/
structure Span where
  days : Int
  seconds : Nat
  microseconds : Nat
  deriving DecidableEq, Repr

namespace Span

def ofMicroseconds (n : Int) : Span :=
  let seconds := n.fdiv 1000000
  { days := seconds.fdiv 86400
    seconds := (seconds.fmod 86400).toNat
    microseconds := (n.fmod 1000000).toNat }

/-- The expression that builds the span; parts that are zero are left out. -/
def source (s : Span) : String :=
  let parts :=
    (if s.days = 0 then [] else ["days=" ++ toString s.days]) ++
    (if s.seconds = 0 then [] else ["seconds=" ++ toString s.seconds]) ++
    (if s.microseconds = 0 then [] else ["microseconds=" ++ toString s.microseconds])
  let inner := if parts.isEmpty then "0" else ", ".intercalate parts
  "datetime.timedelta(" ++ inner ++ ")"

end Span

/-- Why a text is no date, or a date does not exist. -/
inductive DateFault
  -- fields out of range
  | year (n : Int)
  | month
  | day
  | hour
  | minute
  | second
  | dayNumber
  | offset (span : Span)
  -- moments out of range
  | moment (text : String)
  | millis (n : Int)
  -- the international standard form
  | notAscii
  | notInteger (octets : List UInt8)
  | tooShort
  | dashes
  | week (n : Int)
  | weekday (n : Int)
  | shortDayOfYear
  | dayOfYear (n year : Int)
  | clockTooShort
  | colons
  | leftover
  | midnight
  | zoneLength
  | zoneSign
  | zoneMinutes
  | zoneHours
  -- dates in a declared pattern
  | directive (name : Char) (pattern : String)
  | lonePercent (pattern : String)
  | mismatch (text pattern : String)
  | unconverted (rest : String)
  | unknownName (name : String)
  | zoneColons (zone : String)
  | zoneSeconds (digits : String)
  | dayOfYearWithIsoYear
  | isoYearAlone
  | isoWeekAlone
  | isoWeekWithYear
  deriving DecidableEq, Repr

/-- A failed conversion to a date. Most failures are faults of the text; a shift beyond the last day
and a pattern that names a field twice are reported apart from them. -/
inductive DateError
  | fault (cause : DateFault)
  | overflow
  | repeatedField
  deriving DecidableEq, Repr

namespace DateFault

def message : DateFault → String
  | .year n => "year " ++ toString n ++ " is out of range"
  | .month => "month must be in 1..12"
  | .day => "day is out of range for month"
  | .hour => "hour must be in 0..23"
  | .minute => "minute must be in 0..59"
  | .second => "second must be in 0..59"
  | .dayNumber => "ordinal must be >= 1"
  | .offset span =>
    "offset must be a timedelta strictly between -timedelta(hours=24) and timedelta(hours=24), not "
      ++ span.source ++ "."
  | .moment text => Text.quoted text ++ " is outside the supported date range"
  | .millis n =>
    if Numeral.isLong n then Numeral.limitMessage none
    else toString n ++ " ms is outside the supported date range"
  | .notAscii => "ISO-8601 strings should contain only ASCII characters"
  | .notInteger octets =>
    "invalid literal for int() with base 10: " ++ (Text.quotedOctets octets).take 200
  | .tooShort => "ISO string too short"
  | .dashes => "Inconsistent use of dash separator"
  | .week n => "Invalid week: " ++ toString n
  | .weekday n => "Invalid weekday: " ++ toString n
  | .shortDayOfYear => "Invalid ordinal day"
  | .dayOfYear n y => "Invalid ordinal day " ++ toString n ++ " for year " ++ toString y
  | .clockTooShort => "ISO time too short"
  | .colons => "Inconsistent use of colon separator"
  | .leftover => "Unused components in ISO string"
  | .midnight => "Hour may only be 24 at 24:00:00.000"
  | .zoneLength => "Time zone offset must be 1, 3, 5 or 6 characters"
  | .zoneSign => "Time zone offset requires sign"
  | .zoneMinutes => "Invalid minutes in time zone offset"
  | .zoneHours => "Invalid hours in time zone offset"
  | .directive name pattern =>
    "'" ++ name.toString ++ "' is a bad directive in format '" ++ pattern ++ "'"
  | .lonePercent pattern => "stray % in format '" ++ pattern ++ "'"
  | .mismatch text pattern =>
    "time data " ++ Text.quoted text ++ " does not match format " ++ Text.quoted pattern
  | .unconverted rest => "unconverted data remains: " ++ rest
  | .unknownName name => Text.quoted name ++ " is not in list"
  | .zoneColons zone => "Inconsistent use of : in " ++ zone
  | .zoneSeconds digits => "invalid literal for int() with base 10: " ++ Text.quoted digits
  | .dayOfYearWithIsoYear =>
    "Day of the year directive '%j' is not compatible with ISO year directive '%G'. "
      ++ "Use '%Y' instead."
  | .isoYearAlone =>
    "ISO year directive '%G' must be used with the ISO week directive '%V' and a weekday "
      ++ "directive ('%A', '%a', '%w', or '%u')."
  | .isoWeekAlone =>
    "ISO week directive '%V' must be used with the ISO year directive '%G' and a weekday "
      ++ "directive ('%A', '%a', '%w', or '%u')."
  | .isoWeekWithYear =>
    "ISO week directive '%V' is incompatible with the year directive '%Y'. "
      ++ "Use the ISO year '%G' instead."

end DateFault
end SchemaModel
