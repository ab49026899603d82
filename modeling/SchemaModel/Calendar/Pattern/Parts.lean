import SchemaModel.Calendar.Moment
import SchemaModel.Calendar.Pattern.Field
import SchemaModel.Number.Numeral

/-!
From the fields of a date pattern to a moment: what each field contributes, and how a date follows
from a year with a month and day, a day of the year, or a week and a weekday.
-/
namespace SchemaModel.Pattern

/-- What the fields of a text say about a moment. -/
structure Parts where
  year : Option Nat := none
  isoYear : Option Nat := none
  month : Nat := 1
  day : Nat := 1
  hour : Nat := 0
  minute : Nat := 0
  second : Nat := 0
  microsecond : Nat := 0
  /-- Monday is 0. -/
  weekday : Option Nat := none
  dayOfYear : Option Nat := none
  /-- The week of the year, and whether weeks start on Monday rather than on Sunday. -/
  week : Option (Nat × Bool) := none
  isoWeek : Option Nat := none
  /-- Microseconds ahead of universal time. -/
  offset : Option Int := none

/-- The number that digits of any script stand for. -/
def digitsValue (cs : List Char) : Nat :=
  cs.foldl (fun n c => match Text.digitValue? c with
    | some d => n * 10 + d
    | none => n) 0

/-- A name in lower case. The capital dotted I becomes two characters. -/
def lowerName (cs : List Char) : List Char :=
  cs.flatMap fun c => if c.toNat = 0x130 then ['i', Char.ofNat 0x307] else [Text.lowerChar c]

/-- The place of a name in a list. A name may have matched through a letter that only shares its
capital with the right one; such a name is not in the list. -/
def namePlace (names : List String) (cs : List Char) : Except DateFault Nat :=
  let name := String.ofList (lowerName cs)
  match names.idxOf? name with
  | some i => .ok i
  | none => .error (.unknownName name)

/-- An offset: sign, hours and minutes, seconds, and a fraction after the point, in microseconds. If
a colon follows the hours, one must stand before the seconds too. -/
def offsetMicros (zone : List Char) : Except DateFault Int := do
  if zone = ['Z'] then return 0
  let z ← match zone.drop 3 with
    | ':' :: rest =>
      match rest.drop 2 with
      | [] => pure (zone.take 3 ++ rest)
      | ':' :: more => pure (zone.take 3 ++ rest.take 2 ++ more)
      | _ => throw (.zoneColons (String.ofList zone))
    | _ => pure zone
  let secondDigits := (z.drop 5).take 2
  if secondDigits.head? = some ':' then throw (.zoneSeconds (String.ofList secondDigits))
  let seconds := (digitsValue ((z.drop 1).take 2) * 60 + digitsValue ((z.drop 3).take 2)) * 60
    + digitsValue secondDigits
  let fraction := z.drop 8
  let micros := seconds * 1000000 + digitsValue fraction * Nat.pow 10 (6 - fraction.length)
  return if z.head? = some '-' then -(micros : Int) else micros

/-- The hour of the day from the hour of a half day. -/
def fullHour (hour : Nat) (afternoon : Bool) : Nat :=
  if afternoon then (if hour = 12 then 12 else hour + 12) else (if hour = 12 then 0 else hour)

/-- Adds what one field says. Later fields win over earlier ones; `afternoon` says whether the text
names the second half of the day. -/
def Parts.add (afternoon : Bool) (p : Parts) : Reading → Except DateFault Parts
  | (.shortYear, cs) =>
    let n := digitsValue cs
    .ok { p with year := some (if n ≤ 68 then n + 2000 else n + 1900) }
  | (.year, cs) => .ok { p with year := some (digitsValue cs) }
  | (.isoYear, cs) => .ok { p with isoYear := some (digitsValue cs) }
  | (.month, cs) => .ok { p with month := digitsValue cs }
  | (.monthLong, cs) => do return { p with month := (← namePlace monthNames cs) + 1 }
  | (.monthShort, cs) => do return { p with month := (← namePlace (shortNames monthNames) cs) + 1 }
  | (.day, cs) => .ok { p with day := digitsValue cs }
  | (.hour, cs) => .ok { p with hour := digitsValue cs }
  | (.hourOfHalf, cs) => .ok { p with hour := fullHour (digitsValue cs) afternoon }
  | (.minute, cs) => .ok { p with minute := digitsValue cs }
  | (.second, cs) => .ok { p with second := digitsValue cs }
  | (.fraction, cs) => .ok { p with microsecond := digitsValue cs * Nat.pow 10 (6 - cs.length) }
  | (.weekdayLong, cs) => do return { p with weekday := some (← namePlace weekdayNames cs) }
  | (.weekdayShort, cs) => do
    return { p with weekday := some (← namePlace (shortNames weekdayNames) cs) }
  | (.sundayBased, cs) => .ok { p with weekday := some ((digitsValue cs + 6) % 7) }
  | (.isoWeekday, cs) => .ok { p with weekday := some (digitsValue cs - 1) }
  | (.dayOfYear, cs) => .ok { p with dayOfYear := some (digitsValue cs) }
  | (.sundayWeek, cs) => .ok { p with week := some (digitsValue cs, false) }
  | (.mondayWeek, cs) => .ok { p with week := some (digitsValue cs, true) }
  | (.isoWeek, cs) => .ok { p with isoWeek := some (digitsValue cs) }
  | (.offset, cs) => do return { p with offset := some (← offsetMicros cs) }
  | (.half, _) | (.zone, _) => .ok p

/-- What all fields say together. -/
def Parts.ofReadings (readings : List Reading) : Except DateFault Parts :=
  let afternoon := readings.any fun (f, cs) => f == .half && lowerName cs == ['p', 'm']
  readings.foldlM (Parts.add afternoon) {}

/-- The year, the week and the weekday of the standard's weeks must come together. A week of the
year makes its week superfluous, and a year makes its year superfluous. -/
def Parts.checkWeeks (p : Parts) : Except DateFault Unit :=
  if p.year.isNone && p.isoYear.isSome then
    if p.isoWeek.isNone || p.weekday.isNone then .error .isoYearAlone
    else if p.dayOfYear.isSome then .error .dayOfYearWithIsoYear
    else .ok ()
  else if p.week.isNone && p.isoWeek.isSome then
    if p.weekday.isNone then .error .isoWeekAlone else .error .isoWeekWithYear
  else .ok ()

/-- The day of the year of a weekday in a week. The first week is the one in which the first Monday
or Sunday lies; the days before it are week 0. -/
def dayInWeek (year : Int) (week : Nat) (mondayBased : Bool) (weekday : Nat) :
    Except DateFault Int := do
  let first := (← Date.ofFields year 1 1).weekday
  let (first, weekday) :=
    if mondayBased then (first, weekday) else ((first + 1) % 7, (weekday + 1) % 7)
  if week = 0 then return 1 + weekday - first
  return 1 + ((7 - first) % 7 + 7 * (week - 1)) + weekday

/-- Year and day of the year of a weekday, Monday being 1, in a week of the standard. -/
def dayInIsoWeek (year : Int) (week weekday : Nat) : Except DateFault (Int × Int) := do
  let fourth ← Date.ofFields year 1 4
  let n : Int := week * 7 + weekday - (fourth.weekday + 4)
  if 1 ≤ n then return (year, n)
  let this ← Date.ofFields year 1 1
  let last ← Date.ofFields (year - 1) 1 1
  return (year - 1, n + this.dayNumber - last.dayNumber)

/-- Year and day of the year, if the fields name a day without month and day of the month. A day
before the first of January is counted in the year before. -/
def Parts.dayOfYear? (p : Parts) (year : Int) : Except DateFault (Int × Option Int) := do
  match p.dayOfYear, p.weekday with
  | some n, _ => return (year, some n)
  | none, none => return (year, none)
  | none, some weekday =>
    let found ← match p.week, p.isoYear, p.isoWeek with
      | some (week, mondayBased), _, _ => do
        pure (some (year, ← dayInWeek year week mondayBased weekday))
      | none, some isoYear, some isoWeek => do
        pure (some (← dayInIsoWeek isoYear isoWeek (weekday + 1)))
      | none, _, _ => pure none
    match found with
    | none => return (year, none)
    | some (year, n) =>
      if 1 ≤ n then return (year, some n)
      let before := year - 1
      let isLeap := before.emod 4 = 0 ∧ (before.emod 100 ≠ 0 ∨ before.emod 400 = 0)
      return (before, some (n + if isLeap then 366 else 365))

/-- The date that the fields name. Without a year it is 1900; the twenty-ninth of February is still
looked up in a leap year before it is found missing from 1900. -/
def Parts.date (p : Parts) : Except DateFault (Int × Int × Int) := do
  p.checkWeeks
  let leapDay := p.year.isNone && p.month == 2 && p.day == 29
  let year : Int := match p.year with
    | some y => y
    | none => if leapDay then 1904 else 1900
  let (year, n) ← p.dayOfYear? year
  let d ← match n with
    | none => Date.ofFields year p.month p.day
    | some n => do
      let first ← Date.ofFields year 1 1
      let number := n - 1 + first.dayNumber
      if number < 1 then throw .dayNumber
      match Date.ofDayNumber? number with
      | some d => pure d
      | none => throw (.year (Date.lastYear + 1))
  return (if leapDay then 1900 else d.year, d.month, d.day)

/-- The moment that the fields name on its own clock, and how far that clock is ahead of universal
time, in microseconds. -/
def Parts.moment (p : Parts) : Except DateFault (Moment × Option Int) := do
  let (year, month, day) ← p.date
  if let some micros := p.offset then
    if (Moment.microsPerDay : Int) ≤ micros.natAbs then throw (.offset (.ofMicroseconds micros))
  let m ← Moment.ofFields year month day p.hour p.minute p.second p.microsecond none
  return (m, p.offset)

/-- Reads a text by a pattern. -/
def moment (text pattern : String) : Except DateError (Moment × Option Int) := do
  let items ← (items pattern).mapError .fault
  if ¬ (fields items).Nodup then throw .repeatedField
  match read? items text.toList with
  | none => throw (.fault (.mismatch text pattern))
  | some (readings, rest) =>
    if ¬ rest.isEmpty then throw (.fault (.unconverted (String.ofList rest)))
    ((Parts.ofReadings readings).bind Parts.moment).mapError .fault

end SchemaModel.Pattern
