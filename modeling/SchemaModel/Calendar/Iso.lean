import SchemaModel.Calendar.Moment
import SchemaModel.Number.Numeral

/-!
Reading of dates in the international standard form: a calendar date, a week date or a day of the
year, then optionally one separator and a time of day with its zone. Numbers stand in slices of
fixed width; inside its slice a number may be written with blanks, a sign or underscores.
-/
namespace SchemaModel.Iso

def isAsciiBlank (c : Char) : Bool := c == ' ' || (0x9 ≤ c.toNat && c.toNat ≤ 0xd)

/-- The integer that a slice stands for. -/
def sliceInt (cs : List Char) : Except DateFault Int :=
  let body := ((cs.dropWhile isAsciiBlank).reverse.dropWhile isAsciiBlank).reverse
  match Numeral.intOfChars? 10 body with
  | some n => .ok n
  | none => .error (.notInteger (cs.map fun c => UInt8.ofNat c.toNat))

/-- The fields of a date as written, and the text after them. -/
structure DateFields where
  year : Int
  month : Int
  day : Int
  rest : List Char

/-- The month and day after the year, when they are written as a calendar date. -/
def monthAndDay? (year : Int) (dashed : Bool) (cs : List Char) : Option DateFields :=
  if cs.length < 2 then none
  else
    match sliceInt (cs.take 2), cs.drop 2 with
    | .error _, _ => none
    | .ok month, [] => if dashed then some ⟨year, month, 1, []⟩ else none
    | .ok month, rest =>
      let days? := if dashed then (if rest.head? = some '-' then some rest.tail else none)
        else some rest
      match days? with
      | none => none
      | some days =>
        if days.length < 2 then none
        else match sliceInt (days.take 2) with
          | .error _ => none
          | .ok day => some ⟨year, month, day, days.drop 2⟩

/-- A calendar date: `YYYY`, `YYYY-MM`, `YYYY-MM-DD` or `YYYYMMDD`. -/
def calendarDate? (cs : List Char) : Option DateFields :=
  if cs.length < 4 then none
  else
    match sliceInt (cs.take 4), cs.drop 4 with
    | .error _, _ => none
    | .ok year, [] => some ⟨year, 1, 1, []⟩
    | .ok year, '-' :: rest => monthAndDay? year true rest
    | .ok year, rest => monthAndDay? year false rest

/-- The day `days` after a date. -/
def dayAfter (d : Date) (days : Int) : Except DateError Date :=
  match Date.ofDayNumber? (d.dayNumber + days) with
  | some d => .ok d
  | none => .error .overflow

/-- The date of a day in a week of the year. The first week is the one that holds the fourth of
January; weeks start on Monday, which is day 1. -/
def weekDate (year week day : Int) : Except DateError Date :=
  if week < 1 ∨ 53 < week then .error (.fault (.week week))
  else if day < 1 ∨ 7 < day then .error (.fault (.weekday day))
  else
    match Date.ofFields year 1 4 with
    | .error f => .error (.fault f)
    | .ok fourth => do
      dayAfter (← dayAfter fourth (-fourth.weekday)) ((week - 1) * 7 + (day - 1))

/-- The date of a day of the year. -/
def dayOfYearDate (year n : Int) : Except DateError Date :=
  let isLeap := year.emod 4 = 0 ∧ (year.emod 100 ≠ 0 ∨ year.emod 400 = 0)
  if n < 1 ∨ (if isLeap then 366 else 365) < n then .error (.fault (.dayOfYear n year))
  else
    match Date.ofFields year 1 1 with
    | .error f => .error (.fault f)
    | .ok first => dayAfter first (n - 1)

/-- The day named after the year: a week with an optional weekday, or a day of the year. Where a
dash stands after the year, one must stand before the weekday too. -/
def dayInYear (year : Int) (dashed : Bool) : List Char → Except DateError DateFields
  | 'W' :: rest => do
    let week ← (sliceInt (rest.take 2)).mapError .fault
    match rest.drop 2 with
    | [] => do
      let d ← weekDate year week 1
      return ⟨d.year, d.month, d.day, []⟩
    | c :: more => do
      if decide (c = '-') != dashed then throw (.fault .dashes)
      let day := if dashed then more else c :: more
      let weekday ← (sliceInt (day.take 1)).mapError .fault
      let d ← weekDate year week weekday
      return ⟨d.year, d.month, d.day, day.drop 1⟩
  | rest => do
    if rest.length < 3 then throw (.fault .shortDayOfYear)
    let n ← (sliceInt (rest.take 3)).mapError .fault
    let d ← dayOfYearDate year n
    return ⟨d.year, d.month, d.day, rest.drop 3⟩

/-- A week date, `YYYY-Www-D` or `YYYYWwwD` with the day optional, or a day of the year, `YYYY-DDD`
or `YYYYDDD`. -/
def ordinalDate (cs : List Char) : Except DateError DateFields := do
  if cs.length < 4 then throw (.fault .tooShort)
  let year ← (sliceInt (cs.take 4)).mapError .fault
  match cs.drop 4 with
  | '-' :: rest => dayInYear year true rest
  | rest => dayInYear year false rest

/-- The date at the start of a text: a calendar date if there is one. -/
def dateFields (cs : List Char) : Except DateError DateFields :=
  match calendarDate? cs with
  | some d => .ok d
  | none => ordinalDate cs

/-- The time of day as read so far; the offset is in minutes. -/
structure ClockFields where
  hour : Int := 0
  minute : Int := 0
  second : Int := 0
  microsecond : Nat := 0
  offset : Option Int := none

/-- The offset of a zone: `Z`, or a sign with hours and optional minutes. -/
def zone (cs : List Char) : Except DateFault Int := do
  if cs = ['Z'] ∨ cs = ['z'] then return 0
  if cs.length ≠ 3 ∧ cs.length ≠ 5 ∧ cs.length ≠ 6 then throw .zoneLength
  let sign : Int ← match cs with
    | '-' :: _ => pure (-1)
    | '+' :: _ => pure 1
    | _ => throw .zoneSign
  let hours ← sliceInt ((cs.drop 1).take 2)
  let minutes ← match cs.drop 3 with
    | [] => pure 0
    | ':' :: ds => sliceInt ds
    | ds => sliceInt ds
  if hours = 0 ∧ minutes = 0 then return 0
  if 59 < minutes then throw .zoneMinutes
  if 23 < hours then throw .zoneHours
  return sign * (hours * 60 + minutes)

/-- The fraction of a second at the start of a text, in microseconds, and what follows it. -/
def fraction? : List Char → Option (Nat × List Char)
  | c :: cs =>
    if c = '.' ∨ c = ',' then
      let ds := cs.takeWhile Char.isDigit
      if ds.isEmpty then none
      else
        let six := ds.take 6
        some (Numeral.natOfDigits six * Nat.pow 10 (6 - six.length), cs.dropWhile Char.isDigit)
    else none
  | [] => none

/-- The components that a time of day may have, in their order; the last two only give a zone a
further chance to stand. -/
inductive Component
  | hour | minute | second | fraction | spare

/-- Removes the colon in front of a component. The colon before the minute decides whether the
second needs one too. -/
def skipColon : Component → Bool → List Char → Except DateFault (Bool × List Char)
  | .minute, _, ':' :: cs => .ok (true, cs)
  | .second, true, ':' :: cs => .ok (true, cs)
  | .second, true, _ => .error .colons
  | _, colons, cs => .ok (colons, cs)

/-- Reads one component and gives what follows it. -/
def readComponent (c : Component) (f : ClockFields) (cs : List Char) :
    Except DateFault (ClockFields × List Char) := do
  match c with
  | .hour => return ({ f with hour := ← sliceInt (cs.take 2) }, cs.drop 2)
  | .minute => return ({ f with minute := ← sliceInt (cs.take 2) }, cs.drop 2)
  | .second => return ({ f with second := ← sliceInt (cs.take 2) }, cs.drop 2)
  | .fraction =>
    match fraction? cs with
    | some (n, rest) => return ({ f with microsecond := n }, rest)
    | none => return (f, cs)
  | .spare => return (f, cs)

/-- Reads the components in turn until the text ends or a zone takes all of it. -/
def readComponents (colons : Bool) (f : ClockFields) (cs : List Char) :
    List Component → Except DateFault ClockFields
  | [] => if cs.isEmpty then .ok f else .error .leftover
  | c :: more => do
    match cs with
    | [] => return f
    | x :: _ =>
      if x = '-' ∨ x = '+' ∨ x = 'Z' ∨ x = 'z' then return { f with offset := some (← zone cs) }
      let (colons, cs) ← skipColon c colons cs
      let (f, cs) ← readComponent c f cs
      readComponents colons f cs more

/-- A time of day. Midnight at the end of the day is hour 24 with nothing after it. -/
def clock (cs : List Char) : Except DateFault ClockFields := do
  if cs.length < 2 then throw .clockTooShort
  let f ← readComponents false {} cs [.hour, .minute, .second, .fraction, .spare, .spare]
  if f.hour = 24 ∧ (f.minute ≠ 0 ∨ f.second ≠ 0 ∨ f.microsecond ≠ 0) then throw .midnight
  return f

/-- The time of day after one character that separates it from the date, if there is one. -/
def timeOfDay : List Char → Except DateFault ClockFields
  | [] => .ok {}
  | _ :: rest => clock rest

/-- The moment of a date and a time of day. -/
def momentOn (d : DateFields) (f : ClockFields) : Except DateError Moment := do
  let hour := if f.hour = 24 then 0 else f.hour
  let m ← (Moment.ofFields d.year d.month d.day hour f.minute f.second f.microsecond
    f.offset).mapError .fault
  if f.hour ≠ 24 then return m
  match m.nextDay? with
  | some m => return m
  | none => throw .overflow

/-- The moment that a text in standard form stands for, on the clock that it names. -/
def moment (text : String) : Except DateError Moment := do
  let cs := text.toList
  if cs.any fun c => 0x7f < c.toNat then throw (.fault .notAscii)
  let d ← dateFields cs
  let f ← (timeOfDay d.rest).mapError .fault
  momentOn d f

end SchemaModel.Iso
