import SchemaModel.Calendar.Fault

/-!
The Gregorian calendar of the years 1 to 9999: dates, day numbers counted from the first day of
year 1, days of the week and weeks of the international standard.
-/
namespace SchemaModel

/-- A calendar date. -/
structure Date where
  year : Nat
  month : Nat
  day : Nat
  deriving DecidableEq, Repr, Inhabited

namespace Date

def isLeap (year : Nat) : Bool := year % 4 == 0 && (year % 100 != 0 || year % 400 == 0)

def daysInYear (year : Nat) : Nat := if isLeap year then 366 else 365

/-- The lengths of the months from January on. -/
def monthLengths (year : Nat) : List Nat :=
  [31, if isLeap year then 29 else 28, 31, 30, 31, 30, 31, 31, 30, 31, 30, 31]

/-- The length of a month counted from 1. -/
def daysInMonth (year month : Nat) : Nat := ((monthLengths year)[month - 1]?).getD 0

def lastYear : Nat := 9999

/-- Days before the first of January. -/
def daysBeforeYear (year : Nat) : Nat :=
  let y := year - 1
  365 * y + y / 4 - y / 100 + y / 400

/-- The days of several months together. -/
def totalDays (lens : List Nat) : Nat := lens.foldr (· + ·) 0

/-- Days of the year before the first of a month. -/
def daysBeforeMonth (year month : Nat) : Nat := totalDays ((monthLengths year).take (month - 1))

/-- The number of a date; the first day of year 1 has number 1. -/
def dayNumber (d : Date) : Nat := daysBeforeYear d.year + daysBeforeMonth d.year d.month + d.day

/-- The month and day that lie `rest` days after the first day of the month `month`, given the
lengths of that month and of the following ones. -/
def monthFrom (month rest : Nat) : List Nat → Nat × Nat
  | [] => (month, rest + 1)
  | len :: lens => if rest < len then (month, rest + 1) else monthFrom (month + 1) (rest - len) lens

/-- The year that holds the day `n` days after the first day of year 1, and the days of that year
before it. Cycles of 400, 100, 4 and 1 years are split off in turn; the last century of a cycle and
the last year of four are a day longer than the others. -/
def yearFrom (n : Nat) : Nat × Nat :=
  let n400 := n / 146097
  let r := n % 146097
  let n100 := min (r / 36524) 3
  let r := r - n100 * 36524
  let n4 := r / 1461
  let r := r % 1461
  let n1 := min (r / 365) 3
  (n400 * 400 + n100 * 100 + n4 * 4 + n1 + 1, r - n1 * 365)

/-- The date with a given number. -/
def ofDayNumber (n : Nat) : Date :=
  let (year, rest) := yearFrom (n - 1)
  let (month, day) := monthFrom 1 rest (monthLengths year)
  ⟨year, month, day⟩

/-- The number of days that the calendar has. -/
def dayCount : Nat := daysBeforeYear (lastYear + 1)

/-- The date with a given number, if the calendar reaches it. -/
def ofDayNumber? (n : Int) : Option Date :=
  if 1 ≤ n ∧ n ≤ dayCount then some (ofDayNumber n.toNat) else none

/-- The day of the week, Monday being 0. -/
def weekday (d : Date) : Nat := (d.dayNumber + 6) % 7

/-- The date with the given fields, if there is one. -/
def ofFields (year month day : Int) : Except DateFault Date :=
  if year < 1 ∨ (lastYear : Int) < year then .error (.year year)
  else if month < 1 ∨ 12 < month then .error .month
  else if day < 1 ∨ (daysInMonth year.toNat month.toNat : Int) < day then .error .day
  else .ok ⟨year.toNat, month.toNat, day.toNat⟩

/-- Digits of `n`, padded with zeros to `width`. -/
def padded (width n : Nat) : String :=
  let ds := Nat.toDigits 10 n
  String.ofList (List.replicate (width - ds.length) '0' ++ ds)

/-- The standard form `YYYY-MM-DD`. -/
def iso (d : Date) : String :=
  padded 4 d.year ++ "-" ++ padded 2 d.month ++ "-" ++ padded 2 d.day

/-- The expression that builds the date. -/
def source (d : Date) : String :=
  "datetime.date(" ++ toString d.year ++ ", " ++ toString d.month ++ ", " ++ toString d.day ++ ")"

example : ofDayNumber 1 = ⟨1, 1, 1⟩ := by decide
example : ofDayNumber dayCount = ⟨9999, 12, 31⟩ := by decide
example : ofDayNumber (dayNumber ⟨2000, 2, 29⟩) = ⟨2000, 2, 29⟩ := by decide

end Date
end SchemaModel
