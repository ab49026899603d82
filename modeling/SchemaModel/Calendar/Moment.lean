import SchemaModel.Calendar.Date

/-!
Moments: a date and a time of day, with the distance of the clock from universal time when it is
known. Arithmetic goes through the count of microseconds since the start of year 1.
-/
namespace SchemaModel

/-- A date and a time of day. `offset` is how far the clock is ahead of universal time, in minutes;
a moment without it does not say which clock was read. -/
structure Moment where
  date : Date
  hour : Nat
  minute : Nat
  second : Nat
  microsecond : Nat
  offset : Option Int
  deriving DecidableEq, Repr, Inhabited

namespace Moment

def microsPerDay : Nat := 86400000000

/-- Microseconds of the clock time since the start of year 1. -/
def clockMicros (m : Moment) : Int :=
  ((m.date.dayNumber : Int) - 1) * microsPerDay +
    (((m.hour * 60 + m.minute) * 60 + m.second) * 1000000 + m.microsecond : Nat)

/-- Microseconds of universal time since the start of year 1; a clock that is not known is taken to
show universal time. -/
def instant (m : Moment) : Int := m.clockMicros - m.offset.getD 0 * 60000000

/-- The moment at which a clock shows the given count of microseconds, if the calendar reaches
it. -/
def ofClockMicros? (micros : Int) (offset : Option Int) : Option Moment :=
  if 0 ≤ micros ∧ micros < (Date.dayCount * microsPerDay : Nat) then
    let n := micros.toNat
    let r := n % microsPerDay
    some
      { date := Date.ofDayNumber (n / microsPerDay + 1)
        hour := r / 3600000000
        minute := r / 60000000 % 60
        second := r / 1000000 % 60
        microsecond := r % 1000000
        offset }
  else none

/-- The same instant on the clock of universal time. -/
def toUtc? (m : Moment) : Option Moment := ofClockMicros? m.instant (some 0)

/-- The moment a day later on the same clock. -/
def nextDay? (m : Moment) : Option Moment :=
  ofClockMicros? (m.clockMicros + microsPerDay) m.offset

/-- The start of 1970 in universal time. -/
def epoch : Moment := ⟨⟨1970, 1, 1⟩, 0, 0, 0, 0, some 0⟩

/-- The moment that lies `millis` milliseconds after the epoch. -/
def ofEpochMillis (millis : Int) : Except DateFault Moment :=
  match ofClockMicros? (epoch.instant + millis * 1000) (some 0) with
  | some m => .ok m
  | none => .error (.millis millis)

/-- Whole milliseconds between the epoch and a moment, rounded down. -/
def epochMillis (m : Moment) : Int := (m.instant - epoch.instant).fdiv 1000

/-- The moment with the given fields, if there is one. -/
def ofFields (year month day hour minute second : Int) (microsecond : Nat) (offset : Option Int) :
    Except DateFault Moment := do
  let date ← Date.ofFields year month day
  if hour < 0 ∨ 23 < hour then throw .hour
  if minute < 0 ∨ 59 < minute then throw .minute
  if second < 0 ∨ 59 < second then throw .second
  return { date, hour := hour.toNat, minute := minute.toNat, second := second.toNat, microsecond,
           offset }

/-- Whether two moments are the same: the same instant if both clocks are known, the same reading
if neither is. -/
def same (a b : Moment) : Bool :=
  match a.offset, b.offset with
  | some _, some _ => a.instant == b.instant
  | none, none => a.clockMicros == b.clockMicros
  | _, _ => false

theorem same_refl (m : Moment) : m.same m = true := by
  simp only [same]
  cases m.offset <;> simp

theorem same_comm (a b : Moment) : a.same b = b.same a := by
  simp only [same]
  cases a.offset <;> cases b.offset <;> simp [Bool.beq_comm]

theorem same_trans {a b c : Moment} (hab : a.same b = true) (hbc : b.same c = true) :
    a.same c = true := by
  simp only [same] at hab hbc ⊢
  cases ha : a.offset <;> cases hb : b.offset <;> cases hc : c.offset <;> simp_all

/-- The text of an offset: sign, hours and minutes. -/
def offsetText (minutes : Int) : String :=
  (if minutes < 0 then "-" else "+") ++ Date.padded 2 (minutes.natAbs / 60) ++ ":" ++
    Date.padded 2 (minutes.natAbs % 60)

/-- The standard form, with `separator` between date and time; the fraction of the second is left
out when it is zero. -/
def text (separator : String) (m : Moment) : String :=
  m.date.iso ++ separator ++ Date.padded 2 m.hour ++ ":" ++ Date.padded 2 m.minute ++ ":" ++
    Date.padded 2 m.second ++
    (if m.microsecond = 0 then "" else "." ++ Date.padded 6 m.microsecond) ++
    (match m.offset with
     | some o => offsetText o
     | none => "")

/-- The standard form `YYYY-MM-DDThh:mm:ss`. -/
def iso (m : Moment) : String := m.text "T"

/-- The expression that builds the clock of an offset. -/
def offsetSource (minutes : Int) : String :=
  if minutes = 0 then "datetime.timezone.utc"
  else "datetime.timezone(" ++ (Span.ofMicroseconds (minutes * 60000000)).source ++ ")"

/-- The expression that builds the moment; seconds and microseconds that are zero are left out from
the right. -/
def source (m : Moment) : String :=
  let fields := [m.date.year, m.date.month, m.date.day, m.hour, m.minute] ++
    (if m.second = 0 ∧ m.microsecond = 0 then [] else [m.second]) ++
    (if m.microsecond = 0 then [] else [m.microsecond])
  "datetime.datetime(" ++ ", ".intercalate (fields.map toString) ++
    (match m.offset with
     | some o => ", tzinfo=" ++ offsetSource o
     | none => "") ++ ")"

end Moment
end SchemaModel
