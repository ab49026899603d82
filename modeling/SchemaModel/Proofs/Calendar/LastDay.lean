import SchemaModel.Proofs.Calendar.Order
import SchemaModel.Proofs.Calendar.StandardForm

/-!
The last day of the calendar. A text in standard form leads past it in two ways: it names a week of
the last year that ends in the year after, or the midnight at the end of the last day.
-/
namespace SchemaModel

namespace Date

/-- A date that its fields give is in the calendar, and has these fields. -/
theorem ofFields_eq_ok {year month day : Int} {d : Date} (h : ofFields year month day = .ok d) :
    d.Valid ∧ year = d.year ∧ month = d.month ∧ day = d.day := by
  unfold ofFields at h
  split at h
  · cases h
  · split at h
    · cases h
    · split at h
      · cases h
      · cases h
        refine ⟨⟨?_, ?_, ?_⟩, ?_, ?_, ?_⟩ <;> simp only <;> omega

theorem ofFields_january {year day : Int} {d : Date} (h : ofFields year 1 day = .ok d) :
    d.Valid ∧ year = d.year ∧ (d.dayNumber : Int) = daysBeforeYear d.year + day := by
  obtain ⟨hvalid, hy, hm, rfl⟩ := ofFields_eq_ok h
  refine ⟨hvalid, hy, ?_⟩
  have hmonth : d.month = 1 := by omega
  rw [dayNumber, hmonth]
  simp [daysBeforeMonth, totalDays]

theorem daysInYear_cast (y : Nat) : (daysInYear y : Int) =
    if Int.emod y 4 = 0 ∧ (Int.emod y 100 ≠ 0 ∨ Int.emod y 400 = 0) then 366 else 365 := by
  have hleap : isLeap y = true ↔
      Int.emod y 4 = 0 ∧ (Int.emod y 100 ≠ 0 ∨ Int.emod y 400 = 0) := by
    simp only [isLeap, Bool.and_eq_true, Bool.or_eq_true, beq_iff_eq, bne_iff_ne]
    show _ ↔ (y : Int) % 4 = 0 ∧ ((y : Int) % 100 ≠ 0 ∨ (y : Int) % 400 = 0)
    omega
  simp only [daysInYear, ← hleap]
  split <;> rfl

end Date

/-- Whether an error says why a text is no date. -/
def DateError.IsFault (e : DateError) : Prop := ∃ f, e = .fault f

theorem DateError.isFault_of_mapError {α : Type} {x : Except DateFault α} {e : DateError}
    (h : x.mapError DateError.fault = .error e) : e.IsFault := by
  obtain ⟨f, -, rfl⟩ := Fallible.mapError_eq_error.mp h
  exact ⟨f, rfl⟩

namespace Iso

open Fallible DateError

/-! ## Days counted from another -/

theorem dayAfter_eq_ok {d d' : Date} {n : Int} (h : dayAfter d n = .ok d') :
    (d'.dayNumber : Int) = d.dayNumber + n ∧ d'.Valid := by
  unfold dayAfter at h
  split at h
  · rename_i u hu
    cases h
    unfold Date.ofDayNumber? at hu
    split at hu
    · cases hu
      refine ⟨?_, Date.valid_ofDayNumber (by omega) (by omega)⟩
      rw [Date.dayNumber_ofDayNumber (by omega)]
      omega
    · cases hu
  · cases h

theorem dayAfter_eq_error {d : Date} {n : Int} {e : DateError} :
    dayAfter d n = .error e ↔
      e = .overflow ∧ ((d.dayNumber : Int) + n < 1 ∨ (Date.dayCount : Int) < d.dayNumber + n) := by
  unfold dayAfter Date.ofDayNumber?
  by_cases h : 1 ≤ (d.dayNumber : Int) + n ∧ (d.dayNumber : Int) + n ≤ Date.dayCount
  · rw [if_pos h]
    simp only [reduceCtorEq, false_iff, not_and, not_or]
    omega
  · rw [if_neg h]
    simp only [Except.error.injEq]
    constructor
    · rintro rfl
      exact ⟨rfl, by omega⟩
    · rintro ⟨rfl, -⟩
      rfl

/-- The fourth of January 9999 is a Monday: only the last two days of week 52, and all of week 53,
come after the year. -/
theorem weekDate_eq_overflow {year week day : Int} : weekDate year week day = .error .overflow ↔
    year = 9999 ∧ 1 ≤ day ∧ day ≤ 7 ∧ (week = 53 ∨ week = 52 ∧ 6 ≤ day) := by
  unfold weekDate
  by_cases hweek : week < 1 ∨ 53 < week
  · rw [if_pos hweek]
    simp only [Except.error.injEq, reduceCtorEq, false_iff]
    omega
  rw [if_neg hweek]
  by_cases hday : day < 1 ∨ 7 < day
  · rw [if_pos hday]
    simp only [Except.error.injEq, reduceCtorEq, false_iff]
    omega
  rw [if_neg hday]
  cases hfourth : Date.ofFields year 1 4 with
  | error f =>
    simp only [Except.error.injEq, reduceCtorEq, false_iff]
    rintro ⟨rfl, -⟩
    cases hfourth
  | ok fourth =>
    obtain ⟨hvalid, hy, hnumber⟩ := Date.ofFields_january hfourth
    have hweekday : fourth.weekday = (fourth.dayNumber + 6) % 7 := rfl
    have hrange := hvalid.year
    simp only
    rw [bind_eq_error]
    have hmonday : ∃ m, dayAfter fourth (-fourth.weekday) = .ok m := by
      cases hm : dayAfter fourth (-fourth.weekday) with
      | ok m => exact ⟨m, rfl⟩
      | error e =>
        have := (dayAfter_eq_error.mp hm).2
        have := hvalid.dayNumber_le.1
        omega
    obtain ⟨monday, hmonday⟩ := hmonday
    have hmn := (dayAfter_eq_ok hmonday).1
    rw [hmonday]
    simp only [reduceCtorEq, Except.ok.injEq, exists_eq_left', false_or, dayAfter_eq_error,
      true_and]
    simp only [Date.dayCount, Date.daysBeforeYear, Date.lastYear] at *
    omega

theorem weekDate_eq_error {year week day : Int} {e : DateError}
    (h : weekDate year week day = .error e) : e.IsFault ∨ e = .overflow := by
  unfold weekDate at h
  split at h
  · cases h
    exact .inl ⟨_, rfl⟩
  split at h
  · cases h
    exact .inl ⟨_, rfl⟩
  split at h
  · cases h
    exact .inl ⟨_, rfl⟩
  · obtain h | ⟨d, -, h⟩ := bind_eq_error.mp h
    · exact .inr (dayAfter_eq_error.mp h).1
    · exact .inr (dayAfter_eq_error.mp h).1

/-- A day of the year stays within its year. -/
theorem dayOfYearDate_eq_error {year n : Int} {e : DateError}
    (h : dayOfYearDate year n = .error e) : e.IsFault := by
  unfold dayOfYearDate at h
  dsimp only at h
  by_cases hn : n < 1 ∨ (if year.emod 4 = 0 ∧ (year.emod 100 ≠ 0 ∨ year.emod 400 = 0) then 366
      else 365) < n
  · rw [if_pos hn] at h
    cases h
    exact ⟨_, rfl⟩
  rw [if_neg hn] at h
  cases hfirst : Date.ofFields year 1 1 with
  | error f =>
    rw [hfirst] at h
    cases h
    exact ⟨f, rfl⟩
  | ok first =>
    rw [hfirst] at h
    obtain ⟨hvalid, rfl, hnumber⟩ := Date.ofFields_january hfirst
    have hlast : _ ≤ Date.dayCount :=
      Date.daysBeforeYear_add_le hvalid.year.1 (Nat.lt_succ_of_le hvalid.year.2)
    rw [← Date.daysInYear_cast] at hn
    have := (dayAfter_eq_error.mp h).2
    omega

/-! ## Week dates in a text -/

/-- The dash that stands between the parts of a date, or does not. -/
def dash (dashed : Bool) : List Char := if dashed then ['-'] else []

/-- A text that starts with a week and a weekday. Without a weekday the week stands for its
Monday. -/
inductive NamesWeekday (dashed : Bool) : List Char → Int → Int → Prop
  | monday {ws : List Char} {week : Int} (hws : ws.length ≤ 2) (hweek : sliceInt ws = .ok week) :
      NamesWeekday dashed ('W' :: ws) week 1
  | weekday {ws rest : List Char} {c : Char} {week day : Int} (hws : ws.length = 2)
      (hweek : sliceInt ws = .ok week) (hday : sliceInt [c] = .ok day) :
      NamesWeekday dashed ('W' :: (ws ++ (dash dashed ++ c :: rest))) week day

/-- A text that starts with a year, a week and a weekday: `YYYY-Www-D` or `YYYYWwwD`. -/
inductive NamesWeek : List Char → Int → Int → Int → Prop
  | intro {ys rest : List Char} {year week day : Int} (dashed : Bool) (hys : ys.length = 4)
      (hyear : sliceInt ys = .ok year) (hday : NamesWeekday dashed rest week day) :
      NamesWeek (ys ++ (dash dashed ++ rest)) year week day

theorem intOfChars?_letter (cs : List Char) : Numeral.intOfChars? 10 ('W' :: cs) = none := by
  have hdigit : Numeral.digitIn? 10 'W' = none := by decide
  have hnone : Numeral.digitsFrom? 10 0 ('W' :: cs) = none := by
    cases cs with
    | nil => simp [Numeral.digitsFrom?, hdigit]
    | cons d cs => by_cases hd : d = '_' <;> simp [Numeral.digitsFrom?, hdigit, hd]
  have hsign : Numeral.splitSign ('W' :: cs) = (false, 'W' :: cs) := by simp [Numeral.splitSign]
  have hmark : Numeral.dropBaseMark 10 ('W' :: cs) = 'W' :: cs := by simp [Numeral.dropBaseMark]
  simp [Numeral.intOfChars?, hsign, hmark, hnone]

/-- A letter starts no number. -/
theorem sliceInt_letter (cs : List Char) : ∃ f, sliceInt ('W' :: cs) = .error f := by
  have hbody : ∃ ds, ((('W' :: cs).dropWhile isAsciiBlank).reverse.dropWhile isAsciiBlank).reverse
      = 'W' :: ds := by
    rw [List.dropWhile_cons_of_neg (by decide), List.reverse_cons, List.dropWhile_append]
    split
    · exact ⟨[], by decide⟩
    · exact ⟨(cs.reverse.dropWhile isAsciiBlank).reverse, by rw [List.reverse_append]; rfl⟩
  obtain ⟨ds, hds⟩ := hbody
  unfold sliceInt
  rw [hds]
  simp only [intOfChars?_letter]
  exact ⟨_, rfl⟩

/-- A text that names a week is no calendar date. -/
theorem NamesWeek.calendarDate? {cs : List Char} {year week day : Int}
    (h : NamesWeek cs year week day) : calendarDate? cs = none := by
  have hmonth : ∀ year dashed rest, monthAndDay? year dashed ('W' :: rest) = none := by
    intro year dashed rest
    obtain ⟨f, hf⟩ := sliceInt_letter (rest.take 1)
    unfold monthAndDay?
    split
    · rfl
    · rw [List.take_succ_cons, hf]
  obtain ⟨dashed, hys, hyear, hday⟩ := h
  rename_i ys rest
  obtain ⟨ws, rfl⟩ : ∃ ws, rest = 'W' :: ws := by cases hday <;> exact ⟨_, rfl⟩
  have hlen : ¬ (ys ++ (dash dashed ++ 'W' :: ws)).length < 4 := by simp [hys]
  rw [Iso.calendarDate?, if_neg hlen, List.take_left' hys, List.drop_left' hys, hyear]
  cases dashed <;> exact hmonth ..

/-- The weekday of a week, given the dash before it if there must be one. -/
theorem namesWeekday_of_day {dashed : Bool} {ws more : List Char} {c : Char} {week day : Int}
    (hweek : sliceInt (ws.take 2) = .ok week) (hmore : ws.drop 2 = c :: more)
    (hdash : ¬ (decide (c = '-') != dashed) = true)
    (hday : sliceInt ((if dashed then more else c :: more).take 1) = .ok day) :
    NamesWeekday dashed ('W' :: ws) week day := by
  have hlen : (ws.take 2).length = 2 := by
    have := congrArg List.length hmore
    rw [List.length_drop, List.length_cons] at this
    rw [List.length_take]
    omega
  rw [← List.take_append_drop 2 ws, hmore]
  cases dashed with
  | true =>
    obtain rfl : c = '-' := by simpa using hdash
    cases more with
    | nil => cases hday
    | cons d rest => exact .weekday hlen hweek hday
  | false => exact .weekday hlen hweek hday

theorem dayInYear_eq_error {year : Int} {dashed : Bool} {rest : List Char} {e : DateError}
    (h : dayInYear year dashed rest = .error e) : e.IsFault ∨
      ∃ week day, NamesWeekday dashed rest week day ∧ weekDate year week day = .error e := by
  unfold dayInYear at h
  split at h
  · rename_i ws
    obtain h | ⟨week, hweek, h⟩ := bind_eq_error.mp h
    · exact .inl (isFault_of_mapError h)
    rw [mapError_eq_ok] at hweek
    split at h
    · rename_i hend
      obtain h | ⟨d, -, ⟨⟩⟩ := bind_eq_error.mp h
      have hws : ws.length ≤ 2 := List.drop_eq_nil_iff.mp hend
      rw [List.take_of_length_le hws] at hweek
      exact .inr ⟨week, 1, .monday hws hweek, h⟩
    · rename_i c more hmore
      by_cases hdash : (decide (c = '-') != dashed) = true
      · rw [if_pos hdash] at h
        cases h
        exact .inl ⟨_, rfl⟩
      · rw [if_neg hdash] at h
        obtain h | ⟨day, hday, h⟩ := bind_eq_error.mp h
        · exact .inl (isFault_of_mapError h)
        rw [mapError_eq_ok] at hday
        obtain h | ⟨d, -, ⟨⟩⟩ := bind_eq_error.mp h
        exact .inr ⟨week, day, namesWeekday_of_day hweek hmore hdash hday, h⟩
  · by_cases hlen : rest.length < 3
    · rw [if_pos hlen] at h
      cases h
      exact .inl ⟨_, rfl⟩
    · rw [if_neg hlen] at h
      obtain h | ⟨n, -, h⟩ := bind_eq_error.mp h
      · exact .inl (isFault_of_mapError h)
      obtain h | ⟨d, -, ⟨⟩⟩ := bind_eq_error.mp h
      exact .inl (dayOfYearDate_eq_error h)

theorem NamesWeekday.dayInYear {year week day : Int} {dashed : Bool} {rest : List Char}
    {e : DateError} (h : NamesWeekday dashed rest week day)
    (hdate : weekDate year week day = .error e) : dayInYear year dashed rest = .error e := by
  cases h with
  | monday hws hweek =>
    rename_i ws
    simp only [Iso.dayInYear, List.take_of_length_le hws, hweek, List.drop_eq_nil_iff.mpr hws]
    exact bind_eq_error.mpr (.inr ⟨week, rfl, bind_eq_error.mpr (.inl hdate)⟩)
  | weekday hws hweek hday =>
    rename_i ws more c
    have hc : c ≠ '-' := by
      rintro rfl
      cases hday
    have hrest : ∀ f : Int → Except DateError DateFields, f day = .error e →
        (Except.mapError DateError.fault (sliceInt [c]) >>= f) = .error e :=
      fun f hf => bind_eq_error.mpr (.inr ⟨day, mapError_eq_ok.mpr hday, hf⟩)
    simp only [Iso.dayInYear, List.take_left' hws, List.drop_left' hws, hweek]
    refine bind_eq_error.mpr (.inr ⟨week, rfl, ?_⟩)
    cases dashed with
    | true => exact hrest _ (bind_eq_error.mpr (.inl hdate))
    | false =>
      have hneg : ¬ (decide (c = '-') != false) = true := by simp [hc]
      show (if (decide (c = '-') != false) = true then _ else _) = _
      rw [if_neg hneg]
      exact hrest _ (bind_eq_error.mpr (.inl hdate))

theorem ordinalDate_eq_error {cs : List Char} {e : DateError} (h : ordinalDate cs = .error e) :
    e.IsFault ∨
      ∃ year week day, NamesWeek cs year week day ∧ weekDate year week day = .error e := by
  unfold ordinalDate at h
  by_cases hlen : cs.length < 4
  · rw [if_pos hlen] at h
    cases h
    exact .inl ⟨_, rfl⟩
  rw [if_neg hlen] at h
  obtain h | ⟨year, hyear, h⟩ := bind_eq_error.mp h
  · exact .inl (isFault_of_mapError h)
  rw [mapError_eq_ok] at hyear
  have hys : (cs.take 4).length = 4 := by
    rw [List.length_take]
    omega
  obtain ⟨dashed, rest, hrest, h⟩ : ∃ dashed rest, cs.drop 4 = dash dashed ++ rest ∧
      dayInYear year dashed rest = .error e := by
    split at h
    · rename_i rest hrest
      exact ⟨true, rest, hrest, h⟩
    · exact ⟨false, _, rfl, h⟩
  obtain h | ⟨week, day, hname, hdate⟩ := dayInYear_eq_error h
  · exact .inl h
  · refine .inr ⟨year, week, day, ?_, hdate⟩
    rw [← List.take_append_drop 4 cs, hrest]
    exact .intro dashed hys hyear hname

theorem NamesWeek.ordinalDate {cs : List Char} {year week day : Int} {e : DateError}
    (h : NamesWeek cs year week day) (hdate : weekDate year week day = .error e) :
    ordinalDate cs = .error e := by
  obtain ⟨dashed, hys, hyear, hname⟩ := h
  rename_i ys rest
  have hday : dayInYear year dashed rest = .error e := hname.dayInYear hdate
  have hlen : ¬ (ys ++ (dash dashed ++ rest)).length < 4 := by simp [hys]
  unfold Iso.ordinalDate
  rw [if_neg hlen, List.take_left' hys, List.drop_left' hys, hyear]
  refine bind_eq_error.mpr (.inr ⟨year, rfl, ?_⟩)
  cases dashed with
  | true => exact hday
  | false => cases hname <;> exact hday

/-! ## Moments -/

/-- Whether a text in standard form leads past the end of the calendar: it names a weekday after
Friday of week 52 of the last year, or the end of the last day. -/
inductive PastEnd (text : String) : Prop
  | week {week day : Int} (hascii : ∀ c ∈ text.toList, c.toNat ≤ 0x7f)
      (h : NamesWeek text.toList 9999 week day) (hday : 1 ≤ day ∧ day ≤ 7)
      (hweek : week = 53 ∨ week = 52 ∧ 6 ≤ day)
  | midnight {sep : Char} {rest : List Char} {f : ClockFields}
      (hascii : ∀ c ∈ text.toList, c.toNat ≤ 0x7f)
      (hdate : dateFields text.toList = .ok ⟨9999, 12, 31, sep :: rest⟩)
      (hclock : clock rest = .ok f) (hhour : f.hour = 24)

theorem clock_midnight {cs : List Char} {f : ClockFields} (h : clock cs = .ok f)
    (hhour : f.hour = 24) : f.minute = 0 ∧ f.second = 0 ∧ f.microsecond = 0 := by
  unfold clock at h
  split at h
  · cases h
  obtain ⟨g, -, h⟩ := bind_eq_ok.mp h
  split at h
  · cases h
  · rename_i hmid
    cases h
    omega

theorem nextDay?_eq_none {m : Moment} (hvalid : m.date.Valid) (hhour : m.hour = 0)
    (hminute : m.minute = 0) (hsecond : m.second = 0) (hmicro : m.microsecond = 0) :
    m.nextDay? = none ↔ m.date = ⟨9999, 12, 31⟩ := by
  have hclock : m.clockMicros = ((m.date.dayNumber : Int) - 1) * Moment.microsPerDay := by
    simp [Moment.clockMicros, hhour, hminute, hsecond, hmicro]
  have hpos := Date.dayNumber_pos hvalid
  obtain ⟨hle, hlast⟩ := hvalid.dayNumber_le
  have hcount : Date.dayNumber ⟨9999, 12, 31⟩ = Date.dayCount := by decide
  unfold Moment.nextDay? Moment.ofClockMicros?
  rw [hclock]
  constructor
  · intro h
    refine hlast (Nat.le_antisymm hle (Nat.le_of_not_lt fun hlt => ?_))
    rw [if_pos (by simp only [Moment.microsPerDay]; omega)] at h
    cases h
  · intro h
    rw [h, hcount, if_neg (by simp only [Moment.microsPerDay]; omega)]

theorem ofFields_eq_ok {year month day hour minute second : Int} {micro : Nat}
    {offset : Option Int} {m : Moment}
    (h : Moment.ofFields year month day hour minute second micro offset = .ok m) :
    Date.ofFields year month day = .ok m.date ∧ m.hour = hour.toNat ∧ m.minute = minute.toNat ∧
      m.second = second.toNat ∧ m.microsecond = micro := by
  unfold Moment.ofFields at h
  obtain ⟨date, hdate, h⟩ := bind_eq_ok.mp h
  by_cases hh : hour < 0 ∨ 23 < hour
  · rw [if_pos hh] at h
    cases h
  rw [if_neg hh] at h
  by_cases hm : minute < 0 ∨ 59 < minute
  · rw [if_pos hm] at h
    cases h
  rw [if_neg hm] at h
  by_cases hs : second < 0 ∨ 59 < second
  · rw [if_pos hs] at h
    cases h
  rw [if_neg hs] at h
  cases h
  exact ⟨hdate, rfl, rfl, rfl, rfl⟩

theorem dateFields_eq_error {cs : List Char} {e : DateError} (h : dateFields cs = .error e) :
    e.IsFault ∨ e = .overflow ∧ ∃ week day, NamesWeek cs 9999 week day ∧ (1 ≤ day ∧ day ≤ 7) ∧
      (week = 53 ∨ week = 52 ∧ 6 ≤ day) := by
  unfold dateFields at h
  split at h
  · cases h
  obtain h | ⟨year, week, day, hname, hdate⟩ := ordinalDate_eq_error h
  · exact .inl h
  obtain hfault | rfl := weekDate_eq_error hdate
  · exact .inl hfault
  · obtain ⟨rfl, h1, h7, hweek⟩ := weekDate_eq_overflow.mp hdate
    exact .inr ⟨rfl, week, day, hname, ⟨h1, h7⟩, hweek⟩

/-- A time of day that is over leaves a moment whose fields are in the calendar. -/
theorem momentOn_eq_error {d : DateFields} {f : ClockFields} {e : DateError}
    (hmid : f.hour = 24 → f.minute = 0 ∧ f.second = 0 ∧ f.microsecond = 0)
    (h : momentOn d f = .error e) : e.IsFault ∨ e = .overflow ∧
      (d.year = 9999 ∧ d.month = 12 ∧ d.day = 31) ∧ f.hour = 24 := by
  unfold momentOn at h
  obtain h | ⟨m, hm, h⟩ := bind_eq_error.mp h
  · exact .inl (isFault_of_mapError h)
  by_cases hhour : f.hour = 24
  · rw [if_neg (not_not.mpr hhour)] at h
    rw [mapError_eq_ok, if_pos hhour] at hm
    obtain ⟨hm0, hs0, hu0⟩ := hmid hhour
    obtain ⟨hdate, h0, h1, h2, h3⟩ := ofFields_eq_ok hm
    obtain ⟨hvalid, hy, hmon, hday⟩ := Date.ofFields_eq_ok hdate
    split at h
    · cases h
    · rename_i hnext
      rw [nextDay?_eq_none hvalid h0 (by rw [h1, hm0]; rfl) (by rw [h2, hs0]; rfl)
        (h3.trans hu0)] at hnext
      rw [hnext] at hy hmon hday
      cases h
      exact .inr ⟨rfl, ⟨hy, hmon, hday⟩, hhour⟩
  · rw [if_pos hhour] at h
    cases h

theorem momentOn_lastDay {rest : List Char} {f : ClockFields} (hhour : f.hour = 24)
    (hzero : f.minute = 0 ∧ f.second = 0 ∧ f.microsecond = 0) :
    momentOn ⟨9999, 12, 31, rest⟩ f = .error .overflow := by
  unfold momentOn
  simp only [hhour, hzero]
  have hvalid : Date.Valid ⟨9999, 12, 31⟩ := by constructor <;> decide
  have hnext : Moment.nextDay? ⟨⟨9999, 12, 31⟩, 0, 0, 0, 0, f.offset⟩ = none :=
    (nextDay?_eq_none hvalid rfl rfl rfl rfl).mpr rfl
  refine bind_eq_error.mpr (.inr ⟨⟨⟨9999, 12, 31⟩, 0, 0, 0, 0, f.offset⟩, rfl, ?_⟩)
  rw [if_neg (by decide), hnext]
  rfl

theorem timeOfDay_midnight {cs : List Char} {f : ClockFields} (h : timeOfDay cs = .ok f)
    (hhour : f.hour = 24) :
    ∃ sep rest, cs = sep :: rest ∧ clock rest = .ok f ∧
      f.minute = 0 ∧ f.second = 0 ∧ f.microsecond = 0 := by
  cases cs with
  | nil =>
    cases h
    cases hhour
  | cons sep rest => exact ⟨sep, rest, rfl, h, clock_midnight h hhour⟩

theorem moment_eq_error {text : String} {e : DateError} (h : moment text = .error e) :
    e.IsFault ∨ e = .overflow ∧ PastEnd text := by
  unfold moment at h
  simp only at h
  by_cases hany : (text.toList.any fun c => decide (0x7f < c.toNat)) = true
  · rw [if_pos hany] at h
    cases h
    exact .inl ⟨_, rfl⟩
  rw [if_neg hany] at h
  rw [any_not_ascii] at hany
  obtain h | ⟨d, hd, h⟩ := bind_eq_error.mp h
  · obtain h | ⟨rfl, week, day, hname, hday, hweek⟩ := dateFields_eq_error h
    · exact .inl h
    · exact .inr ⟨rfl, .week hany hname hday hweek⟩
  obtain h | ⟨f, hf, h⟩ := bind_eq_error.mp h
  · exact .inl (isFault_of_mapError h)
  rw [mapError_eq_ok] at hf
  have hmid : f.hour = 24 → f.minute = 0 ∧ f.second = 0 ∧ f.microsecond = 0 := by
    intro hhour
    obtain ⟨-, -, -, -, hzero⟩ := timeOfDay_midnight hf hhour
    exact hzero
  obtain h | ⟨rfl, ⟨hy, hm, hday⟩, hhour⟩ := momentOn_eq_error hmid h
  · exact .inl h
  obtain ⟨sep, rest, hrest, hclock, -⟩ := timeOfDay_midnight hf hhour
  obtain ⟨y, m, day, _⟩ := d
  simp only at hy hm hday hrest
  rw [hy, hm, hday, hrest] at hd
  exact .inr ⟨rfl, .midnight hany hd hclock hhour⟩

theorem PastEnd.moment {text : String} (h : PastEnd text) : moment text = .error .overflow := by
  unfold Iso.moment
  simp only
  cases h with
  | week hany hname hday hweek =>
    have hdate : weekDate 9999 _ _ = .error .overflow :=
      weekDate_eq_overflow.mpr ⟨rfl, hday.1, hday.2, hweek⟩
    rw [if_neg (any_not_ascii.mpr hany), dateFields, hname.calendarDate?]
    exact bind_eq_error.mpr (.inl (hname.ordinalDate hdate))
  | midnight hany hdate hclock hhour =>
    rename_i sep rest f
    rw [if_neg (any_not_ascii.mpr hany), hdate]
    refine bind_eq_error.mpr (.inr ⟨_, rfl, bind_eq_error.mpr (.inr ⟨f, ?_, ?_⟩)⟩)
    · exact mapError_eq_ok.mpr hclock
    · exact momentOn_lastDay hhour (clock_midnight hclock hhour)

end Iso
end SchemaModel
