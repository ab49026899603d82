import SchemaModel.Calendar.Moment

/-!
Dates and their numbers. The date of a day number lies in the calendar and has that number, so that
a moment which is found by its clock shows the reading that it was found by.
-/
namespace SchemaModel

namespace Date

/-! ## Years -/

/-- The last century of four is a day longer than the others. -/
theorem century_spec {r : Nat} (h : r < 146097) : ∃ b, min (r / 36524) 3 = b ∧
    (b ≤ 3 ∧ b * 36524 ≤ r) ∧ (r - b * 36524 ≤ 36523 ∨ b = 3 ∧ r - b * 36524 = 36524) := by
  refine ⟨_, rfl, ?_⟩
  omega

/-- So is the last year of four. -/
theorem ofFour_spec {t : Nat} (h : t < 1461) : ∃ d, min (t / 365) 3 = d ∧
    (d ≤ 3 ∧ d * 365 ≤ t) ∧ (t - d * 365 ≤ 364 ∨ d = 3 ∧ t - d * 365 = 365) := by
  refine ⟨_, rfl, ?_⟩
  omega

/-- Cycles of 400, 100, 4 and 1 years are split off; the last day of four years or of a whole cycle
is the only one that is left over behind 365 others. -/
theorem yearFrom_spec (n : Nat) : ∃ a b c d rest,
    yearFrom n = (a * 400 + b * 100 + c * 4 + d + 1, rest) ∧
    n = a * 146097 + b * 36524 + c * 1461 + d * 365 + rest ∧ b ≤ 3 ∧ c ≤ 24 ∧ d ≤ 3 ∧
    rest ≤ 365 ∧ (rest = 365 → d = 3 ∧ (c = 24 → b = 3)) := by
  -- quotients and remainders get names of their own, so that only their bounds are left
  refine ⟨n / 146097, _, _, _, _, rfl, ?_⟩
  have hn : n = n / 146097 * 146097 + n % 146097 ∧ n % 146097 < 146097 := by omega
  generalize n / 146097 = a at *
  generalize n % 146097 = r at *
  obtain ⟨b, hb, hbr, hblast⟩ := century_spec hn.2
  have hr : r = b * 36524 + (r - b * 36524) := by omega
  rw [hb]
  generalize r - b * 36524 = s at *
  have hc : s = s / 1461 * 1461 + s % 1461 ∧ s % 1461 < 1461 := by omega
  generalize s / 1461 = c at *
  generalize s % 1461 = t at *
  obtain ⟨d, hd, hdt, hdlast⟩ := ofFour_spec hc.2
  have ht : t = d * 365 + (t - d * 365) := by omega
  rw [hd]
  generalize t - d * 365 = rest at *
  clear hb hd
  subst ht
  obtain ⟨rfl, -⟩ := hc
  subst hr
  refine ⟨by omega, hbr.1, by omega, hdt.1, by omega, fun hrest => ⟨by omega, fun h24 => by omega⟩⟩

theorem daysBeforeYear_of_yearFrom {n year rest : Nat} (h : yearFrom n = (year, rest)) :
    1 ≤ year ∧ daysBeforeYear year + rest = n := by
  obtain ⟨a, b, c, d, _, hy, hn, hb, hc, hd, -, -⟩ := yearFrom_spec n
  rw [h] at hy
  cases hy
  have h4 : (a * 400 + b * 100 + c * 4 + d + 1 - 1) / 4 = a * 100 + b * 25 + c := by omega
  have h100 : (a * 400 + b * 100 + c * 4 + d + 1 - 1) / 100 = a * 4 + b := by omega
  have h400 : (a * 400 + b * 100 + c * 4 + d + 1 - 1) / 400 = a := by omega
  rw [daysBeforeYear]
  omega

/-- The days left over lie within the year. -/
theorem lt_daysInYear_of_yearFrom {n year rest : Nat} (h : yearFrom n = (year, rest)) :
    rest < daysInYear year := by
  obtain ⟨a, b, c, d, _, hy, -, hb, hc, hd, hrest, hlast⟩ := yearFrom_spec n
  rw [h] at hy
  cases hy
  rw [daysInYear]
  by_cases hr : rest = 365
  · obtain ⟨rfl, hcycle⟩ := hlast hr
    -- a year of 366 days is the fourth of its four, and where it ends a century, that of its cycle
    have h4 : (a * 400 + b * 100 + c * 4 + 3 + 1) % 4 = 0 := by omega
    have hleap : isLeap (a * 400 + b * 100 + c * 4 + 3 + 1) = true := by
      simp only [isLeap, Bool.and_eq_true, Bool.or_eq_true, beq_iff_eq, bne_iff_ne]
      refine ⟨h4, ?_⟩
      by_cases h24 : c = 24
      · have := hcycle h24
        omega
      · omega
    rw [hleap, hr]
    decide
  · split <;> omega

/-! ## Months -/

theorem totalDays_cons (len : Nat) (lens : List Nat) :
    totalDays (len :: lens) = len + totalDays lens := rfl

theorem totalDays_monthLengths (year : Nat) : totalDays (monthLengths year) = daysInYear year := by
  unfold monthLengths daysInYear
  cases isLeap year <;> rfl

/-- Some month holds the day; the days before it and the day itself add up. -/
theorem monthFrom_spec {month rest m d : Nat} {lens : List Nat} (h : rest < totalDays lens)
    (hm : monthFrom month rest lens = (m, d)) :
    ∃ k < lens.length, m = month + k ∧ totalDays (lens.take k) + d = rest + 1 ∧ 1 ≤ d ∧
      d ≤ (lens[k]?).getD 0 := by
  induction lens generalizing month rest with
  | nil => cases h
  | cons len lens ih =>
    rw [monthFrom] at hm
    by_cases hl : rest < len
    · rw [if_pos hl] at hm
      cases hm
      exact ⟨0, by simp, by simp, by simp [totalDays], by simp, by simpa using Nat.succ_le_of_lt hl⟩
    · rw [if_neg hl] at hm
      rw [totalDays_cons] at h
      obtain ⟨k, hk, hmonth, hsum, hpos, hle⟩ := ih (by omega) hm
      refine ⟨k + 1, by simpa using hk, by omega, ?_, hpos, by simpa using hle⟩
      rw [List.take_succ_cons, totalDays_cons]
      omega

/-! ## Days -/

/-- The fields of a date lie within the calendar. -/
structure Valid (d : Date) : Prop where
  year : 1 ≤ d.year ∧ d.year ≤ lastYear
  month : 1 ≤ d.month ∧ d.month ≤ 12
  day : 1 ≤ d.day ∧ d.day ≤ daysInMonth d.year d.month

theorem ofDayNumber_eq {n year rest month day : Nat} (hy : yearFrom (n - 1) = (year, rest))
    (hm : monthFrom 1 rest (monthLengths year) = (month, day)) :
    ofDayNumber n = ⟨year, month, day⟩ := by
  rw [ofDayNumber, hy]
  dsimp only
  rw [hm]

/-- The year, month and day of a number, and how they add up to it. -/
theorem ofDayNumber_spec (n : Nat) : ∃ year rest k day,
    ofDayNumber n = ⟨year, 1 + k, day⟩ ∧ 1 ≤ year ∧ daysBeforeYear year + rest = n - 1 ∧ k < 12 ∧
      totalDays ((monthLengths year).take k) + day = rest + 1 ∧ 1 ≤ day ∧
      day ≤ ((monthLengths year)[k]?).getD 0 := by
  cases hy : yearFrom (n - 1) with
  | mk year rest =>
    cases hm : monthFrom 1 rest (monthLengths year) with
    | mk month day =>
      obtain ⟨hpos, hdays⟩ := daysBeforeYear_of_yearFrom hy
      have hrest : rest < totalDays (monthLengths year) := by
        rw [totalDays_monthLengths]
        exact lt_daysInYear_of_yearFrom hy
      obtain ⟨k, hk, rfl, hsum, hday⟩ := monthFrom_spec hrest hm
      exact ⟨year, rest, k, day, ofDayNumber_eq hy hm, hpos, hdays, hk, hsum, hday⟩

theorem dayNumber_ofDayNumber {n : Nat} (h : 1 ≤ n) : (ofDayNumber n).dayNumber = n := by
  obtain ⟨year, rest, k, day, he, -, hdays, -, hsum, -⟩ := ofDayNumber_spec n
  have hk : 1 + k - 1 = k := by omega
  rw [he, dayNumber, daysBeforeMonth, hk]
  dsimp only
  omega

theorem dayCount_le {y : Nat} (h : lastYear < y) : dayCount ≤ daysBeforeYear y := by
  simp only [dayCount, daysBeforeYear, lastYear] at *
  omega

theorem valid_ofDayNumber {n : Nat} (h : 1 ≤ n) (hn : n ≤ dayCount) : (ofDayNumber n).Valid := by
  obtain ⟨year, rest, k, day, he, hpos, hdays, hk, -, hday, hle⟩ := ofDayNumber_spec n
  have hsub : 1 + k - 1 = k := by omega
  have hlast : year ≤ lastYear := by
    refine Nat.le_of_not_lt fun hy => ?_
    have := dayCount_le hy
    omega
  rw [he]
  exact
    { year := ⟨hpos, hlast⟩
      month := ⟨Nat.le_add_right 1 k, by simp only; omega⟩
      day := ⟨hday, by rw [daysInMonth, hsub]; exact hle⟩ }

theorem ofFields_of_valid {d : Date} (h : d.Valid) : ofFields d.year d.month d.day = .ok d := by
  obtain ⟨hy, hm, hd⟩ := h
  rw [ofFields, if_neg (by omega), if_neg (by omega), if_neg (by simp; omega)]
  simp

end Date

namespace Moment

/-- The fields of a moment, from the year down to the microsecond. -/
def fields (m : Moment) : List Nat :=
  [m.date.year, m.date.month, m.date.day, m.hour, m.minute, m.second, m.microsecond]

/-- The fields of a moment lie within the calendar and the clock. -/
structure Valid (m : Moment) : Prop where
  date : m.date.Valid
  hour : m.hour ≤ 23
  minute : m.minute ≤ 59
  second : m.second ≤ 59
  microsecond : m.microsecond < 1000000

/-- A moment of universal time whose fields lie within the calendar and the clock. -/
structure IsUtc (m : Moment) : Prop where
  date : m.date.Valid
  hour : m.hour ≤ 23
  minute : m.minute ≤ 59
  second : m.second ≤ 59
  microsecond : m.microsecond < 1000000
  offset : m.offset = some 0

theorem IsUtc.valid {m : Moment} (h : m.IsUtc) : m.Valid :=
  ⟨h.date, h.hour, h.minute, h.second, h.microsecond⟩

theorem exists_ofClockMicros? {micros : Int} {offset : Option Int} :
    (∃ m, ofClockMicros? micros offset = some m) ↔
      0 ≤ micros ∧ micros < (Date.dayCount * microsPerDay : Nat) := by
  unfold ofClockMicros?
  split
  · rename_i h
    exact ⟨fun _ => h, fun _ => ⟨_, rfl⟩⟩
  · rename_i h
    exact ⟨nofun, fun hr => absurd hr h⟩

/-- A moment that is found by its clock shows the reading that it was found by. -/
theorem clockMicros_of_ofClockMicros? {micros : Int} {offset : Option Int} {m : Moment}
    (h : ofClockMicros? micros offset = some m) : m.clockMicros = micros ∧ m.offset = offset := by
  unfold ofClockMicros? at h
  split at h
  · rename_i hr
    cases h
    refine ⟨?_, rfl⟩
    simp only [clockMicros, Date.dayNumber_ofDayNumber (Nat.le_add_left 1 _), microsPerDay]
    omega
  · cases h

theorem isUtc_of_ofClockMicros? {micros : Int} {m : Moment}
    (h : ofClockMicros? micros (some 0) = some m) : m.IsUtc := by
  unfold ofClockMicros? at h
  split at h
  · rename_i hr
    cases h
    have hday : micros.toNat / microsPerDay + 1 ≤ Date.dayCount := by
      have : micros.toNat < Date.dayCount * microsPerDay := by omega
      exact Nat.div_lt_of_lt_mul (by rwa [Nat.mul_comm])
    exact
      { date := Date.valid_ofDayNumber (Nat.le_add_left 1 _) hday
        hour := by simp only [microsPerDay]; omega
        minute := by simp only; omega
        second := by simp only; omega
        microsecond := by simp only; omega
        offset := rfl }
  · cases h

/-- A moment of universal time that is found by its clock is the one that its instant gives. -/
theorem toUtc?_of_ofClockMicros? {micros : Int} {m : Moment}
    (h : ofClockMicros? micros (some 0) = some m) : m.toUtc? = some m := by
  obtain ⟨hclock, hoffset⟩ := clockMicros_of_ofClockMicros? h
  rw [toUtc?, instant, hclock, hoffset]
  simpa using h

theorem ofFields_of_valid {m : Moment} (h : m.Valid) :
    ofFields m.date.year m.date.month m.date.day m.hour m.minute m.second m.microsecond m.offset =
      .ok m := by
  obtain ⟨hdate, hhour, hminute, hsecond, -⟩ := h
  rw [ofFields, Date.ofFields_of_valid hdate]
  simp only [bind, Except.bind]
  rw [if_neg (by omega), if_neg (by omega), if_neg (by omega)]
  simp [pure, Except.pure]

end Moment
end SchemaModel
