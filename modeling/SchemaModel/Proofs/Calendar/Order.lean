import Mathlib.Tactic.Tauto
import SchemaModel.Proofs.Calendar.DayNumber

/-!
The order of dates and moments. Dates are in the order of their fields exactly if their numbers are,
and moments exactly if the microseconds are that their clocks show. So a date is found again by its
number, and a moment by its microseconds.
-/
namespace SchemaModel

namespace Date

/-! ## Years and months follow one another -/

theorem daysBeforeYear_succ {y : Nat} (h : 1 ≤ y) :
    daysBeforeYear (y + 1) = daysBeforeYear y + daysInYear y := by
  obtain ⟨z, rfl⟩ : ∃ z, y = z + 1 := ⟨y - 1, by omega⟩
  -- each of the three cycles counts one more where a leap year begins or ends it
  simp only [daysBeforeYear, daysInYear, isLeap, Nat.add_sub_cancel, Nat.succ_div,
    Nat.dvd_iff_mod_eq_zero]
  have hsub : z / 100 ≤ z / 4 := Nat.div_le_div_left (by decide) (by decide)
  have h100 : (z + 1) % 100 = 0 → (z + 1) % 4 = 0 := by omega
  have h400 : (z + 1) % 400 = 0 → (z + 1) % 100 = 0 := by omega
  by_cases h4 : (z + 1) % 4 = 0 <;> by_cases hc : (z + 1) % 100 = 0 <;>
    by_cases hcc : (z + 1) % 400 = 0 <;> simp_all <;> omega

theorem totalDays_append (lens more : List Nat) :
    totalDays (lens ++ more) = totalDays lens + totalDays more := by
  induction lens with
  | nil => simp [totalDays]
  | cons len lens ih => rw [List.cons_append, totalDays_cons, totalDays_cons, ih, Nat.add_assoc]

theorem daysBeforeMonth_succ {year month : Nat} (h : 1 ≤ month) :
    daysBeforeMonth year (month + 1) = daysBeforeMonth year month + daysInMonth year month := by
  obtain ⟨k, rfl⟩ : ∃ k, month = k + 1 := ⟨month - 1, by omega⟩
  simp only [daysBeforeMonth, daysInMonth, Nat.add_sub_cancel, List.take_add_one, totalDays_append]
  cases (monthLengths year)[k]? with
  | none => rfl
  | some len => rfl

/-- Where each stretch begins when the one before it is over, none reaches beyond the beginning of a
later one. -/
theorem add_le_of_lt {before len : Nat → Nat} {i j : Nat}
    (hnext : ∀ k, i ≤ k → before (k + 1) = before k + len k) (h : i < j) :
    before i + len i ≤ before j := by
  induction h with
  | refl => exact Nat.le_of_eq (hnext i (Nat.le_refl i)).symm
  | step hj ih =>
    rw [hnext _ (Nat.le_of_lt hj)]
    exact Nat.le_trans ih (Nat.le_add_right _ _)

theorem daysBeforeYear_add_le {y z : Nat} (hy : 1 ≤ y) (h : y < z) :
    daysBeforeYear y + daysInYear y ≤ daysBeforeYear z :=
  add_le_of_lt (fun _ hk => daysBeforeYear_succ (Nat.le_trans hy hk)) h

theorem daysBeforeMonth_add_le {year m n : Nat} (hm : 1 ≤ m) (h : m < n) :
    daysBeforeMonth year m + daysInMonth year m ≤ daysBeforeMonth year n :=
  add_le_of_lt (fun _ hk => daysBeforeMonth_succ (Nat.le_trans hm hk)) h

/-- The days of a year up to a date; the last of December is the last of them. -/
theorem daysBeforeMonth_add {year month day : Nat} (hm : 1 ≤ month ∧ month ≤ 12)
    (hd : day ≤ daysInMonth year month) :
    daysBeforeMonth year month + day ≤ daysInYear year ∧
      (daysBeforeMonth year month + day = daysInYear year → month = 12 ∧ day = 31) := by
  have hyear : daysBeforeMonth year 13 = daysInYear year := totalDays_monthLengths year
  have hdecember : daysBeforeMonth year 12 + 31 = daysInYear year := by
    rw [← hyear]
    exact (daysBeforeMonth_succ (by decide)).symm
  rcases Nat.lt_or_ge month 12 with hlt | hge
  · have hle : daysBeforeMonth year month + daysInMonth year month ≤ daysBeforeMonth year 12 :=
      daysBeforeMonth_add_le hm.1 hlt
    omega
  · obtain rfl : month = 12 := Nat.le_antisymm hm.2 hge
    have hlen : daysInMonth year 12 = 31 := rfl
    omega

/-! ## Dates -/

variable {d e : Date}

/-- One date comes before another: the first of year, month and day that differs is smaller. -/
def Before (d e : Date) : Prop := List.Lex (· < ·) [d.year, d.month, d.day] [e.year, e.month, e.day]

theorem before_iff : d.Before e ↔ d.year < e.year ∨ d.year = e.year ∧
    (d.month < e.month ∨ d.month = e.month ∧ d.day < e.day) := by
  simp [Before, List.cons_lex_cons_iff]

theorem before_trichotomy (d e : Date) : d.Before e ∨ d = e ∨ e.Before d := by
  obtain ⟨y, m, n⟩ := d
  obtain ⟨y', m', n'⟩ := e
  simp only [before_iff, Date.mk.injEq]
  omega

theorem Before.dayNumber_lt (hd : d.Valid) (he : e.Valid) (h : d.Before e) :
    d.dayNumber < e.dayNumber := by
  have hday := he.day.1
  rw [before_iff] at h
  rw [dayNumber, dayNumber]
  rcases h with hy | ⟨hy, hm | ⟨hm, hday⟩⟩
  · have hyear := daysBeforeYear_add_le hd.year.1 hy
    have hwithin := (daysBeforeMonth_add hd.month hd.day.2).1
    omega
  · have hmonth : daysBeforeMonth d.year d.month + daysInMonth d.year d.month ≤
        daysBeforeMonth d.year e.month := daysBeforeMonth_add_le hd.month.1 hm
    have hwithin := hd.day.2
    rw [hy] at hmonth hwithin ⊢
    omega
  · rw [hy, hm]
    omega

theorem dayNumber_lt_iff (hd : d.Valid) (he : e.Valid) :
    d.dayNumber < e.dayNumber ↔ d.Before e := by
  constructor
  · intro h
    rcases before_trichotomy d e with hlt | rfl | hgt
    · exact hlt
    · exact absurd h (Nat.lt_irrefl _)
    · exact absurd h (Nat.lt_asymm (hgt.dayNumber_lt he hd))
  · exact Before.dayNumber_lt hd he

theorem dayNumber_inj (hd : d.Valid) (he : e.Valid) (h : d.dayNumber = e.dayNumber) : d = e := by
  rcases before_trichotomy d e with hlt | heq | hgt
  · exact absurd h (Nat.ne_of_lt (hlt.dayNumber_lt hd he))
  · exact heq
  · exact absurd h (Nat.ne_of_gt (hgt.dayNumber_lt he hd))

theorem dayNumber_pos (h : d.Valid) : 1 ≤ d.dayNumber := by
  have := h.day.1
  rw [dayNumber]
  omega

theorem Valid.dayNumber_le (h : d.Valid) :
    d.dayNumber ≤ dayCount ∧ (d.dayNumber = dayCount → d = ⟨9999, 12, 31⟩) := by
  have hlast : Valid ⟨9999, 12, 31⟩ := by constructor <;> decide
  have hcount : dayNumber ⟨9999, 12, 31⟩ = dayCount := by decide
  have hnone : ¬ Before ⟨9999, 12, 31⟩ d := by
    obtain ⟨⟨-, hy⟩, ⟨-, hm⟩, -, hd⟩ := h
    rw [before_iff]
    rintro (hlt | ⟨hyear, hlt | ⟨hmonth, hlt⟩⟩)
    · exact absurd hlt (Nat.not_lt.mpr hy)
    · exact absurd hlt (Nat.not_lt.mpr hm)
    · rw [← hyear, ← hmonth] at hd
      exact absurd hlt (Nat.not_lt.mpr hd)
  rw [← dayNumber_lt_iff hlast h, hcount, Nat.not_lt] at hnone
  exact ⟨hnone, fun he => dayNumber_inj h hlast (he.trans hcount.symm)⟩

/-- A date is found again by its number. -/
theorem ofDayNumber_dayNumber (h : d.Valid) : ofDayNumber d.dayNumber = d := by
  have hpos := dayNumber_pos h
  exact dayNumber_inj (valid_ofDayNumber hpos h.dayNumber_le.1) h (dayNumber_ofDayNumber hpos)

end Date

namespace Moment

variable {m m' : Moment}

/-- One moment shows an earlier reading than another: the first field that differs, from the year
down to the microsecond, is smaller. -/
def Before (m m' : Moment) : Prop := List.Lex (· < ·) m.fields m'.fields

/-- The order of times of day. -/
def Sooner (m m' : Moment) : Prop :=
  List.Lex (· < ·) [m.hour, m.minute, m.second, m.microsecond]
    [m'.hour, m'.minute, m'.second, m'.microsecond]

theorem before_iff :
    m.Before m' ↔ m.date.Before m'.date ∨ m.date = m'.date ∧ m.Sooner m' := by
  cases hm : m.date
  cases hm' : m'.date
  simp only [Before, Sooner, fields, Date.before_iff, List.cons_lex_cons_iff, Date.mk.injEq, hm,
    hm']
  tauto

/-! ## Microseconds of a clock -/

/-- The microseconds that a clock shows since the start of the day. -/
def dayMicros (m : Moment) : Nat :=
  ((m.hour * 60 + m.minute) * 60 + m.second) * 1000000 + m.microsecond

theorem clockMicros_eq (m : Moment) :
    m.clockMicros = ((m.date.dayNumber : Int) - 1) * microsPerDay + m.dayMicros := rfl

theorem Valid.dayMicros_lt (h : m.Valid) : m.dayMicros < microsPerDay := by
  obtain ⟨-, hh, hm, hs, hu⟩ := h
  rw [dayMicros, microsPerDay]
  omega

theorem dayMicros_lt_iff (h : m.Valid) (h' : m'.Valid) :
    m.dayMicros < m'.dayMicros ↔ m.Sooner m' := by
  obtain ⟨-, hh, hm, hs, hu⟩ := h
  obtain ⟨-, hh', hm', hs', hu'⟩ := h'
  simp only [dayMicros, Sooner, List.cons_lex_cons_iff, List.not_lex_nil, and_false, or_false]
  constructor
  · intro h
    omega
  · intro h
    omega

theorem dayMicros_inj (h : m.Valid) (h' : m'.Valid) (he : m.dayMicros = m'.dayMicros) :
    m.hour = m'.hour ∧ m.minute = m'.minute ∧ m.second = m'.second ∧
      m.microsecond = m'.microsecond := by
  obtain ⟨-, hh, hm, hs, hu⟩ := h
  obtain ⟨-, hh', hm', hs', hu'⟩ := h'
  simp only [dayMicros] at he
  omega

theorem clockMicros_lt_iff (h : m.Valid) (h' : m'.Valid) :
    m.clockMicros < m'.clockMicros ↔ m.Before m' := by
  have hdate : m.date = m'.date ↔ m.date.dayNumber = m'.date.dayNumber :=
    ⟨congrArg Date.dayNumber, Date.dayNumber_inj h.date h'.date⟩
  have hday := h.dayMicros_lt
  have hday' := h'.dayMicros_lt
  rw [before_iff, ← dayMicros_lt_iff h h', ← Date.dayNumber_lt_iff h.date h'.date, hdate,
    clockMicros_eq, clockMicros_eq]
  rw [microsPerDay] at *
  omega

theorem clockMicros_inj (h : m.Valid) (h' : m'.Valid) (he : m.clockMicros = m'.clockMicros)
    (hoffset : m.offset = m'.offset) : m = m' := by
  have hday := h.dayMicros_lt
  have hday' := h'.dayMicros_lt
  rw [clockMicros_eq, clockMicros_eq] at he
  rw [microsPerDay] at *
  have hdate : m.date = m'.date := Date.dayNumber_inj h.date h'.date (by omega)
  obtain ⟨hh, hm, hs, hu⟩ := dayMicros_inj h h' (by omega)
  cases m
  cases m'
  simp_all

/-- A moment is found again by the microseconds that its clock shows. -/
theorem ofClockMicros?_clockMicros (h : m.Valid) :
    ofClockMicros? m.clockMicros (some 0) = some { m with offset := some 0 } := by
  have hpos := Date.dayNumber_pos h.date
  have hle := h.date.dayNumber_le.1
  have hday := h.dayMicros_lt
  obtain ⟨u, hu⟩ : ∃ u, ofClockMicros? m.clockMicros (some 0) = some u := by
    rw [exists_ofClockMicros?, clockMicros_eq]
    rw [microsPerDay] at *
    omega
  obtain ⟨hclock, hoffset⟩ := clockMicros_of_ofClockMicros? hu
  have hvalid : Valid { m with offset := some 0 } :=
    ⟨h.date, h.hour, h.minute, h.second, h.microsecond⟩
  rw [hu, clockMicros_inj (isUtc_of_ofClockMicros? hu).valid hvalid hclock hoffset]

end Moment
end SchemaModel
