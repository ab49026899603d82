import SchemaModel.Proofs.Calendar.Order

/-!
Milliseconds since the epoch. They reach from the start of the calendar to its end, each of them
gives one moment and is found again from it, and a moment gives the millisecond that it falls into,
before 1970 as well as after (`epochMillis_exact`).
-/
namespace SchemaModel.Moment

variable {millis millis' : Int} {m m' : Moment}

/-- A moment in universal time, or one that does not name its clock and is taken to be so. -/
structure ReadAsUtc (m : Moment) : Prop extends Valid m where
  offset : m.offset = none ∨ m.offset = some 0

/-- The start of the millisecond that a moment falls into, in universal time. -/
def wholeMillis (m : Moment) : Moment :=
  { m with microsecond := m.microsecond / 1000 * 1000, offset := some 0 }

theorem Valid.wholeMillis (h : m.Valid) : m.wholeMillis.Valid :=
  ⟨h.date, h.hour, h.minute, h.second, Nat.lt_of_le_of_lt (Nat.div_mul_le_self _ _) h.microsecond⟩

/-- Rounding down takes off what the clock shows beyond the millisecond. -/
theorem clockMicros_wholeMillis (m : Moment) :
    m.wholeMillis.clockMicros = m.clockMicros - (m.microsecond % 1000 : Nat) := by
  simp only [clockMicros, wholeMillis]
  omega

theorem ReadAsUtc.instant (h : m.ReadAsUtc) : m.instant = m.clockMicros := by
  rw [Moment.instant]
  rcases h.offset with ho | ho
  · simp [ho]
  · simp [ho]

theorem instant_epoch : epoch.instant = 62135596800000000 := by decide

/-- The milliseconds of a moment, counted in microseconds, are those of its start. -/
theorem ReadAsUtc.epochMillis_mul (h : m.ReadAsUtc) :
    epoch.instant + m.epochMillis * 1000 = m.wholeMillis.clockMicros := by
  have hfloor : m.epochMillis = (m.clockMicros - epoch.instant) / 1000 := by
    rw [epochMillis, h.instant, Int.fdiv_eq_ediv_of_nonneg _ (by decide)]
  -- the epoch and the seconds of the clock are whole milliseconds
  have hrest : m.clockMicros % 1000 = (m.microsecond % 1000 : Nat) := by
    rw [clockMicros, microsPerDay]
    omega
  rw [hfloor, clockMicros_wholeMillis, instant_epoch]
  omega

/-! ## Moments of milliseconds -/

theorem ofEpochMillis_eq_ok : ofEpochMillis millis = .ok m ↔
    ofClockMicros? (epoch.instant + millis * 1000) (some 0) = some m := by
  rw [ofEpochMillis]
  split
  · rename_i u hu
    rw [hu]
    simp
  · rename_i hnone
    rw [hnone]
    simp

theorem clockMicros_of_ofEpochMillis (h : ofEpochMillis millis = .ok m) :
    m.IsUtc ∧ m.clockMicros = epoch.instant + millis * 1000 := by
  rw [ofEpochMillis_eq_ok] at h
  exact ⟨isUtc_of_ofClockMicros? h, (clockMicros_of_ofClockMicros? h).1⟩

/-- The calendar reaches from the year 1 to the year 9999. -/
theorem exists_ofEpochMillis : (∃ m, ofEpochMillis millis = .ok m) ↔
    -62135596800000 ≤ millis ∧ millis ≤ 253402300799999 := by
  have hcount : Date.dayCount * microsPerDay = 315537897600000000 := by decide
  simp only [ofEpochMillis_eq_ok]
  rw [exists_ofClockMicros?, hcount, instant_epoch]
  omega

theorem ofEpochMillis_eq_error {fault : DateFault} (h : ofEpochMillis millis = .error fault) :
    fault = .millis millis := by
  rw [ofEpochMillis] at h
  split at h
  · cases h
  · cases h
    rfl

theorem epochMillis_of_ofEpochMillis (h : ofEpochMillis millis = .ok m) :
    m.epochMillis = millis := by
  obtain ⟨hutc, hclock⟩ := clockMicros_of_ofEpochMillis h
  have hinstant : m.instant = m.clockMicros := ReadAsUtc.instant ⟨hutc.valid, .inr hutc.offset⟩
  have hdiff : epoch.instant + millis * 1000 - epoch.instant = millis * 1000 := by omega
  rw [epochMillis, hinstant, hclock, hdiff, Int.mul_fdiv_cancel _ (by decide)]

theorem ofEpochMillis_epochMillis (h : m.ReadAsUtc) :
    ofEpochMillis m.epochMillis = .ok m.wholeMillis := by
  rw [ofEpochMillis_eq_ok, h.epochMillis_mul]
  exact ofClockMicros?_clockMicros h.toValid.wholeMillis

/-! ## Order -/

theorem lt_iff_before (h : ofEpochMillis millis = .ok m) (h' : ofEpochMillis millis' = .ok m') :
    millis < millis' ↔ m.Before m' := by
  obtain ⟨hutc, hclock⟩ := clockMicros_of_ofEpochMillis h
  obtain ⟨hutc', hclock'⟩ := clockMicros_of_ofEpochMillis h'
  rw [← clockMicros_lt_iff hutc.valid hutc'.valid, hclock, hclock']
  omega

theorem epochMillis_le (h : m.ReadAsUtc) (h' : m'.ReadAsUtc) (hle : ¬ m'.Before m) :
    m.epochMillis ≤ m'.epochMillis := by
  rw [← clockMicros_lt_iff h'.toValid h.toValid] at hle
  rw [epochMillis, epochMillis, h.instant, h'.instant,
    Int.fdiv_eq_ediv_of_nonneg _ (by decide), Int.fdiv_eq_ediv_of_nonneg _ (by decide)]
  omega

/-- Exactly the milliseconds of the years 1 to 9999 have a moment, which gives them back; a moment
whose milliseconds are counted is found again from them, rounded down to the millisecond; and both
ways keep the order. -/
theorem epochMillis_exact :
    (∀ millis, (∃ m, ofEpochMillis millis = .ok m) ↔
      -62135596800000 ≤ millis ∧ millis ≤ 253402300799999) ∧
    (∀ millis fault, ofEpochMillis millis = .error fault → fault = .millis millis) ∧
    (∀ millis m, ofEpochMillis millis = .ok m → m.IsUtc ∧ m.epochMillis = millis) ∧
    (∀ m : Moment, m.ReadAsUtc → ofEpochMillis m.epochMillis = .ok m.wholeMillis) ∧
    (∀ millis millis' m m', ofEpochMillis millis = .ok m → ofEpochMillis millis' = .ok m' →
      (millis < millis' ↔ m.Before m')) ∧
    ∀ m m' : Moment, m.ReadAsUtc → m'.ReadAsUtc → ¬ m'.Before m →
      m.epochMillis ≤ m'.epochMillis := by
  refine ⟨fun _ => exists_ofEpochMillis, fun _ _ => ofEpochMillis_eq_error, fun _ _ h => ?_,
    fun _ => ofEpochMillis_epochMillis, fun _ _ _ _ => lt_iff_before, fun _ _ => epochMillis_le⟩
  exact ⟨(clockMicros_of_ofEpochMillis h).1, epochMillis_of_ofEpochMillis h⟩

/-- A microsecond before the epoch falls into the millisecond before it. -/
example : epochMillis ⟨⟨1969, 12, 31⟩, 23, 59, 59, 999999, none⟩ = -1 ∧
    ofEpochMillis (-1) = .ok ⟨⟨1969, 12, 31⟩, 23, 59, 59, 999000, some 0⟩ :=
  ⟨by decide, ofEpochMillis_eq_ok.mpr (by decide)⟩

end SchemaModel.Moment
