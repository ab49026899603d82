import SchemaModel.Proofs.Calendar.Order
import SchemaModel.Proofs.Calendar.StandardForm
import SchemaModel.Schema.LiteralValue
import SchemaModel.Synthesis.Default

/-!
Timestamps as defaults. A document holds dates and moments; they are declared by their standard
form, and where the property names no pattern they are read from it again. The default is the moment
of the same instant in universal time, as long as the calendar reaches it there (`timestamp_exact`).
-/
namespace SchemaModel

namespace Moment

variable {m : Moment} {format : Option String}

/-- The first and the last moment of the calendar in universal time. -/
def first : Moment := ⟨⟨1, 1, 1⟩, 0, 0, 0, 0, some 0⟩

def last : Moment := ⟨⟨9999, 12, 31⟩, 23, 59, 59, 999999, some 0⟩

/-- The calendar of universal time reaches the instant of a moment. -/
def Reached (m : Moment) : Prop := first.instant ≤ m.instant ∧ m.instant ≤ last.instant

theorem exists_toUtc? : (∃ u, m.toUtc? = some u) ↔ m.Reached := by
  have hfirst : first.instant = 0 := by decide
  have hlast : last.instant = (Date.dayCount * microsPerDay : Nat) - 1 := by decide
  rw [toUtc?, exists_ofClockMicros?, Reached, hfirst, hlast, Int.le_sub_one_iff]

theorem isUtc_of_toUtc? {u : Moment} (h : m.toUtc? = some u) :
    u.IsUtc ∧ u.instant = m.instant := by
  obtain ⟨hclock, hoffset⟩ := clockMicros_of_ofClockMicros? h
  refine ⟨isUtc_of_ofClockMicros? h, ?_⟩
  rw [instant, hoffset, hclock]
  simp

/-- Without a pattern a text is read in standard form, and the moment is moved to universal time. -/
theorem ofText_of_iso {text : String} (hformat : ∀ f ∈ format, '%' ∉ f.toList)
    (h : Iso.moment text = .ok m) : ofText text format =
      match m.toUtc? with
      | some u => .ok u
      | none => .error (.fault (.moment text)) := by
  have hpattern : pattern? format = none := by
    rw [pattern?, Option.filter_eq_none_iff]
    intro f hf hcontains
    exact hformat f hf (by simpa using hcontains)
  rw [ofText, hpattern]
  simp only [h, bind, Except.bind]
  rfl

end Moment

/-- The moment that a timestamp of a document stands for. -/
inductive Stamp : Value → Moment → Prop
  | date {d : Date} (h : d.Valid) : Stamp (.date d) d.midnight
  | moment {m : Moment} (h : m.Valid) (ho : Iso.WithinDay m.offset) : Stamp (.moment m) m
  | marked {mark : Nat} {v : Value} {m : Moment} (h : Stamp v m) : Stamp (.marked mark v) m

/-- A timestamp declares a text from which its moment is read. -/
theorem Stamp.exists_text {v : Value} {m : Moment} (h : Stamp v m) :
    ∃ text, Literal.ofValue v = .ok (.text text) ∧ Iso.moment text = .ok m := by
  induction h with
  | @date d h => exact ⟨d.iso, rfl, Iso.moment_dateIso h⟩
  | @moment m h ho => exact ⟨m.iso, rfl, Iso.moment_iso h ho⟩
  | marked _ ih => simpa only [Literal.ofValue] using ih

namespace Synthesis

/-- The default of a date that is declared in standard form. -/
theorem synthesize_of_iso {property text : String} {format : Option String} {m : Moment}
    (hformat : ∀ f ∈ format, '%' ∉ f.toList) (h : Iso.moment text = .ok m) :
    synthesize property (.date .formatted format) (some (.text text)) =
      match m.toUtc? with
      | some u => .ok (.moment u)
      | none => .error (unfit property (.date .formatted format) (.text text)
          (.date (.moment text))) := by
  simp only [synthesize, date, Moment.ofText_of_iso hformat h]
  cases m.toUtc? with
  | none => rfl
  | some u => rfl

/-- A timestamp declares a literal from which every date type without a pattern gets the moment of
the same instant in universal time, or no value where that lies before the year 1 or behind the
year 9999. -/
theorem timestamp_exact {v : Value} {m : Moment} {format : Option String} (h : Stamp v m)
    (hformat : ∀ f ∈ format, '%' ∉ f.toList) (property : String) :
    ∃ l, Literal.ofValue v = .ok l ∧
      ((∃ e, synthesize property (.date .formatted format) (some l) = .error (.conversion e)) ↔
        ¬ m.Reached) ∧
      (m.Reached → ∃ u, synthesize property (.date .formatted format) (some l) = .ok (.moment u) ∧
        u.IsUtc ∧ u.instant = m.instant) := by
  obtain ⟨text, htext, hmoment⟩ := h.exists_text
  refine ⟨.text text, htext, ?_⟩
  rw [synthesize_of_iso hformat hmoment, ← Moment.exists_toUtc?]
  cases hutc : m.toUtc? with
  | none =>
    refine ⟨⟨fun _ => nofun, fun _ => ⟨_, rfl⟩⟩, ?_⟩
    rintro ⟨u, hu⟩
    cases hu
  | some u =>
    have hutc := Moment.isUtc_of_toUtc? hutc
    refine ⟨⟨?_, fun hnone => absurd ⟨u, rfl⟩ hnone⟩, fun _ => ⟨u, rfl, hutc⟩⟩
    rintro ⟨e, he⟩
    cases he

/-- A moment of March by its own clock can be one of the leap day before, and the last evening of
the calendar can lie behind its end. -/
theorem timestamp_leapDay_and_end :
    (∃ l, Literal.ofValue (.moment ⟨⟨2024, 3, 1⟩, 0, 30, 0, 1, some 90⟩) = .ok l ∧
      ∃ u, synthesize "since" (.date .formatted (some "date-time")) (some l) = .ok (.moment u) ∧
        u.IsUtc ∧ u.instant = Moment.instant ⟨⟨2024, 2, 29⟩, 23, 0, 0, 1, some 0⟩) ∧
    ∃ l, Literal.ofValue (.moment ⟨⟨9999, 12, 31⟩, 23, 30, 0, 0, some (-60)⟩) = .ok l ∧
      ∃ e, synthesize "since" (.date .formatted (some "date-time")) (some l) =
        .error (.conversion e) := by
  have hformat : ∀ f ∈ some "date-time", '%' ∉ f.toList := by decide
  have hmarch : Stamp (.moment ⟨⟨2024, 3, 1⟩, 0, 30, 0, 1, some 90⟩) _ :=
    .moment (by constructor <;> first | decide | (constructor <;> decide)) (by rintro _ ⟨⟩; decide)
  have hend : Stamp (.moment ⟨⟨9999, 12, 31⟩, 23, 30, 0, 0, some (-60)⟩) _ :=
    .moment (by constructor <;> first | decide | (constructor <;> decide)) (by rintro _ ⟨⟩; decide)
  obtain ⟨l, hl, -, hreached⟩ := timestamp_exact hmarch hformat "since"
  obtain ⟨l', hl', houtside, -⟩ := timestamp_exact hend hformat "since"
  refine ⟨⟨l, hl, ?_⟩, l', hl', houtside.mpr (by rw [Moment.Reached]; decide)⟩
  exact hreached (by rw [Moment.Reached]; decide)

end Synthesis
end SchemaModel
