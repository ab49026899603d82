import SchemaModel.Calendar.Reading
import SchemaModel.Proofs.Calendar.DayNumber
import SchemaModel.Proofs.Number.Digits
import SchemaModel.Proofs.Runs

/-!
The standard form read back. Dates and moments are read from their texts as they were: numbers stand
in fields of fixed width, the fraction of a second is there if it is not zero, and a known offset
gives its sign, hours and minutes.
-/
namespace SchemaModel

namespace Date

theorem daysInMonth_le (year month : Nat) : daysInMonth year month ≤ 31 := by
  have hall : ∀ len ∈ monthLengths year, len ≤ 31 := by
    rw [monthLengths]
    cases isLeap year <;> decide
  rw [daysInMonth]
  cases hlen : (monthLengths year)[month - 1]? with
  | none => simp
  | some len => exact hall len (List.mem_of_getElem? hlen)

end Date

namespace Iso

open Date (padded)

variable {width n : Nat} {colons : Bool} {f : ClockFields} {rest : List Char}
  {more : List Component}

/-! ## Numbers -/

theorem not_isAsciiBlank_of_isDigit {c : Char} (h : c.isDigit = true) : isAsciiBlank c = false := by
  obtain ⟨hlow, -⟩ := toNat_of_isDigit h
  have hspace : c ≠ ' ' := by
    rintro rfl
    exact absurd h (by decide)
  simp [isAsciiBlank, hspace]
  omega

theorem sliceInt_of_isDigit {ds : List Char} (hne : ds ≠ []) (h : ∀ c ∈ ds, c.isDigit = true) :
    sliceInt ds = .ok (Numeral.natOfDigits ds : Int) := by
  have hkeep : ∀ cs : List Char, (∀ c ∈ cs, c.isDigit = true) → cs.dropWhile isAsciiBlank = cs := by
    intro cs hcs
    cases cs with
    | nil => rfl
    | cons c cs =>
      have hc := not_isAsciiBlank_of_isDigit (hcs c List.mem_cons_self)
      rw [List.dropWhile_cons_of_neg (by simp [hc])]
  have hreverse : ∀ c ∈ ds.reverse, c.isDigit = true := fun c hc => h c (List.mem_reverse.mp hc)
  simp [sliceInt, hkeep ds h, hkeep _ hreverse, Numeral.intOfChars?_of_isDigit hne h]

theorem sliceInt_padded (hwidth : 0 < width) (h : n < 10 ^ width) :
    sliceInt (padded width n).toList = .ok (n : Int) := by
  have hlen := Date.length_padded hwidth h
  have hne : (padded width n).toList ≠ [] := List.ne_nil_of_length_pos (by omega)
  rw [sliceInt_of_isDigit hne fun _ => Date.isDigit_padded, Date.natOfDigits_padded]

/-- A number is read from its field, and the text goes on behind it. -/
theorem sliceInt_field (hwidth : 0 < width) (h : n < 10 ^ width) (rest : List Char) :
    sliceInt (((padded width n).toList ++ rest).take width) = .ok (n : Int) ∧
      ((padded width n).toList ++ rest).drop width = rest := by
  have hlen := Date.length_padded hwidth h
  rw [List.take_left' hlen, List.drop_left' hlen]
  exact ⟨sliceInt_padded hwidth h, rfl⟩

theorem not_length_lt (hwidth : 0 < width) (h : n < 10 ^ width) (rest : List Char) :
    ¬ ((padded width n).toList ++ rest).length < width := by
  rw [List.length_append, Date.length_padded hwidth h]
  omega

theorem head?_padded (hwidth : 0 < width) (h : n < 10 ^ width) (rest : List Char) :
    ∃ x, ((padded width n).toList ++ rest).head? = some x ∧ x.isDigit = true := by
  have hlen := Date.length_padded hwidth h
  obtain ⟨x, xs, hxs⟩ := List.exists_cons_of_length_pos (hlen ▸ hwidth)
  exact ⟨x, by rw [hxs]; rfl, Date.isDigit_padded (hxs ▸ List.mem_cons_self)⟩

/-! ## Dates -/

theorem toList_iso (d : Date) (rest : List Char) : d.iso.toList ++ rest =
    (padded 4 d.year).toList ++
      '-' :: ((padded 2 d.month).toList ++ '-' :: ((padded 2 d.day).toList ++ rest)) := by
  simp [Date.iso]

theorem monthAndDay?_iso {month day : Nat} (hm : month < 10 ^ 2) (hd : day < 10 ^ 2) (year : Int)
    (rest : List Char) :
    monthAndDay? year true ((padded 2 month).toList ++ '-' :: ((padded 2 day).toList ++ rest)) =
      some ⟨year, month, day, rest⟩ := by
  obtain ⟨hmonth, hdays⟩ := sliceInt_field (by decide) hm ('-' :: ((padded 2 day).toList ++ rest))
  obtain ⟨hday, hrest⟩ := sliceInt_field (by decide) hd rest
  rw [monthAndDay?, if_neg (not_length_lt (by decide) hm _), hmonth, hdays]
  dsimp only
  simp only [List.head?_cons, List.tail_cons, if_true]
  rw [if_neg (not_length_lt (by decide) hd _), hday, hrest]

/-- A date in the calendar is read as it is, whatever the text goes on with. -/
theorem dateFields_iso {d : Date} (h : d.Valid) (rest : List Char) :
    dateFields (d.iso.toList ++ rest) = .ok ⟨d.year, d.month, d.day, rest⟩ := by
  obtain ⟨⟨-, hy⟩, ⟨-, hm⟩, -, hd⟩ := h
  have hd31 := Date.daysInMonth_le d.year d.month
  rw [Date.lastYear] at hy
  have hy4 : d.year < 10 ^ 4 := by omega
  have hm2 : d.month < 10 ^ 2 := by omega
  have hd2 : d.day < 10 ^ 2 := by omega
  obtain ⟨hyear, hdash⟩ := sliceInt_field (by decide) hy4
    ('-' :: ((padded 2 d.month).toList ++ '-' :: ((padded 2 d.day).toList ++ rest)))
  rw [dateFields, calendarDate?, toList_iso, if_neg (not_length_lt (by decide) hy4 _), hyear,
    hdash]
  simp only [monthAndDay?_iso hm2 hd2]

/-! ## Times of day -/

/-- An offset of less than a day in either direction, or none. -/
def WithinDay (offset : Option Int) : Prop := ∀ o, offset = some o → o.natAbs < 1440

/-- The characters of a fraction of a second; none if it is zero. -/
def fractionChars (n : Nat) : List Char := if n = 0 then [] else '.' :: (padded 6 n).toList

/-- The characters of an offset; none if it is not known. -/
def zoneChars : Option Int → List Char
  | none => []
  | some o => (Moment.offsetText o).toList

/-- The time of day behind a date, with the character in front of it. -/
def clockChars (m : Moment) : List Char :=
  'T' :: ((padded 2 m.hour).toList ++ ':' :: ((padded 2 m.minute).toList ++
    ':' :: ((padded 2 m.second).toList ++ (fractionChars m.microsecond ++ zoneChars m.offset))))

theorem toList_momentIso (m : Moment) :
    m.iso.toList = m.date.iso.toList ++ clockChars m := by
  have hfraction : (if m.microsecond = 0 then "" else "." ++ padded 6 m.microsecond).toList =
      fractionChars m.microsecond := by
    rw [fractionChars]
    split
    · rfl
    · simp
  simp only [clockChars, Moment.iso, Moment.text, String.toList_append, hfraction]
  cases m.offset with
  | none => simp [zoneChars]
  | some o => simp [zoneChars]

/-- The first character of an offset is its sign. -/
theorem offsetText_eq (o : Int) : (Moment.offsetText o).toList = (if o < 0 then '-' else '+') ::
    ((padded 2 (o.natAbs / 60)).toList ++ ':' :: (padded 2 (o.natAbs % 60)).toList) := by
  rw [Moment.offsetText]
  split <;> simp

theorem zone_eq {mark : Char} {sign : Int} {hours minutes : Nat}
    (hmark : mark = '-' ∧ sign = -1 ∨ mark = '+' ∧ sign = 1) (hh : hours ≤ 23) (hm : minutes ≤ 59) :
    zone (mark :: ((padded 2 hours).toList ++ ':' :: (padded 2 minutes).toList)) =
      .ok (sign * (hours * 60 + minutes)) := by
  have hh2 : hours < 10 ^ 2 := by omega
  have hm2 : minutes < 10 ^ 2 := by omega
  have hhlen := Date.length_padded (by decide) hh2
  have hmlen := Date.length_padded (by decide) hm2
  have hhours := sliceInt_padded (by decide) hh2
  have hminutes := sliceInt_padded (by decide) hm2
  have hfew : ¬ (59 : Int) < minutes := by omega
  have hday : ¬ (23 : Int) < hours := by omega
  -- an offset of zero is told apart, whatever its sign
  by_cases hzero : hours = 0 ∧ minutes = 0
  · obtain ⟨rfl, rfl⟩ := hzero
    rcases hmark with ⟨rfl, rfl⟩ | ⟨rfl, rfl⟩ <;> rfl
  · rcases hmark with ⟨rfl, rfl⟩ | ⟨rfl, rfl⟩ <;>
      simp [zone, hhlen, hmlen, hhours, hminutes, hzero, hfew, hday, bind, Except.bind, pure,
        Except.pure]

theorem zone_offsetText {o : Int} (h : o.natAbs < 1440) :
    zone (Moment.offsetText o).toList = .ok o := by
  have hh : o.natAbs / 60 ≤ 23 := by omega
  have hm : o.natAbs % 60 ≤ 59 := by omega
  rw [offsetText_eq]
  by_cases ho : o < 0
  · rw [if_pos ho, zone_eq (.inl ⟨rfl, rfl⟩) hh hm]
    congr 1
    omega
  · rw [if_neg ho, zone_eq (.inr ⟨rfl, rfl⟩) hh hm]
    congr 1
    omega

/-! ## Components -/

/-- Whether a character can begin a zone. -/
def IsZoneMark (x : Char) : Prop := x = '-' ∨ x = '+' ∨ x = 'Z' ∨ x = 'z'

theorem IsZoneMark.not_isDigit {x : Char} (h : IsZoneMark x) : x.isDigit = false := by
  rcases h with rfl | rfl | rfl | rfl <;> decide

theorem isZoneMark_sign (o : Int) : IsZoneMark (if o < 0 then '-' else '+') := by
  split
  · exact .inl rfl
  · exact .inr (.inl rfl)

theorem head?_zoneChars {o : Option Int} : ∀ x ∈ (zoneChars o).head?, IsZoneMark x := by
  cases o with
  | none => simp [zoneChars]
  | some z =>
    rw [zoneChars, offsetText_eq]
    rintro x ⟨⟩
    exact isZoneMark_sign z

/-- What does not begin a zone is read as the next component. -/
theorem readComponents_of_head? {c : Component} {x : Char} {cs cs' : List Char} {colons' : Bool}
    {f' : ClockFields} (hhead : cs.head? = some x) (hx : ¬ IsZoneMark x)
    (hskip : skipColon c colons cs = .ok (colons', cs'))
    (hread : readComponent c f cs' = .ok (f', rest)) :
    readComponents colons f cs (c :: more) = readComponents colons' f' rest more := by
  obtain ⟨xs, rfl⟩ := List.head?_eq_some_iff.mp hhead
  rw [IsZoneMark] at hx
  rw [readComponents]
  simp only [hskip, hx, if_false, hread, bind, Except.bind, pure, Except.pure]

theorem readComponents_hour (h : n < 10 ^ 2) :
    readComponents colons f ((padded 2 n).toList ++ rest) (.hour :: more) =
      readComponents colons { f with hour := n } rest more := by
  obtain ⟨hhour, hrest⟩ := sliceInt_field (by decide) h rest
  obtain ⟨x, hhead, hx⟩ := head?_padded (by decide) h rest
  refine readComponents_of_head? hhead (fun hmark => ?_) rfl ?_
  · rw [hmark.not_isDigit] at hx
    cases hx
  · rw [readComponent, hhour, hrest]
    rfl

theorem readComponents_minute (h : n < 10 ^ 2) :
    readComponents colons f (':' :: ((padded 2 n).toList ++ rest)) (.minute :: more) =
      readComponents true { f with minute := n } rest more := by
  obtain ⟨hminute, hrest⟩ := sliceInt_field (by decide) h rest
  refine readComponents_of_head? rfl (by simp [IsZoneMark]) rfl ?_
  rw [readComponent, hminute, hrest]
  rfl

theorem readComponents_second (h : n < 10 ^ 2) :
    readComponents true f (':' :: ((padded 2 n).toList ++ rest)) (.second :: more) =
      readComponents true { f with second := n } rest more := by
  obtain ⟨hsecond, hrest⟩ := sliceInt_field (by decide) h rest
  refine readComponents_of_head? rfl (by simp [IsZoneMark]) rfl ?_
  rw [readComponent, hsecond, hrest]
  rfl

/-- An offset takes what is left, before any component. -/
theorem readComponents_zoneChars {o : Option Int} (ho : WithinDay o)
    (hf : f.offset = none) (c : Component) :
    readComponents colons f (zoneChars o) (c :: more) = .ok { f with offset := o } := by
  cases o with
  | none =>
    rw [zoneChars, readComponents, ← hf]
    rfl
  | some z =>
    have hzone := zone_offsetText (ho z rfl)
    rw [zoneChars]
    rw [offsetText_eq] at hzone ⊢
    rw [readComponents]
    have hmark := isZoneMark_sign z
    rw [IsZoneMark] at hmark
    simp only [hmark, if_true, hzone, bind, Except.bind, pure, Except.pure]

theorem fraction?_of_ne_zero (h : n < 10 ^ 6) (hrest : ∀ x ∈ rest.head?, x.isDigit = false) :
    fraction? ('.' :: ((padded 6 n).toList ++ rest)) = some (n, rest) := by
  have hlen := Date.length_padded (by decide) h
  have hdigits : ∀ c ∈ (padded 6 n).toList, c.isDigit = true := fun _ => Date.isDigit_padded
  obtain ⟨htake, hdrop⟩ := takeWhile_run hdigits hrest
  have hne : (padded 6 n).toList.isEmpty = false := by
    rw [List.isEmpty_eq_false_iff]
    exact List.ne_nil_of_length_pos (by omega)
  have hsix := List.take_of_length_le (Nat.le_of_eq hlen)
  simp [fraction?, htake, hdrop, hne, hlen, hsix, Date.natOfDigits_padded]

theorem readComponents_fraction {o : Option Int} (hn : n < 10 ^ 6)
    (ho : WithinDay o) (hf : f.offset = none) (hmicro : f.microsecond = 0) :
    readComponents colons f (fractionChars n ++ zoneChars o) (.fraction :: .spare :: more) =
      .ok { f with microsecond := n, offset := o } := by
  by_cases hzero : n = 0
  · rw [fractionChars, if_pos hzero, List.nil_append, readComponents_zoneChars ho hf, hzero,
      ← hmicro]
  · have hend : ∀ x ∈ (zoneChars o).head?, x.isDigit = false :=
      fun x hx => (head?_zoneChars x hx).not_isDigit
    have hfraction := fraction?_of_ne_zero hn hend
    rw [fractionChars, if_neg hzero, List.cons_append,
      readComponents_of_head? rfl (by simp [IsZoneMark]) rfl]
    · exact readComponents_zoneChars ho (f := { f with microsecond := n }) hf _
    · rw [readComponent, hfraction]
      rfl

/-! ## Moments -/

/-- The fields that a clock shows. -/
def clockFields (m : Moment) : ClockFields := ⟨m.hour, m.minute, m.second, m.microsecond, m.offset⟩

theorem timeOfDay_clockChars {m : Moment} (h : m.Valid) (ho : WithinDay m.offset) :
    timeOfDay (clockChars m) = .ok (clockFields m) := by
  obtain ⟨-, hh, hm, hs, hu⟩ := h
  have hh2 : m.hour < 10 ^ 2 := by omega
  have hmidnight : ¬ ((m.hour : Int) = 24 ∧
      ((m.minute : Int) ≠ 0 ∨ (m.second : Int) ≠ 0 ∨ m.microsecond ≠ 0)) := by omega
  rw [clockChars, timeOfDay, clock, if_neg (not_length_lt (by decide) hh2 _),
    readComponents_hour hh2, readComponents_minute (by omega), readComponents_second (by omega),
    readComponents_fraction (by omega) ho rfl rfl]
  simp only [bind, Except.bind, pure, Except.pure]
  rw [if_neg hmidnight, clockFields]

theorem any_not_ascii {cs : List Char} :
    (¬ (cs.any fun c => decide (0x7f < c.toNat)) = true) ↔ ∀ c ∈ cs, c.toNat ≤ 0x7f := by
  simp

theorem isAscii_of_isDigit {c : Char} (h : c.isDigit = true) : c.toNat ≤ 0x7f := by
  have := toNat_of_isDigit h
  omega

theorem isAscii_padded : ∀ c ∈ (padded width n).toList, c.toNat ≤ 0x7f :=
  fun _ hc => isAscii_of_isDigit (Date.isDigit_padded hc)

theorem isAscii_iso (d : Date) : ∀ c ∈ d.iso.toList, c.toNat ≤ 0x7f := by
  have htext := toList_iso d []
  rw [List.append_nil] at htext
  rw [htext]
  simp only [List.forall_mem_append, List.forall_mem_cons]
  exact ⟨isAscii_padded, by decide, isAscii_padded, by decide, isAscii_padded, nofun⟩

theorem isAscii_clockChars (m : Moment) : ∀ c ∈ clockChars m, c.toNat ≤ 0x7f := by
  have hfraction : ∀ c ∈ fractionChars m.microsecond, c.toNat ≤ 0x7f := by
    rw [fractionChars]
    split
    · exact nofun
    · exact List.forall_mem_cons.mpr ⟨by decide, isAscii_padded⟩
  have hzone : ∀ c ∈ zoneChars m.offset, c.toNat ≤ 0x7f := by
    cases m.offset with
    | none => exact nofun
    | some o =>
      rw [zoneChars, offsetText_eq]
      simp only [List.forall_mem_append, List.forall_mem_cons]
      exact ⟨by split <;> decide, isAscii_padded, by decide, isAscii_padded⟩
  simp only [clockChars, List.forall_mem_append, List.forall_mem_cons]
  exact ⟨by decide, isAscii_padded, by decide, isAscii_padded, by decide, isAscii_padded, hfraction,
    hzone⟩

/-- A text is read by its parts: a date, and what the clock shows behind it. -/
theorem moment_eq {text : String} {m : Moment} {clockText : List Char} (h : m.Valid)
    (htext : text.toList = m.date.iso.toList ++ clockText)
    (hascii : ∀ c ∈ clockText, c.toNat ≤ 0x7f)
    (hclock : timeOfDay clockText = .ok (clockFields m)) : moment text = .ok m := by
  have hall := List.forall_mem_append.mpr ⟨isAscii_iso m.date, hascii⟩
  have hhour : ¬ (m.hour : Int) = 24 := by
    have := h.hour
    omega
  rw [moment, htext, if_neg (any_not_ascii.mpr hall), dateFields_iso h.date]
  simp [hclock, clockFields, momentOn, hhour, Moment.ofFields_of_valid h, bind, Except.bind, pure,
    Except.pure, Except.mapError]

/-- A moment is read from its standard form as it is. -/
theorem moment_iso {m : Moment} (h : m.Valid) (ho : WithinDay m.offset) : moment m.iso = .ok m :=
  moment_eq h (toList_momentIso m) (isAscii_clockChars m) (timeOfDay_clockChars h ho)

end Iso

/-- The start of a day on a clock that is not known. -/
def Date.midnight (d : Date) : Moment := ⟨d, 0, 0, 0, 0, none⟩

theorem Date.Valid.midnight {d : Date} (h : d.Valid) : d.midnight.Valid :=
  ⟨h, Nat.zero_le _, Nat.zero_le _, Nat.zero_le _, Nat.zero_lt_succ _⟩

/-- A date is read as its midnight. -/
theorem Iso.moment_dateIso {d : Date} (h : d.Valid) : moment d.iso = .ok d.midnight :=
  moment_eq h.midnight (List.append_nil _).symm nofun rfl

end SchemaModel
