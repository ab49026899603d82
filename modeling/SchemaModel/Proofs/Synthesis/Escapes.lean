import SchemaModel.Proofs.Calendar.LastDay
import SchemaModel.Proofs.Synthesis.Collections
import SchemaModel.Proofs.Synthesis.Fits

/-!
What can go wrong when a default is converted. Nearly always the literal does not fit its type, and
the error says so. Two faults of a date are let through instead: a text in standard form may lead
past the end of the calendar, and a pattern may name a field twice. And a literal that holds an
integer with too many digits never fits, but no error can show it.
-/
namespace SchemaModel

open Fallible DateError

namespace Pattern

/-- Whether a pattern can be read into items but names a field more than once. -/
def Repeats (pattern : String) : Prop :=
  ∃ is, items pattern = .ok is ∧ ¬ (fields is).Nodup

theorem moment_eq_error {text pattern : String} {e : DateError}
    (h : moment text pattern = .error e) : e.IsFault ∨ e = .repeatedField ∧ Repeats pattern := by
  unfold moment at h
  obtain h | ⟨is, his, h⟩ := bind_eq_error.mp h
  · exact .inl (isFault_of_mapError h)
  rw [mapError_eq_ok] at his
  by_cases hdup : ¬ (fields is).Nodup
  · rw [if_pos hdup] at h
    cases h
    exact .inr ⟨rfl, is, his, hdup⟩
  rw [if_neg hdup] at h
  refine .inl ?_
  split at h
  · cases h
    exact ⟨_, rfl⟩
  · split at h
    · cases h
      exact ⟨_, rfl⟩
    · exact isFault_of_mapError h

theorem Repeats.moment {text pattern : String} (h : Repeats pattern) :
    moment text pattern = .error .repeatedField := by
  obtain ⟨is, his, hdup⟩ := h
  unfold Pattern.moment
  refine bind_eq_error.mpr (.inr ⟨is, mapError_eq_ok.mpr his, ?_⟩)
  rw [if_pos hdup]
  rfl

end Pattern

namespace Moment

/-- A text that cannot be read, for another reason than that it is no date of its format. -/
inductive Unreadable (text : String) (format : Option String) : DateError → Prop
  /-- The text leads past the end of the calendar. -/
  | pastEnd (hformat : pattern? format = none) (h : Iso.PastEnd text) :
      Unreadable text format .overflow
  /-- The format names a field twice. -/
  | repeats {pattern : String} (hformat : pattern? format = some pattern)
      (h : Pattern.Repeats pattern) : Unreadable text format .repeatedField

theorem shifted_eq_error {text : String} {m : Moment} {ahead : Int} {e : DateError}
    (h : shifted text m ahead = .error e) : e.IsFault := by
  unfold shifted at h
  split at h
  · cases h
  · cases h
    exact ⟨_, rfl⟩

theorem ofText_eq_error {text : String} {format : Option String} {e : DateError}
    (h : ofText text format = .error e) : e.IsFault ∨ Unreadable text format e := by
  unfold ofText at h
  split at h
  · rename_i pattern hformat
    obtain h | ⟨p, -, h⟩ := bind_eq_error.mp h
    · obtain h | ⟨rfl, hrep⟩ := Pattern.moment_eq_error h
      · exact .inl h
      · exact .inr (.repeats hformat hrep)
    · exact .inl (shifted_eq_error h)
  · rename_i hformat
    obtain h | ⟨m, -, h⟩ := bind_eq_error.mp h
    · obtain h | ⟨rfl, hend⟩ := Iso.moment_eq_error h
      · exact .inl h
      · exact .inr (.pastEnd hformat hend)
    · exact .inl (shifted_eq_error h)

theorem Unreadable.ofText {text : String} {format : Option String} {e : DateError}
    (h : Unreadable text format e) : ofText text format = .error e := by
  unfold Moment.ofText
  cases h with
  | pastEnd hformat h =>
    rw [hformat]
    exact bind_eq_error.mpr (.inl h.moment)
  | repeats hformat h =>
    rw [hformat]
    exact bind_eq_error.mpr (.inl h.moment)

end Moment

/-! ## Integers with too many digits -/

namespace Literal

variable {l : Literal}

theorem text?_of_hasLong (h : l.hasLong = true) : l.text? = none := by
  cases l with
  | int i => exact if_pos (hasLong_int i ▸ h)
  | bool | decimal | text => cases h
  | _ => rfl

/-- An integer that is too long is beyond the bounds of every width. -/
theorem toSigned_of_hasLong {bits : Nat} (hbits : bits ≤ 64) (h : l.hasLong = true) :
    ∃ cause, l.toSigned bits = .error cause := by
  cases l with
  | int i =>
    have hout : ¬ ((signedBounds bits).1 ≤ i ∧ i ≤ (signedBounds bits).2) := by
      rintro ⟨hlow, hhigh⟩
      rw [hasLong_int, isLong_of_signedBounds hbits hlow hhigh] at h
      cases h
    exact ⟨_, if_neg hout⟩
  | bool | decimal | text => cases h
  | _ => exact ⟨_, rfl⟩

theorem toScalar_of_hasLong (kind : ScalarKind) (h : l.hasLong = true) :
    ∃ cause, l.toScalar kind = .error cause := by
  cases kind with
  | string =>
    rw [toScalar, toText, text?_of_hasLong h]
    exact ⟨_, rfl⟩
  | integer =>
    obtain ⟨cause, hcause⟩ : ∃ cause, l.toSigned 32 = .error cause :=
      toSigned_of_hasLong (by decide) h
    exact ⟨cause, map_eq_error.mpr hcause⟩
  | long =>
    obtain ⟨cause, hcause⟩ : ∃ cause, l.toSigned 64 = .error cause :=
      toSigned_of_hasLong (by decide) h
    exact ⟨cause, map_eq_error.mpr hcause⟩
  | double =>
    cases l with
    | int i =>
      rw [toScalar, toDouble, Double.ofInt?_of_isLong (hasLong_int i ▸ h)]
      exact ⟨_, rfl⟩
    | bool | decimal | text => cases h
    | _ => exact ⟨_, rfl⟩
  | boolean =>
    cases l with
    | bool | text => cases h
    | _ => exact ⟨_, rfl⟩

theorem toMember_of_hasLong (type : EnumType) (h : l.hasLong = true) :
    ∃ cause, l.toMember type = .error cause := by
  rw [toMember, text?_of_hasLong h]
  exact ⟨_, rfl⟩

end Literal

namespace Synthesis

/-- The error that is let through for a date that cannot be read. -/
def escape : DateError → SynthesisError
  | .overflow => .overflow
  | _ => .repeatedField

/-- Whether converting a literal ends with an error that does not say that the literal does not fit.
In a collection the items before the one that is to blame are converted. -/
inductive Escapes (property : String) : TargetType → Literal → SynthesisError → Prop
  /-- No single value comes from a literal that holds an integer with too many digits. -/
  | long {target : TargetType} {l : Literal} (helement : target.element? = none)
      (hreference : target.isReference = false) (hlong : l.hasLong = true) :
      Escapes property target l .digits
  /-- Such a literal, where a collection needs a sequence, is none. -/
  | noItems {target element : TargetType} {l : Literal} (helement : target.element? = some element)
      (hreference : element.isReference = false) (hitems : l.items? = none)
      (hlong : l.hasLong = true) : Escapes property target l .digits
  | date {format : Option String} {text : String} {e : DateError}
      (h : Moment.Unreadable text format e) :
      Escapes property (.date .formatted format) (.text text) (escape e)
  | list {element : TargetType} {l item : Literal} {before after : List Literal}
      {e : SynthesisError} (helement : element.isReference = false)
      (hitems : l.items? = some (before ++ item :: after))
      (hbefore : ∀ b ∈ before, ∃ v, synthesize property element (some b) = .ok v)
      (hitem : Escapes property element item e) : Escapes property (.list element) l e
  | set {element : TargetType} {l item : Literal} {before after : List Literal}
      {e : SynthesisError} (helement : element.isReference = false)
      (hitems : l.items? = some (before ++ item :: after))
      (hbefore : ∀ b ∈ before, ∃ v, synthesize property element (some b) = .ok v)
      (hitem : Escapes property element item e) : Escapes property (.set element) l e

variable {property : String} {target element : TargetType} {l : Literal} {e : SynthesisError}

/-- An item that escapes takes its collection with it. -/
theorem Escapes.item {item : Literal} {before after : List Literal}
    (helement : target.element? = some element) (hitems : l.items? = some (before ++ item :: after))
    (hbefore : ∀ b ∈ before, ∃ v, synthesize property element (some b) = .ok v)
    (hreference : element.isReference = false) (hitem : Escapes property element item e) :
    Escapes property target l e := by
  cases target with
  | list =>
    cases helement
    exact .list hreference hitems hbefore hitem
  | set =>
    cases helement
    exact .set hreference hitems hbefore hitem
  | _ => cases helement

/-! ## Literals that do not fit -/

theorem unfit_of_hasLong (property : String) (target : TargetType) (cause : ConversionFault)
    (h : l.hasLong = true) : unfit property target l cause = .digits := if_pos h

theorem unfit_of_not_hasLong (property : String) (target : TargetType) (cause : ConversionFault)
    (h : l.hasLong = false) : unfit property target l cause =
      .conversion { property, target, literal := some l, reason := cause.message } :=
  if_neg (by simp [h])

theorem unfit_cases (property : String) (target : TargetType) (l : Literal)
    (cause : ConversionFault) : (∃ c, unfit property target l cause = .conversion c) ∨
      l.hasLong = true ∧ unfit property target l cause = .digits := by
  cases h : l.hasLong with
  | false => exact .inl ⟨_, unfit_of_not_hasLong property target cause h⟩
  | true => exact .inr ⟨rfl, unfit_of_hasLong property target cause h⟩

theorem lift_of_hasLong {α : Type} (property : String) (target : TargetType)
    {x : Except ConversionFault α} (h : l.hasLong = true) (hx : ∃ cause, x = .error cause) :
    lift property target l x = .error .digits := by
  obtain ⟨cause, rfl⟩ := hx
  exact congrArg Except.error (unfit_of_hasLong property target cause h)

theorem date_of_hasLong (kind : DateKind) (format : Option String) (h : l.hasLong = true) :
    date property kind format l = .error .digits := by
  have hsigned : lift property (.date kind format) l (l.toSigned 64) = .error .digits :=
    lift_of_hasLong property _ h (Literal.toSigned_of_hasLong (by decide) h)
  cases kind with
  | epochMillisAsLong => exact map_eq_error.mpr hsigned
  | epochMillis => exact bind_eq_error.mpr (.inl hsigned)
  | formatted =>
    cases l with
    | text => cases h
    | _ => exact congrArg Except.error (unfit_of_hasLong property _ _ h)

/-- A literal that holds a long integer becomes no single value. -/
theorem synthesize_of_hasLong (property : String) (helement : target.element? = none)
    (hreference : target.isReference = false) (h : l.hasLong = true) :
    synthesize property target (some l) = .error .digits := by
  have hne : l ≠ .null := by
    rintro rfl
    cases h
  cases target with
  | reference => cases hreference
  | list | set => cases helement
  | scalar kind =>
    rw [synthesize_scalar hne]
    exact lift_of_hasLong property _ h (l.toScalar_of_hasLong kind h)
  | date kind format =>
    rw [synthesize_date hne]
    exact date_of_hasLong kind format h
  | enum type =>
    rw [synthesize_enum hne]
    exact lift_of_hasLong property _ h (l.toMember_of_hasLong type h)

/-! ## Single literals -/

theorem lift_eq_error {α : Type} {x : Except ConversionFault α}
    (h : lift property target l x = .error e) : ∃ cause, e = unfit property target l cause := by
  obtain ⟨cause, -, rfl⟩ := mapError_eq_error.mp h
  exact ⟨cause, rfl⟩

theorem liftDate_eq_error {text : String} {format : Option String}
    (h : liftDate property target l (Moment.ofText text format) = .error e) :
    (∃ cause, e = unfit property target l cause) ∨
      ∃ d, Moment.Unreadable text format d ∧ e = escape d := by
  obtain ⟨d, hd, rfl⟩ := mapError_eq_error.mp h
  obtain ⟨cause, rfl⟩ | hd := Moment.ofText_eq_error hd
  · exact .inl ⟨.date cause, rfl⟩
  · refine .inr ⟨d, hd, ?_⟩
    cases hd <;> rfl

theorem date_eq_error {kind : DateKind} {format : Option String}
    (h : date property kind format l = .error e) :
    (∃ cause, e = unfit property (.date kind format) l cause) ∨
      Escapes property (.date kind format) l e := by
  unfold date at h
  cases kind with
  | epochMillisAsLong => exact .inl (lift_eq_error (map_eq_error.mp h))
  | epochMillis =>
    obtain h | ⟨millis, -, h⟩ := bind_eq_error.mp h
    · exact .inl (lift_eq_error h)
    obtain h | ⟨m, -, ⟨⟩⟩ := bind_eq_error.mp h
    exact .inl (lift_eq_error h)
  | formatted =>
    cases l with
    | text s =>
      obtain h | ⟨d, hd, rfl⟩ := liftDate_eq_error (map_eq_error.mp h)
      · exact .inl h
      · exact .inr (.date hd)
    | _ =>
      cases h
      exact .inl ⟨_, rfl⟩

/-- Only a collection fails because of something else than the literal itself. -/
theorem eq_error_of_element?_eq_none {l : Option Literal} (helement : target.element? = none)
    (h : synthesize property target l = .error e) : ∃ given, l = some given ∧
      ((∃ cause, e = unfit property target given cause) ∨ Escapes property target given e) := by
  cases target with
  | reference name => cases h
  | list | set => cases helement
  | scalar kind =>
    obtain ⟨given, rfl, hgiven⟩ := declared_of_error rfl rfl h
    simp only [synthesize] at h
    exact ⟨given, rfl, .inl (lift_eq_error h)⟩
  | date kind format =>
    obtain ⟨given, rfl, hgiven⟩ := declared_of_error rfl rfl h
    simp only [synthesize] at h
    exact ⟨given, rfl, date_eq_error h⟩
  | enum type =>
    obtain ⟨given, rfl, hgiven⟩ := declared_of_error rfl rfl h
    simp only [synthesize] at h
    exact ⟨given, rfl, .inl (lift_eq_error h)⟩

/-! ## All types -/

theorem synthesize_eq_error (property : String) (target : TargetType) (l : Option Literal)
    (e : SynthesisError) (h : synthesize property target l = .error e) :
    (∃ c, e = .conversion c) ∨ ∃ given, l = some given ∧ Escapes property target given e := by
  induction target using TargetType.element_induction generalizing l with
  | h target ih =>
    cases helement : target.element? with
    | none =>
      obtain ⟨given, rfl, ⟨cause, rfl⟩ | hesc⟩ := eq_error_of_element?_eq_none helement h
      · obtain hc | ⟨hlong, hdigits⟩ := unfit_cases property target given cause
        · exact .inl hc
        · rw [hdigits]
          exact .inr ⟨given, rfl, .long helement (isReference_of_error h) hlong⟩
      · exact .inr ⟨given, rfl, hesc⟩
    | some element =>
      obtain ⟨given, rfl, ⟨hreference, -, hnone, rfl⟩ |
          ⟨before, item, after, hitems, hbefore, hitem⟩⟩ := (collection_eq_error_iff helement).mp h
      · obtain hc | ⟨hlong, hdigits⟩ := unfit_cases property target given .notSequence
        · exact .inl hc
        · rw [hdigits]
          exact .inr ⟨given, rfl, .noItems helement hreference hnone hlong⟩
      · obtain hc | ⟨_, ⟨⟩, hesc⟩ := ih element helement _ hitem
        · exact .inl hc
        · exact .inr ⟨given, rfl,
            .item helement hitems hbefore (isReference_of_error hitem) hesc⟩

theorem Escapes.synthesize (h : Escapes property target l e) :
    synthesize property target (some l) = .error e := by
  induction h with
  | long helement hreference hlong => exact synthesize_of_hasLong property helement hreference hlong
  | @noItems target element l helement hreference hnone hlong =>
    have hne : l ≠ .null := by
      rintro rfl
      cases hlong
    exact (collection_eq_error_iff helement).mpr ⟨l, rfl,
      .inl ⟨hreference, hne, hnone, (unfit_of_hasLong property target .notSequence hlong).symm⟩⟩
  | @date format text d h =>
    show (liftDate property _ _ (Moment.ofText text format)).map _ = _
    rw [h.ofText]
    cases h <;> rfl
  | list _ hitems hbefore _ ih | set _ hitems hbefore _ ih =>
    exact (collection_eq_error_iff rfl).mpr ⟨_, rfl, .inr ⟨_, _, _, hitems, hbefore, ih⟩⟩

theorem Escapes.ne_conversion (h : Escapes property target l e) (c : ConversionError) :
    e ≠ .conversion c := by
  induction h with
  | long | noItems => nofun
  | @date _ _ d _ => cases d <;> nofun
  | list _ _ _ _ ih => exact ih
  | set _ _ _ _ ih => exact ih

/-- Whether a value is found or the literal is reported not to fit. -/
def Answers (property : String) (target : TargetType) (l : Option Literal) : Prop :=
  (∃ v, synthesize property target l = .ok v) ∨
    ∃ c, synthesize property target l = .error (.conversion c)

/-- Every conversion answers, except where it comes upon a date that leads past the end of the
calendar or whose pattern names a field twice, or upon a literal that does not fit and that holds an
integer with too many digits. -/
theorem answers_iff (property : String) (target : TargetType) (l : Option Literal) :
    Answers property target l ↔ ¬ ∃ given e, l = some given ∧ Escapes property target given e := by
  constructor
  · rintro h ⟨given, e, rfl, hesc⟩
    rw [Answers, hesc.synthesize] at h
    obtain ⟨v, ⟨⟩⟩ | ⟨c, hc⟩ := h
    cases hc
    exact hesc.ne_conversion c rfl
  · intro h
    rw [Answers]
    cases hs : synthesize property target l with
    | ok v => exact .inl ⟨v, rfl⟩
    | error e =>
      obtain ⟨c, rfl⟩ | ⟨given, rfl, hesc⟩ := synthesize_eq_error property target l e hs
      · exact .inr ⟨c, rfl⟩
      · exact absurd ⟨given, e, rfl, hesc⟩ h

/-- Week 53 of the last year is not in the calendar. -/
theorem unreadable_lastWeek : Moment.Unreadable "9999-W53-7" (some "date") .overflow := by
  have hascii : ("9999-W53-7".toList.all fun c => decide (c.toNat ≤ 0x7f)) = true := by decide
  exact .pastEnd (by decide)
    (.week (fun c hc => of_decide_eq_true (List.all_eq_true.mp hascii c hc))
      (@Iso.NamesWeek.intro "9999".toList "W53-7".toList 9999 53 7 true rfl rfl
        (@Iso.NamesWeekday.weekday true "53".toList [] '7' 53 7 rfl rfl rfl))
      (by decide) (.inl rfl))

/-- The year stands twice in the pattern. -/
theorem unreadable_twoYears : Moment.Unreadable "2000 2000" (some "%Y %Y") .repeatedField := by
  have hformat : Moment.pattern? (some "%Y %Y") = some "%Y %Y" := by decide
  exact .repeats hformat ⟨[.field .year, .blanks, .field .year], rfl, by decide⟩

theorem not_answers_lastWeek_twoYears_long :
    ¬ Answers "p" (.date .formatted (some "date")) (some (.text "9999-W53-7")) ∧
      ¬ Answers "p" (.date .formatted (some "%Y %Y")) (some (.text "2000 2000")) ∧
      ¬ Answers "p" (.scalar .integer) (some (.int (10 ^ Numeral.maxDigits : Nat))) := by
  have hlong : (Literal.int (10 ^ Numeral.maxDigits : Nat)).hasLong = true := by
    rw [Literal.hasLong_int, Numeral.isLong_power]
  refine ⟨fun h => ?_, fun h => ?_, fun h => ?_⟩
  · rw [Answers, (Escapes.date unreadable_lastWeek).synthesize] at h
    obtain ⟨v, ⟨⟩⟩ | ⟨c, ⟨⟩⟩ := h
  · rw [Answers, (Escapes.date unreadable_twoYears).synthesize] at h
    obtain ⟨v, ⟨⟩⟩ | ⟨c, ⟨⟩⟩ := h
  · rw [Answers, (Escapes.long rfl rfl hlong).synthesize] at h
    obtain ⟨v, ⟨⟩⟩ | ⟨c, ⟨⟩⟩ := h

end Synthesis
end SchemaModel
