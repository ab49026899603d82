import SchemaModel.Proofs.Calendar.DayNumber
import SchemaModel.Proofs.Number.Limit
import SchemaModel.Proofs.OrderedSet.Distinct
import SchemaModel.Proofs.Runs
import SchemaModel.Synthesis.Default

/-!
What default values can be. The default of a property belongs to the property's type, integers are
short enough to be written, moments are found by a clock of universal time, and sets hold no element
twice.
-/
namespace SchemaModel

/-- The enumerated types among the parts of a type. -/
def TargetType.enums : TargetType → List EnumType
  | .enum type => [type]
  | .list element | .set element => element.enums
  | _ => []

/-- The values that a type can have as defaults. -/
inductive Fits : TargetType → Value → Prop
  | null {t} : Fits t .null
  | text {s} : Fits (.scalar .string) (.text s)
  | integer {i} (hi : Numeral.isLong i = false) : Fits (.scalar .integer) (.int i)
  | long {i} (hi : Numeral.isLong i = false) : Fits (.scalar .long) (.int i)
  | double {x} : Fits (.scalar .double) (.double x)
  | boolean {b} : Fits (.scalar .boolean) (.bool b)
  | millis {f i} (hi : Numeral.isLong i = false) : Fits (.date .epochMillisAsLong f) (.int i)
  | moment {k f m} (hm : ∃ micros, Moment.ofClockMicros? micros (some 0) = some m) :
      Fits (.date k f) (.moment m)
  | member {t m} (hm : m ∈ t.members) : Fits (.enum t) (.member m)
  | list {e xs} (h : ∀ x ∈ xs, Fits e x) : Fits (.list e) (.list xs)
  | set {e xs} (h : ∀ x ∈ xs, Fits e x) (hd : OrderedSet.Distinct xs) : Fits (.set e) (.set xs)

open Fallible

/-! ## Integers -/

namespace Literal

variable {bits : Nat} {l : Literal} {i : Int}

theorem toSigned_eq_ok : l.toSigned bits = .ok i ↔
    l.toInt = .ok i ∧ (signedBounds bits).1 ≤ i ∧ i ≤ (signedBounds bits).2 := by
  rw [toSigned, bind_eq_ok]
  constructor
  · rintro ⟨j, hj, h⟩
    dsimp only at h
    split at h
    · cases h
      exact ⟨hj, ‹_›⟩
    · cases h
  · rintro ⟨hi, hbounds⟩
    exact ⟨i, hi, if_pos hbounds⟩

theorem isLong_of_signedBounds (hbits : bits ≤ 64) (hlow : (signedBounds bits).1 ≤ i)
    (hhigh : i ≤ (signedBounds bits).2) : Numeral.isLong i = false := by
  have hwidth : 2 ^ (bits - 1) ≤ 2 ^ 63 := Nat.pow_le_pow_right (by decide) (by omega)
  simp only [signedBounds, Nat.pow_eq] at hlow hhigh
  have hcount : 20 ≤ Numeral.maxDigits := by decide
  exact Numeral.isLong_eq_false hcount (by omega)

theorem isLong_of_toSigned (hbits : bits ≤ 64) (h : l.toSigned bits = .ok i) :
    Numeral.isLong i = false :=
  have hbounds := (toSigned_eq_ok.mp h).2
  isLong_of_signedBounds hbits hbounds.1 hbounds.2

end Literal

namespace Fits

/-! ## Moments -/

theorem ofClockMicros?_of_ofText {s : String} {format : Option String} {m : Moment}
    (h : Moment.ofText s format = .ok m) :
    ∃ micros, Moment.ofClockMicros? micros (some 0) = some m := by
  have hshifted : ∀ a ahead, Moment.shifted s a ahead = .ok m →
      ∃ micros, Moment.ofClockMicros? micros (some 0) = some m := by
    intro a ahead ha
    unfold Moment.shifted at ha
    split at ha
    · rename_i u hu
      cases ha
      exact ⟨_, hu⟩
    · cases ha
  unfold Moment.ofText at h
  split at h
  · obtain ⟨p, -, h⟩ := bind_eq_ok.mp h
    exact hshifted _ _ h
  · obtain ⟨a, -, h⟩ := bind_eq_ok.mp h
    exact hshifted _ _ h

theorem ofClockMicros?_of_ofEpochMillis {millis : Int} {m : Moment}
    (h : Moment.ofEpochMillis millis = .ok m) :
    ∃ micros, Moment.ofClockMicros? micros (some 0) = some m := by
  unfold Moment.ofEpochMillis at h
  split at h
  · rename_i u hu
    cases h
    exact ⟨_, hu⟩
  · cases h

theorem of_date {property : String} {kind : DateKind} {format : Option String} {l : Literal}
    {v : Value} (h : Synthesis.date property kind format l = .ok v) :
    Fits (.date kind format) v := by
  unfold Synthesis.date at h
  cases kind with
  | epochMillisAsLong =>
    obtain ⟨i, hi, rfl⟩ := map_eq_ok.mp h
    exact .millis (Literal.isLong_of_toSigned (by decide) (mapError_eq_ok.mp hi))
  | epochMillis =>
    obtain ⟨millis, -, h⟩ := bind_eq_ok.mp h
    obtain ⟨m, hm, h⟩ := bind_eq_ok.mp h
    cases h
    exact .moment (ofClockMicros?_of_ofEpochMillis (mapError_eq_ok.mp (mapError_eq_ok.mp hm)))
  | formatted =>
    simp only at h
    split at h
    · obtain ⟨m, hm, rfl⟩ := map_eq_ok.mp h
      exact .moment (ofClockMicros?_of_ofText (mapError_eq_ok.mp hm))
    · cases h

/-! ## Scalars and members -/

theorem of_scalar {kind : ScalarKind} {l : Literal} {v : Value} (h : l.toScalar kind = .ok v) :
    Fits (.scalar kind) v := by
  unfold Literal.toScalar at h
  cases kind <;> obtain ⟨a, ha, rfl⟩ := map_eq_ok.mp h
  case string => exact .text
  case integer => exact .integer (Literal.isLong_of_toSigned (by decide) ha)
  case long => exact .long (Literal.isLong_of_toSigned (by decide) ha)
  case double => exact .double
  case boolean => exact .boolean

/-- Only members of a type are named by literals. -/
theorem exists_member_of_toMember {type : EnumType} {l : Literal} {v : Value}
    (h : l.toMember type = .ok v) : ∃ m ∈ type.members, v = .member m := by
  unfold Literal.toMember at h
  split at h
  · rename_i m hm
    cases h
    obtain ⟨text, -, hfind⟩ := Option.bind_eq_some_iff.mp hm
    exact ⟨m, List.mem_reverse.mp (List.mem_of_find?_eq_some hfind), rfl⟩
  · cases h

theorem of_member {type : EnumType} {l : Literal} {v : Value} (h : l.toMember type = .ok v) :
    Fits (.enum type) v := by
  obtain ⟨m, hm, rfl⟩ := exists_member_of_toMember h
  exact .member hm

/-! ## All types -/

theorem of_mapM {element : TargetType} {property : String}
    (ih : ∀ l v, synthesize property element l = .ok v → Fits element v) {ls : List Literal}
    {xs : List Value}
    (h : (ls.mapM fun item => synthesize property element (some item)) = .ok xs) :
    ∀ x ∈ xs, Fits element x := by
  have hall := forall₂_of_mapM h
  clear h
  induction hall with
  | nil => simp
  | cons hl _ ihall =>
    intro x hx
    obtain rfl | hx := List.mem_cons.mp hx
    · exact ih _ _ hl
    · exact ihall x hx

/-- Where a missing default is null, and so is one that is declared as null, only a literal that is
given makes another value. -/
theorem absent_or_given {property : String} {t : TargetType} {l : Option Literal} {v : Value}
    (hmissing : synthesize property t none = .ok .null)
    (hnull : synthesize property t (some .null) = .ok .null)
    (h : synthesize property t l = .ok v) : (Literal.isAbsent l = true ∧ v = .null) ∨
      ∃ given, l = some given ∧ given ≠ .null ∧ Literal.isAbsent l = false := by
  cases l with
  | none =>
    rw [hmissing] at h
    cases h
    exact .inl ⟨rfl, rfl⟩
  | some given =>
    by_cases hgiven : given = .null
    · rw [hgiven, hnull] at h
      cases h
      exact .inl ⟨by rw [hgiven]; rfl, rfl⟩
    · refine .inr ⟨given, rfl, hgiven, ?_⟩
      cases given <;> first | rfl | exact absurd rfl hgiven

/-- A default belongs to the type that it is a default of. -/
theorem of_synthesize (property : String) (t : TargetType) (l : Option Literal) (v : Value)
    (h : synthesize property t l = .ok v) : Fits t v := by
  induction t generalizing l v with
  | reference name =>
    rw [synthesize] at h
    cases h
    exact .null
  | list element ih =>
    rw [synthesize] at h
    split at h
    · cases h
      exact .list (by simp)
    · obtain ⟨ls, -, h⟩ := bind_eq_ok.mp h
      obtain ⟨xs, hx, h⟩ := bind_eq_ok.mp h
      cases h
      exact .list (of_mapM ih hx)
  | set element ih =>
    rw [synthesize] at h
    split at h
    · cases h
      exact .set (by simp) .nil
    · obtain ⟨ls, -, h⟩ := bind_eq_ok.mp h
      obtain ⟨xs, hx, h⟩ := bind_eq_ok.mp h
      cases h
      exact .set (fun x hm => of_mapM ih hx x (OrderedSet.mem_of_mem_ofList hm))
        (OrderedSet.distinct_ofList xs)
  | scalar kind =>
    obtain ⟨-, rfl⟩ | ⟨given, rfl, hgiven, -⟩ := absent_or_given rfl rfl h
    · exact .null
    · simp only [synthesize] at h
      exact of_scalar (mapError_eq_ok.mp h)
  | date kind format =>
    obtain ⟨-, rfl⟩ | ⟨given, rfl, hgiven, -⟩ := absent_or_given rfl rfl h
    · exact .null
    · simp only [synthesize] at h
      exact of_date h
  | enum type =>
    obtain ⟨-, rfl⟩ | ⟨given, rfl, hgiven, -⟩ := absent_or_given rfl rfl h
    · exact .null
    · simp only [synthesize] at h
      exact of_member (mapError_eq_ok.mp h)

end Fits
end SchemaModel
