import SchemaModel.Proofs.Runs
import SchemaModel.Synthesis.Default

/-!
Defaults as computations on literals and on their items. A literal of a collection either declares
items, which are converted one after the other, or it is no sequence, and then the collection itself
fails. Any other literal that is given is converted as a whole.
-/
namespace SchemaModel

/-- The type of the elements of a collection. -/
def TargetType.element? : TargetType → Option TargetType
  | .list element | .set element => some element
  | _ => none

/-- A type has what it has because of its element type, if it has one. -/
theorem TargetType.element_induction {P : TargetType → Prop}
    (h : ∀ t, (∀ element, t.element? = some element → P element) → P t) (t : TargetType) : P t := by
  induction t with
  | list element ih | set element ih =>
    refine h _ fun element' he => ?_
    cases he
    exact ih
  | _ => exact h _ nofun

namespace Synthesis

variable {property : String} {t element : TargetType} {l : Option Literal}
  {e : SynthesisError}

open Fallible

/-! ## Single literals -/

section
variable {given : Literal} (hgiven : given ≠ .null)
include hgiven

theorem synthesize_scalar (kind : ScalarKind) : synthesize property (.scalar kind) (some given) =
    lift property (.scalar kind) given (given.toScalar kind) := by
  cases given <;> first | rfl | exact absurd rfl hgiven

theorem synthesize_date (kind : DateKind) (format : Option String) :
    synthesize property (.date kind format) (some given) = date property kind format given := by
  cases given <;> first | rfl | exact absurd rfl hgiven

theorem synthesize_enum (type : EnumType) : synthesize property (.enum type) (some given) =
    lift property (.enum type) given (given.toMember type) := by
  cases given <;> first | rfl | exact absurd rfl hgiven

end

/-! ## Items -/

/-- Items are those of a declared sequence, unless there are none. -/
theorem items_eq_ok {ls : List Literal} (h : items property t l = .ok ls) :
    ls = [] ∨ ∃ given, l = some given ∧ given.items? = some ls := by
  cases l with
  | none =>
    cases h
    exact .inl rfl
  | some given =>
    cases given with
    | sequence xs | uniqueSequence xs =>
      cases h
      exact .inr ⟨_, rfl, rfl⟩
    | null =>
      cases h
      exact .inl rfl
    | _ => cases h

theorem items_of_items? {given : Literal} {ls : List Literal} (h : given.items? = some ls) :
    items property t (some given) = .ok ls := by
  cases given with
  | sequence xs | uniqueSequence xs =>
    cases h
    rfl
  | _ => cases h

theorem items_of_no_sequence {given : Literal} (hgiven : given ≠ .null)
    (hnone : given.items? = none) :
    items property t (some given) = .error (unfit property t given .notSequence) := by
  cases given with
  | null => exact absurd rfl hgiven
  | sequence | uniqueSequence => cases hnone
  | _ => rfl

/-- Items are declared for every collection, or for none. -/
theorem items_cases (property : String) (l : Option Literal) :
    (∃ ls, ∀ target, items property target l = .ok ls) ∨
      ∃ given, l = some given ∧ given ≠ .null ∧ given.items? = none := by
  cases l with
  | none => exact .inl ⟨[], fun _ => rfl⟩
  | some given =>
    cases given with
    | null => exact .inl ⟨[], fun _ => rfl⟩
    | sequence ls | uniqueSequence ls => exact .inl ⟨ls, fun _ => rfl⟩
    | _ => exact .inr ⟨_, rfl, nofun, rfl⟩

/-! ## Conversion of the items -/

theorem synthesize_list (property : String) (l : Option Literal)
    (h : element.isReference = false) :
    synthesize property (.list element) l = (items property (.list element) l).bind fun ls =>
      (ls.mapM fun item => synthesize property element (some item)).map .list := by
  rw [synthesize, if_neg (by simp [h])]
  rfl

theorem synthesize_set (property : String) (l : Option Literal)
    (h : element.isReference = false) :
    synthesize property (.set element) l = (items property (.set element) l).bind fun ls =>
      (ls.mapM fun item => synthesize property element (some item)).map
        fun xs => (OrderedSet.ofList xs).toValue := by
  rw [synthesize, if_neg (by simp [h])]
  rfl

/-- A collection is made from its items in one way or another. -/
theorem synthesize_collection (property : String) (l : Option Literal)
    (helement : t.element? = some element) (h : element.isReference = false) :
    ∃ f : List Value → Value, synthesize property t l = (items property t l).bind fun ls =>
      (ls.mapM fun item => synthesize property element (some item)).map f := by
  cases t with
  | list =>
    cases helement
    exact ⟨_, synthesize_list property l h⟩
  | set =>
    cases helement
    exact ⟨_, synthesize_set property l h⟩
  | _ => cases helement

theorem isReference_of_error (h : synthesize property t l = .error e) : t.isReference = false := by
  cases t with
  | reference name => cases h
  | _ => rfl

/-- Collections of references are empty, whatever is declared. -/
theorem exists_of_isReference (property : String) (l : Option Literal)
    (helement : t.element? = some element) (h : element.isReference = true) :
    ∃ v, synthesize property t l = .ok v := by
  cases t with
  | list | set =>
    cases helement
    exact ⟨_, by rw [synthesize, if_pos h]⟩
  | _ => cases helement

/-! ## Errors -/

theorem conversion_eq_error_iff {f : List Value → Value} :
    ((items property t l).bind fun ls =>
      (ls.mapM fun item => synthesize property element (some item)).map f) = .error e ↔
    ∃ given, l = some given ∧
      ((given ≠ .null ∧ given.items? = none ∧ e = unfit property t given .notSequence) ∨
        ∃ before item after, given.items? = some (before ++ item :: after) ∧
          (∀ b ∈ before, ∃ v, synthesize property element (some b) = .ok v) ∧
          synthesize property element (some item) = .error e) := by
  constructor
  · intro h
    rcases bind_eq_error.mp h with h | ⟨ls, hls, h⟩
    · rcases items_cases property l with ⟨ls, hitems⟩ | ⟨given, rfl, hgiven, hnone⟩
      · rw [hitems] at h
        cases h
      · rw [items_of_no_sequence hgiven hnone] at h
        cases h
        exact ⟨given, rfl, .inl ⟨hgiven, hnone, rfl⟩⟩
    · obtain ⟨before, item, after, rfl, hbefore, hitem⟩ := mapM_eq_error.mp (map_eq_error.mp h)
      rcases items_eq_ok hls with hnil | ⟨given, rfl, hitems⟩
      · simp at hnil
      · exact ⟨given, rfl, .inr ⟨before, item, after, hitems, hbefore, hitem⟩⟩
  · rintro ⟨given, rfl, ⟨hgiven, hnone, rfl⟩ | ⟨before, item, after, hitems, hbefore, hitem⟩⟩
    · rw [items_of_no_sequence hgiven hnone]
      rfl
    · rw [items_of_items? hitems]
      exact map_eq_error.mpr (mapM_eq_error.mpr ⟨before, item, after, rfl, hbefore, hitem⟩)

/-- A collection fails because its literal is no sequence, or with the first item that fails. -/
theorem collection_eq_error_iff (helement : t.element? = some element) :
    synthesize property t l = .error e ↔ ∃ given, l = some given ∧
      ((element.isReference = false ∧ given ≠ .null ∧ given.items? = none ∧
          e = unfit property t given .notSequence) ∨
        ∃ before item after, given.items? = some (before ++ item :: after) ∧
          (∀ b ∈ before, ∃ v, synthesize property element (some b) = .ok v) ∧
          synthesize property element (some item) = .error e) := by
  by_cases h : element.isReference = true
  · obtain ⟨v, hv⟩ := exists_of_isReference property l helement h
    rw [hv]
    constructor
    · rintro ⟨⟩
    · rintro ⟨given, -, ⟨h', -⟩ | ⟨_, item, _, -, -, hitem⟩⟩
      · rw [h] at h'
        cases h'
      · rw [isReference_of_error hitem] at h
        cases h
  · rw [Bool.not_eq_true] at h
    obtain ⟨f, heq⟩ := synthesize_collection property l helement h
    rw [heq, conversion_eq_error_iff]
    simp only [h, true_and]

/-- Where a missing default is null, and one that is declared as null too, an error comes from a
literal. -/
theorem declared_of_error (hmissing : synthesize property t none = .ok .null)
    (hnull : synthesize property t (some .null) = .ok .null)
    (h : synthesize property t l = .error e) : ∃ given, l = some given ∧ given ≠ .null := by
  cases l with
  | none =>
    rw [hmissing] at h
    cases h
  | some given =>
    refine ⟨given, rfl, ?_⟩
    rintro rfl
    rw [hnull] at h
    cases h

end Synthesis
end SchemaModel
