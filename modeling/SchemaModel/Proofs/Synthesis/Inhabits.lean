import Mathlib.Algebra.Group.Int.Defs
import SchemaModel.Emission.Expression
import SchemaModel.Proofs.Synthesis.Elements

/-!
Defaults inhabit their types. A default is what its type and the literal that declares it prescribe,
down to the items of its collections, and a value of that kind always has an expression.
-/
namespace SchemaModel

open Fallible

/-! ## Kinds of values -/

/-- The values of a scalar kind; an integer has the width of its kind. -/
inductive ScalarKind.Holds : ScalarKind → Value → Prop
  | text {s} : Holds .string (.text s)
  | integer {i} (h : -2 ^ 31 ≤ i ∧ i ≤ 2 ^ 31 - 1) : Holds .integer (.int i)
  | long {i} (h : -2 ^ 63 ≤ i ∧ i ≤ 2 ^ 63 - 1) : Holds .long (.int i)
  | double {x} : Holds .double (.double x)
  | boolean {b} : Holds .boolean (.bool b)

/-- The values of a kind of date: an integer of milliseconds, or a moment of universal time. -/
inductive DateKind.Holds : DateKind → Value → Prop
  | millis {i} (h : -2 ^ 63 ≤ i ∧ i ≤ 2 ^ 63 - 1) : Holds .epochMillisAsLong (.int i)
  | moment {kind m} (hkind : kind ≠ .epochMillisAsLong) (h : m.IsUtc) : Holds kind (.moment m)

/-- The items that a literal declares; a missing literal, and one that is no sequence, declares
none. -/
def Literal.declared (l : Option Literal) : List Literal := (l.bind Literal.items?).getD []

/-- Whether a value is what a type and the literal of a default prescribe. Null stands where nothing
is declared, and for references. A collection is never null; it holds what its items prescribe, in
their order, a set nothing twice, and it is empty if its elements are references. -/
def Inhabits : TargetType → Option Literal → Value → Prop
  | .scalar kind, l, v => if Literal.isAbsent l then v = .null else kind.Holds v
  | .date kind _, l, v => if Literal.isAbsent l then v = .null else kind.Holds v
  | .enum type, l, v => if Literal.isAbsent l then v = .null else ∃ m ∈ type.members, v = .member m
  | .list element, l, v => ∃ xs, v = .list xs ∧
      if element.isReference then xs = []
      else List.Forall₂ (fun item x => Inhabits element (some item) x) (Literal.declared l) xs
  | .set element, l, v => ∃ xs, v = .set xs ∧
      if element.isReference then xs = []
      else ∃ ys, Value.Thinned ys xs ∧
        List.Forall₂ (fun item y => Inhabits element (some item) y) (Literal.declared l) ys
  | .reference _, _, v => v = .null

/-! ## Scalars, dates and members -/

theorem ScalarKind.holds_of_toScalar {kind : ScalarKind} {l : Literal} {v : Value}
    (h : l.toScalar kind = .ok v) : kind.Holds v := by
  unfold Literal.toScalar at h
  cases kind <;> obtain ⟨a, ha, rfl⟩ := map_eq_ok.mp h
  case string => exact .text
  case integer => exact .integer (Literal.toSigned_eq_ok.mp ha).2
  case long => exact .long (Literal.toSigned_eq_ok.mp ha).2
  case double => exact .double
  case boolean => exact .boolean

theorem DateKind.holds_of_date {property : String} {kind : DateKind} {format : Option String}
    {l : Literal} {v : Value} (h : Synthesis.date property kind format l = .ok v) :
    kind.Holds v := by
  cases kind with
  | epochMillisAsLong =>
    obtain ⟨i, hi, rfl⟩ := map_eq_ok.mp h
    exact .millis (Literal.toSigned_eq_ok.mp (mapError_eq_ok.mp hi)).2
  | epochMillis =>
    obtain ⟨millis, -, h⟩ := bind_eq_ok.mp h
    obtain ⟨m, hm, ⟨⟩⟩ := bind_eq_ok.mp h
    obtain ⟨micros, hmicros⟩ :=
      Fits.ofClockMicros?_of_ofEpochMillis (mapError_eq_ok.mp (mapError_eq_ok.mp hm))
    exact .moment nofun (Moment.isUtc_of_ofClockMicros? hmicros)
  | formatted =>
    cases l with
    | text s =>
      obtain ⟨m, hm, rfl⟩ := map_eq_ok.mp h
      obtain ⟨micros, hmicros⟩ := Fits.ofClockMicros?_of_ofText (mapError_eq_ok.mp hm)
      exact .moment nofun (Moment.isUtc_of_ofClockMicros? hmicros)
    | _ => cases h

namespace Inhabits

variable {property : String} {t element : TargetType} {l : Option Literal} {v : Value}

/-! ## Collections -/

theorem items_eq_ok {ls : List Literal} (h : Synthesis.items property t l = .ok ls) :
    ls = Literal.declared l := by
  unfold Synthesis.items at h
  split at h
  · cases h
    rfl
  · cases h
    rfl
  · rename_i given _
    split at h
    · rename_i hitems
      cases h
      simp [Literal.declared, hitems]
    · cases h

theorem forall₂_of_mapM {ls : List Literal} {xs : List Value}
    (ih : ∀ l v, synthesize property element l = .ok v → Inhabits element l v)
    (h : (ls.mapM fun item => synthesize property element (some item)) = .ok xs) :
    List.Forall₂ (fun item x => Inhabits element (some item) x) ls xs :=
  (Fallible.forall₂_of_mapM h).imp fun item x => ih (some item) x

theorem thinned_of_mapM {ls : List Literal} {ys : List Value}
    (h : (ls.mapM fun item => synthesize property element (some item)) = .ok ys) :
    Value.Thinned ys (OrderedSet.ofList ys).order :=
  Fits.thinned_ofList (Fits.of_mapM (Fits.of_synthesize property element) h)

/-! ## All types -/

theorem of_synthesize (t : TargetType) (l : Option Literal) (v : Value)
    (h : synthesize property t l = .ok v) : Inhabits t l v := by
  induction t generalizing l v with
  | scalar kind =>
    obtain ⟨hl, rfl⟩ | ⟨given, rfl, hgiven, hl⟩ := Fits.absent_or_given rfl rfl h
    · rw [Inhabits, if_pos hl]
    · rw [Inhabits, hl]
      simp only [synthesize] at h
      exact ScalarKind.holds_of_toScalar (mapError_eq_ok.mp h)
  | date kind format =>
    obtain ⟨hl, rfl⟩ | ⟨given, rfl, hgiven, hl⟩ := Fits.absent_or_given rfl rfl h
    · rw [Inhabits, if_pos hl]
    · rw [Inhabits, hl]
      simp only [synthesize] at h
      exact DateKind.holds_of_date h
  | enum type =>
    obtain ⟨hl, rfl⟩ | ⟨given, rfl, hgiven, hl⟩ := Fits.absent_or_given rfl rfl h
    · rw [Inhabits, if_pos hl]
    · rw [Inhabits, hl]
      simp only [synthesize] at h
      exact Fits.exists_member_of_toMember (mapError_eq_ok.mp h)
  | list element ih =>
    rw [synthesize] at h
    split at h
    · rename_i helement
      cases h
      exact ⟨[], rfl, by rw [if_pos helement]⟩
    · rename_i helement
      obtain ⟨ls, hls, h⟩ := bind_eq_ok.mp h
      obtain ⟨xs, hxs, ⟨⟩⟩ := bind_eq_ok.mp h
      refine ⟨xs, rfl, ?_⟩
      rw [if_neg helement, ← items_eq_ok hls]
      exact forall₂_of_mapM ih hxs
  | set element ih =>
    rw [synthesize] at h
    split at h
    · rename_i helement
      cases h
      exact ⟨[], rfl, by rw [if_pos helement]⟩
    · rename_i helement
      obtain ⟨ls, hls, h⟩ := bind_eq_ok.mp h
      obtain ⟨ys, hys, ⟨⟩⟩ := bind_eq_ok.mp h
      refine ⟨_, rfl, ?_⟩
      rw [if_neg helement, ← items_eq_ok hls]
      exact ⟨ys, thinned_of_mapM hys, forall₂_of_mapM ih hys⟩
  | reference name =>
    cases h
    rfl

end Inhabits

/-! ## Expressions -/

namespace Emission

theorem exists_expressions {element : TargetType} {xs : List Value}
    (h : ∀ x ∈ xs, ∃ text, expression element x = .ok text) :
    ∃ texts, expressions element xs = .ok texts := by
  induction xs with
  | nil => exact ⟨[], rfl⟩
  | cons x xs ih =>
    obtain ⟨text, hx⟩ := h x List.mem_cons_self
    obtain ⟨texts, hxs⟩ := ih fun y hy => h y (List.mem_cons_of_mem _ hy)
    refine ⟨text :: texts, ?_⟩
    rw [expressions, hx, hxs]
    rfl

/-- A value that belongs to its type has an expression under it. -/
theorem exists_expression {t : TargetType} {v : Value} (h : Fits t v) :
    ∃ text, expression t v = .ok text := by
  induction h with
  | null | text | double | boolean | member => exact ⟨_, rfl⟩
  | integer hi | long hi | millis hi => exact ⟨_, expression_int _ hi⟩
  | @moment _ _ m hm =>
    obtain ⟨micros, hm⟩ := hm
    refine ⟨momentExpression m, ?_⟩
    rw [expression, (Moment.isUtc_of_ofClockMicros? hm).offset]
    dsimp only
    rw [Moment.toUtc?_of_ofClockMicros? hm]
  | list _ ih =>
    obtain ⟨texts, hok⟩ := exists_expressions ih
    refine ⟨"[" ++ ", ".intercalate texts ++ "]", ?_⟩
    rw [expression, hok]
    rfl
  | set _ _ ih =>
    obtain ⟨texts, hok⟩ := exists_expressions ih
    refine ⟨"_OrderedSet([" ++ ", ".intercalate texts ++ "])", ?_⟩
    rw [expression, hok]
    rfl

end Emission

/-- A default is a value of its type, as the literal that declares it prescribes, and has an
expression under its type. -/
theorem synthesize_inhabits {property : String} {t : TargetType} {l : Option Literal} {v : Value}
    (h : synthesize property t l = .ok v) :
    Inhabits t l v ∧ ∃ text, Emission.expression t v = .ok text :=
  ⟨Inhabits.of_synthesize t l v h, Emission.exists_expression (Fits.of_synthesize property t l v h)⟩

/-- Sets of sizes, of which the second is missing. In the first, one size is null and two are cut to
the same integer. -/
def sizes : Literal :=
  .sequence
    [.uniqueSequence [.text " 2", .null, .decimal (.finite false 5629499534213120 (-51))], .null]

theorem synthesize_inhabits_sizes :
    synthesize "sizes" (.list (.set (.scalar .long))) (some sizes) =
        .ok (.list [.set [.int 2, .null], .set []]) ∧
      Inhabits (.list (.set (.scalar .long))) (some sizes)
        (.list [.set [.int 2, .null], .set []]) ∧
      ∃ text, Emission.expression (.list (.set (.scalar .long)))
        (.list [.set [.int 2, .null], .set []]) = .ok text := by
  have h : synthesize "sizes" (.list (.set (.scalar .long))) (some sizes) =
      .ok (.list [.set [.int 2, .null], .set []]) := by
    with_unfolding_all rfl
  exact ⟨h, synthesize_inhabits h⟩

end SchemaModel
