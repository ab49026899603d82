import SchemaModel.Proofs.OrderedSet.Distinct
import SchemaModel.Proofs.Synthesis.Collections
import SchemaModel.Schema.LiteralValue

/-!
The flavour of sequences does not matter to defaults. Whatever a conversion asks of a literal, the
literal in plain flavour answers alike, and so do any two literals that are the same in plain
flavour (`flavour_ignored`). What makes a default a set is its type.
-/
namespace SchemaModel

namespace Literal

mutual

/-- The literal with all its sequences in plain flavour, at any depth. -/
def unflavoured : Literal → Literal
  | .sequence items | .uniqueSequence items => .sequence (allUnflavoured items)
  | .object fields => .object (fieldsUnflavoured fields)
  | .null => .null
  | .bool b => .bool b
  | .int i => .int i
  | .decimal x => .decimal x
  | .text s => .text s

def allUnflavoured : List Literal → List Literal
  | [] => []
  | l :: ls => l.unflavoured :: allUnflavoured ls

def fieldsUnflavoured : List (String × Literal) → List (String × Literal)
  | [] => []
  | (name, l) :: fs => (name, l.unflavoured) :: fieldsUnflavoured fs

end

theorem allUnflavoured_eq (ls : List Literal) : allUnflavoured ls = ls.map unflavoured := by
  induction ls with
  | nil => rfl
  | cons l ls ih => rw [allUnflavoured, ih, List.map_cons]

/-! ## Integers with too many digits -/

mutual

theorem hasLong_unflavoured : ∀ l : Literal, l.unflavoured.hasLong = l.hasLong
  | .sequence items | .uniqueSequence items => by
    rw [unflavoured, hasLong, hasLong, anyLong_allUnflavoured items]
  | .object fields => by
    rw [unflavoured, hasLong, hasLong, fieldsLong_fieldsUnflavoured fields]
  | .null | .bool _ | .int _ | .decimal _ | .text _ => rfl

theorem anyLong_allUnflavoured : ∀ ls : List Literal, anyLong (allUnflavoured ls) = anyLong ls
  | [] => rfl
  | l :: ls => by
    rw [allUnflavoured, anyLong, anyLong, hasLong_unflavoured l, anyLong_allUnflavoured ls]

theorem fieldsLong_fieldsUnflavoured : ∀ fs : List (String × Literal),
    fieldsLong (fieldsUnflavoured fs) = fieldsLong fs
  | [] => rfl
  | (_, l) :: fs => by
    rw [fieldsUnflavoured, fieldsLong, fieldsLong, hasLong_unflavoured l,
      fieldsLong_fieldsUnflavoured fs]

end

/-! ## What conversions ask -/

variable (l : Literal)

theorem unflavoured_eq_null_iff : l.unflavoured = .null ↔ l = .null := by
  cases l <;> simp [unflavoured]

theorem text?_unflavoured : l.unflavoured.text? = l.text? := by
  cases l <;> rfl

theorem isLong_unflavoured : l.unflavoured.isLong = l.isLong := by
  cases l <;> rfl

theorem toInt_unflavoured : l.unflavoured.toInt = l.toInt := by
  cases l <;> rfl

theorem toSigned_unflavoured (bits : Nat) : l.unflavoured.toSigned bits = l.toSigned bits := by
  rw [toSigned, toSigned, toInt_unflavoured]

theorem toDouble_unflavoured : l.unflavoured.toDouble = l.toDouble := by
  cases l <;> rfl

theorem toBool_unflavoured : l.unflavoured.toBool = l.toBool := by
  cases l <;> rfl

theorem toScalar_unflavoured (kind : ScalarKind) :
    l.unflavoured.toScalar kind = l.toScalar kind := by
  cases kind with
  | string => rw [toScalar, toScalar, toText, toText, text?_unflavoured, isLong_unflavoured]
  | integer | long => rw [toScalar, toScalar, toSigned_unflavoured]
  | double => rw [toScalar, toScalar, toDouble_unflavoured]
  | boolean => rw [toScalar, toScalar, toBool_unflavoured]

theorem toMember_unflavoured (type : EnumType) :
    l.unflavoured.toMember type = l.toMember type := by
  rw [toMember, toMember, text?_unflavoured, isLong_unflavoured]

/-- The flavour that a declared default gets is one of its outermost sequence. -/
theorem unflavoured_flavoured (unique : Bool) :
    (l.flavoured unique).unflavoured = l.unflavoured := by
  cases l with
  | sequence items => cases unique <;> rfl
  | _ => rfl

end Literal

/-- The error without the literal that it blames. -/
def SynthesisError.withoutLiteral : SynthesisError → SynthesisError
  | .conversion e => .conversion { e with literal := none }
  | .overflow => .overflow
  | .repeatedField => .repeatedField
  | .digits => .digits

namespace Synthesis

open Fallible

variable {property : String} {t element : TargetType} {l l' : Literal} {α β : Type}

/-- The outcome of a conversion, without the literal that its error blames. -/
def blameless (x : Except SynthesisError α) : Except SynthesisError α :=
  x.mapError SynthesisError.withoutLiteral

theorem blameless_map (x : Except SynthesisError α) (f : α → β) :
    blameless (x.map f) = (blameless x).map f :=
  mapError_map

theorem blameless_bind (x : Except SynthesisError α) (f : α → Except SynthesisError β) :
    blameless (x.bind f) = (blameless x).bind fun a => blameless (f a) :=
  mapError_bind

theorem blameless_mapM (ls : List α) (f : α → Except SynthesisError β) :
    blameless (ls.mapM f) = ls.mapM fun a => blameless (f a) :=
  mapM_mapError.symm

/-! ## Literals that are converted as a whole -/

theorem withoutLiteral_unfit (property : String) (t : TargetType) (cause : ConversionFault)
    (h : l.hasLong = l'.hasLong) :
    (unfit property t l cause).withoutLiteral = (unfit property t l' cause).withoutLiteral := by
  unfold unfit
  rw [h]
  split <;> rfl

theorem blameless_lift (property : String) (t : TargetType) (h : l.hasLong = l'.hasLong)
    (x : Except ConversionFault α) :
    blameless (lift property t l x) = blameless (lift property t l' x) := by
  cases x with
  | error cause => exact congrArg Except.error (withoutLiteral_unfit property t cause h)
  | ok => rfl

theorem blameless_date (property : String) (kind : DateKind) (format : Option String)
    (l : Literal) : blameless (date property kind format l.unflavoured) =
      blameless (date property kind format l) := by
  cases kind with
  | epochMillisAsLong =>
    rw [date, date, blameless_map, blameless_map, Literal.toSigned_unflavoured,
      blameless_lift _ _ l.hasLong_unflavoured]
  | epochMillis =>
    show blameless (Except.bind _ fun _ => Except.bind _ _) =
      blameless (Except.bind _ fun _ => Except.bind _ _)
    simp only [blameless_bind, Literal.toSigned_unflavoured,
      blameless_lift property _ l.hasLong_unflavoured]
  | formatted =>
    cases l with
    | text s => rfl
    | _ =>
      exact congrArg Except.error
        (withoutLiteral_unfit property _ _ (Literal.hasLong_unflavoured _))

/-- Outside of collections a literal is asked for what it stands for as a whole. -/
theorem blameless_whole (helement : t.element? = none) (property : String) (l : Literal) :
    blameless (synthesize property t (some l.unflavoured)) =
      blameless (synthesize property t (some l)) := by
  by_cases hl : l = .null
  · rw [hl, Literal.unflavoured]
  have hplain : l.unflavoured ≠ .null := fun h => hl (l.unflavoured_eq_null_iff.mp h)
  cases t with
  | reference name => rfl
  | list | set => cases helement
  | scalar kind =>
    rw [synthesize_scalar hl, synthesize_scalar hplain, Literal.toScalar_unflavoured]
    exact blameless_lift property _ l.hasLong_unflavoured _
  | date kind format =>
    rw [synthesize_date hl, synthesize_date hplain]
    exact blameless_date property kind format l
  | enum type =>
    rw [synthesize_enum hl, synthesize_enum hplain, Literal.toMember_unflavoured]
    exact blameless_lift property _ l.hasLong_unflavoured _

/-! ## Collections -/

theorem blameless_items (property : String) (t : TargetType) (l : Literal) :
    blameless (items property t (some l.unflavoured)) =
      (blameless (items property t (some l))).map (·.map Literal.unflavoured) := by
  cases l with
  | sequence ls | uniqueSequence ls =>
    rw [Literal.unflavoured, Literal.allUnflavoured_eq]
    rfl
  | null => rfl
  | _ =>
    exact congrArg Except.error (withoutLiteral_unfit property t _ (Literal.hasLong_unflavoured _))

theorem blameless_collection (ih : ∀ l : Literal,
      blameless (synthesize property element (some l.unflavoured)) =
        blameless (synthesize property element (some l)))
    (f : List Value → Value) (l : Literal) :
    blameless ((items property t (some l.unflavoured)).bind fun ls =>
        (ls.mapM fun item => synthesize property element (some item)).map f) =
      blameless ((items property t (some l)).bind fun ls =>
        (ls.mapM fun item => synthesize property element (some item)).map f) := by
  simp only [blameless_bind, blameless_map, blameless_mapM, blameless_items]
  cases blameless (items property t (some l)) with
  | error e => rfl
  | ok ls =>
    -- the items are those of the plain form, one by one
    show Except.map f ((ls.map Literal.unflavoured).mapM _) = Except.map f (ls.mapM _)
    rw [mapM_map_of_eq fun item _ => ih item]

/-- A literal has the default of its plain form, or fails as that does. -/
theorem blameless_synthesize (property : String) (t : TargetType) (l : Literal) :
    blameless (synthesize property t (some l.unflavoured)) =
      blameless (synthesize property t (some l)) := by
  induction t generalizing l with
  | scalar | date | enum | reference => exact blameless_whole rfl property l
  | list element ih =>
    by_cases h : element.isReference = true
    · rw [synthesize, synthesize, if_pos h, if_pos h]
    · rw [Bool.not_eq_true] at h
      rw [synthesize_list property _ h, synthesize_list property _ h]
      exact blameless_collection ih _ l
  | set element ih =>
    by_cases h : element.isReference = true
    · rw [synthesize, synthesize, if_pos h, if_pos h]
    · rw [Bool.not_eq_true] at h
      rw [synthesize_set property _ h, synthesize_set property _ h]
      exact blameless_collection ih _ l

/-! ## Defaults of nested sets -/

theorem exists_of_set {v : Value} (h : synthesize property (.set element) (some l) = .ok v) :
    ∃ xs, v = .set xs := by
  rw [synthesize] at h
  split at h
  · cases h
    exact ⟨[], rfl⟩
  · obtain ⟨ls, -, h⟩ := bind_eq_ok.mp h
    obtain ⟨ys, -, h⟩ := bind_eq_ok.mp h
    cases h
    exact ⟨_, rfl⟩

/-- The elements of a set of sets are sets. -/
theorem exists_of_nested {v : Value}
    (h : synthesize property (.set (.set element)) (some l) = .ok v) :
    ∃ xs, v = .set xs ∧ ∀ x ∈ xs, ∃ ys, x = .set ys := by
  rw [synthesize_set property (some l) rfl] at h
  obtain ⟨ls, -, h⟩ := bind_eq_ok.mp h
  obtain ⟨xs, hxs, rfl⟩ := map_eq_ok.mp h
  refine ⟨_, rfl, fun x hx => ?_⟩
  -- an element is the default of an item, which is a set
  obtain ⟨item, -, hitem⟩ := exists_of_forall₂ (forall₂_of_mapM hxs).flip
    (OrderedSet.mem_of_mem_ofList hx)
  exact exists_of_set hitem

/-- Two literals that differ in the flavour of sequences only, at any depth, have one and the same
default, or they fail for the same property, with the same type and for the same reason. It does not
matter whether they are declared where elements are to be unique, and whatever the flavours, the
default of a set of sets holds sets. -/
theorem flavour_ignored (property : String) (t : TargetType) (h : l.unflavoured = l'.unflavoured) :
    blameless (synthesize property t (some l)) = blameless (synthesize property t (some l')) ∧
      (∀ unique, blameless (synthesize property t (some (l.flavoured unique))) =
        blameless (synthesize property t (some l'))) ∧
      ∀ element v, t = .set (.set element) → synthesize property t (some l) = .ok v →
        ∃ xs, v = .set xs ∧ ∀ x ∈ xs, ∃ ys, x = .set ys := by
  have halike : ∀ given : Literal, given.unflavoured = l'.unflavoured →
      blameless (synthesize property t (some given)) =
        blameless (synthesize property t (some l')) := by
    intro given hgiven
    rw [← blameless_synthesize property t given, hgiven, blameless_synthesize]
  refine ⟨halike l h, fun unique => ?_, ?_⟩
  · exact halike _ ((l.unflavoured_flavoured unique).trans h)
  · rintro element v rfl hv
    exact exists_of_nested hv

/-- Shelves of numbers: the outer sequence is to be unique, the inner ones are plain, and one number
is declared as a text. -/
def shelves : Literal :=
  .uniqueSequence [.sequence [.int 1, .int 2], .sequence [.text " 2", .int 1], .null]

/-- The same shelves, each of them to be unique, but not the outer sequence. -/
def uniqueShelves : Literal :=
  .sequence [.uniqueSequence [.int 1, .int 2], .uniqueSequence [.text " 2", .int 1], .null]

theorem flavour_ignored_shelves :
    shelves.unflavoured = uniqueShelves.unflavoured ∧
      blameless (synthesize "shelves" (.set (.set (.scalar .integer))) (some shelves)) =
        blameless (synthesize "shelves" (.set (.set (.scalar .integer))) (some uniqueShelves)) ∧
      synthesize "shelves" (.set (.set (.scalar .integer))) (some uniqueShelves) =
        .ok (.set [.set [.int 1, .int 2], .set []]) ∧
      blameless (synthesize "shelves" (.list (.scalar .integer)) (some shelves)) =
        blameless (synthesize "shelves" (.list (.scalar .integer)) (some uniqueShelves)) ∧
      synthesize "shelves" (.list (.scalar .integer)) (some uniqueShelves) =
        .error (unfit "shelves" (.scalar .integer) (.uniqueSequence [.int 1, .int 2])
          .notNumber) :=
  have h : shelves.unflavoured = uniqueShelves.unflavoured := rfl
  ⟨h, (flavour_ignored "shelves" (.set (.set (.scalar .integer))) h).1,
    by with_unfolding_all rfl, (flavour_ignored "shelves" (.list (.scalar .integer)) h).1,
    by with_unfolding_all rfl⟩

end Synthesis
end SchemaModel
