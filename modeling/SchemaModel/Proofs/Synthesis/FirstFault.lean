import SchemaModel.Proofs.Synthesis.Escapes

/-!
Where the error of a default comes from. It names a part of the literal that does not fit its own
type by itself: the first such part, to which a path of positions leads through nested sequences.
-/
namespace SchemaModel

open Fallible

/-- The error that is raised instead for another property. -/
def SynthesisError.ofProperty (q : String) : SynthesisError → SynthesisError
  | .conversion e => .conversion { e with property := q }
  | e => e

namespace Synthesis

variable {property : String} {t target : TargetType} {l : Option Literal} {given part : Literal}
  {path : List Nat} {e : ConversionError}

/-! ## The name of the property

The property is named in errors only. -/

theorem unfit_ofProperty (p q : String) (t : TargetType) (l : Literal) (cause : ConversionFault) :
    unfit q t l cause = (unfit p t l cause).ofProperty q := by
  unfold unfit
  split <;> rfl

theorem lift_ofProperty {α : Type} (p q : String) (t : TargetType) (l : Literal)
    (x : Except ConversionFault α) :
    lift q t l x = (lift p t l x).mapError (.ofProperty q) := by
  cases x with
  | error cause => exact congrArg Except.error (unfit_ofProperty p q t l cause)
  | ok => rfl

theorem liftDate_ofProperty {α : Type} (p q : String) (t : TargetType) (l : Literal)
    (x : Except DateError α) :
    liftDate q t l x = (liftDate p t l x).mapError (.ofProperty q) := by
  cases x with
  | error e =>
    cases e with
    | fault cause => exact congrArg Except.error (unfit_ofProperty p q t l (.date cause))
    | overflow | repeatedField => rfl
  | ok => rfl

theorem date_ofProperty (p q : String) (kind : DateKind) (format : Option String) (l : Literal) :
    date q kind format l = (date p kind format l).mapError (.ofProperty q) := by
  unfold date
  cases kind with
  | epochMillisAsLong =>
    rw [mapError_map, ← lift_ofProperty]
  | epochMillis =>
    show Except.bind _ (fun millis => Except.bind _ _) =
      (Except.bind _ fun millis => Except.bind _ _).mapError _
    simp only [mapError_bind, ← lift_ofProperty]
    rfl
  | formatted =>
    cases l with
    | text s =>
      show (liftDate q _ _ (Moment.ofText s format)).map _ =
        ((liftDate p _ _ (Moment.ofText s format)).map _).mapError _
      rw [mapError_map, ← liftDate_ofProperty]
    | _ => exact congrArg Except.error (unfit_ofProperty p q _ _ _)

theorem items_ofProperty (p q : String) (t : TargetType) (l : Option Literal) :
    items q t l = (items p t l).mapError (.ofProperty q) := by
  cases l with
  | none => rfl
  | some given =>
    cases given with
    | null | sequence | uniqueSequence => rfl
    | _ => exact congrArg Except.error (unfit_ofProperty p q t _ _)

theorem collection_ofProperty {p q : String} {element : TargetType} (t : TargetType)
    (ih : ∀ l, synthesize q element l = (synthesize p element l).mapError (.ofProperty q))
    (f : List Value → Value) (l : Option Literal) :
    ((items q t l).bind fun ls => (ls.mapM fun item => synthesize q element (some item)).map f) =
      ((items p t l).bind fun ls =>
        (ls.mapM fun item => synthesize p element (some item)).map f).mapError (.ofProperty q) := by
  simp only [items_ofProperty p q t l, ih, mapM_mapError, mapError_bind, mapError_map]

theorem synthesize_ofProperty (p q : String) (t : TargetType) (l : Option Literal) :
    synthesize q t l = (synthesize p t l).mapError (.ofProperty q) := by
  induction t generalizing l with
  | reference name => rfl
  | list element ih =>
    by_cases h : element.isReference = true
    · rw [synthesize, synthesize, if_pos h, if_pos h]
      rfl
    · rw [Bool.not_eq_true] at h
      rw [synthesize_list q l h, synthesize_list p l h]
      exact collection_ofProperty _ ih _ l
  | set element ih =>
    by_cases h : element.isReference = true
    · rw [synthesize, synthesize, if_pos h, if_pos h]
      rfl
    · rw [Bool.not_eq_true] at h
      rw [synthesize_set q l h, synthesize_set p l h]
      exact collection_ofProperty _ ih _ l
  | scalar kind =>
    rcases l with _ | given
    · rfl
    · cases given <;> first | rfl | exact lift_ofProperty ..
  | date kind format =>
    rcases l with _ | given
    · rfl
    · cases given <;> first | rfl | exact date_ofProperty ..
  | enum type =>
    rcases l with _ | given
    · rfl
    · cases given <;> first | rfl | exact lift_ofProperty ..

/-! ## Literals that fail by themselves -/

/-- The error of a property says of a literal that it does not fit a type. The literal fails in this
way by itself, whatever property declares it. -/
structure Reports (e : ConversionError) (property : String) (target : TargetType)
    (part : Literal) : Prop where
  property_eq : e.property = property
  target_eq : e.target = target
  literal_eq : e.literal = some part
  alone : ∀ q, synthesize q target (some part) = .error (.conversion { e with property := q })

theorem reports_of_unfit {cause : ConversionFault}
    (h : synthesize property t (some given) = .error (.conversion e))
    (he : .conversion e = unfit property t given cause) : Reports e property t given := by
  have hshort : given.hasLong = false := by
    cases hlong : given.hasLong with
    | false => rfl
    | true =>
      rw [unfit_of_hasLong property t cause hlong] at he
      cases he
  rw [unfit_of_not_hasLong property t cause hshort] at he
  cases he
  refine ⟨rfl, rfl, rfl, fun q => ?_⟩
  rw [synthesize_ofProperty property q, h]
  rfl

/-! ## Paths to the first fault -/

/-- Where a path of positions leads from a type and a literal: at each position from a collection to
its element type and from a sequence to its item. All items before those on the path are
converted. -/
inductive Leads (property : String) :
    TargetType → Literal → List Nat → TargetType → Literal → Prop
  | here {t : TargetType} {given : Literal} : Leads property t given [] t given
  | item {t element target : TargetType} {given item part : Literal}
      {before after : List Literal} {path : List Nat} (helement : t.element? = some element)
      (hitems : given.items? = some (before ++ item :: after))
      (hbefore : ∀ b ∈ before, ∃ v, synthesize property element (some b) = .ok v)
      (h : Leads property element item path target part) :
      Leads property t given (before.length :: path) target part

/-- A literal fails as the part does to which a path leads. -/
theorem Leads.error (h : Leads property t given path target part) {error : SynthesisError}
    (herror : synthesize property target (some part) = .error error) :
    synthesize property t (some given) = .error error := by
  induction h with
  | here => exact herror
  | item helement hitems hbefore _ ih =>
    exact (collection_eq_error_iff helement).mpr
      ⟨_, rfl, .inr ⟨_, _, _, hitems, hbefore, ih herror⟩⟩

/-- A path leads to the part of the literal that is to blame. -/
theorem exists_leads (t : TargetType) (l : Option Literal)
    (h : synthesize property t l = .error (.conversion e)) :
    ∃ given path target part, l = some given ∧ Leads property t given path target part ∧
      Reports e property target part := by
  induction t using TargetType.element_induction generalizing l with
  | h t ih =>
    cases helement : t.element? with
    | none =>
      obtain ⟨given, rfl, ⟨cause, he⟩ | hesc⟩ := eq_error_of_element?_eq_none helement h
      · exact ⟨given, [], t, given, rfl, .here, reports_of_unfit h he⟩
      · exact absurd rfl (hesc.ne_conversion e)
    | some element =>
      obtain ⟨given, rfl, ⟨-, -, -, he⟩ | ⟨before, item, after, hitems, hbefore, hitem⟩⟩ :=
        (collection_eq_error_iff helement).mp h
      · exact ⟨given, [], t, given, rfl, .here, reports_of_unfit h he⟩
      · -- the error of the item is passed on as it is
        obtain ⟨_, path, target, part, ⟨⟩, hleads, hreports⟩ := ih element helement _ hitem
        exact ⟨given, _, target, part, rfl, .item helement hitems hbefore hleads, hreports⟩

/-- A conversion error is raised exactly if a path leads to a part of the literal, past items that
are all converted, which fails by itself in the way that the error says. -/
theorem conversion_error_iff (property : String) (t : TargetType) (l : Option Literal)
    (e : ConversionError) : synthesize property t l = .error (.conversion e) ↔
      ∃ given path target part, l = some given ∧ Leads property t given path target part ∧
        Reports e property target part := by
  constructor
  · exact exists_leads t l
  · rintro ⟨given, path, target, part, rfl, hleads, hreports⟩
    obtain rfl := hreports.property_eq
    exact hleads.error (hreports.alone e.property)

/-- The second set of the list is the first with an item that is no integer. -/
example : synthesize "p" (.list (.set (.scalar .integer)))
      (some (.sequence [.sequence [.int 1], .uniqueSequence [.int 2, .text "x", .null],
        .text "y"])) =
    .error (.conversion ⟨"p", .scalar .integer, some (.text "x"),
      "invalid literal for int() with base 10: 'x'"⟩) := by
  with_unfolding_all rfl

end Synthesis
end SchemaModel
