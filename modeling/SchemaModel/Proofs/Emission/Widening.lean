import SchemaModel.Proofs.Emission.Capture
import SchemaModel.Proofs.Generation.Widening

/-!
Wider integers do not show. The annotation of an integer does not tell its width, and neither does
the expression of a default, so that the module for a generation with wider integers is the same
text (`Emission.wide_of_narrow`).
-/
namespace SchemaModel

namespace Emission

theorem annotation_widen (t : TargetType) : annotation t.widen = annotation t := by
  induction t with
  | scalar kind => cases kind <;> rfl
  | list element ih => rw [TargetType.widen, annotation, annotation, ih]
  | set element ih => rw [TargetType.widen, annotation, annotation, ih]
  | date | enum | reference => rfl

/-! ## Expressions -/

theorem expressions_congr {t u : TargetType} {xs : List Value}
    (h : ∀ x ∈ xs, expression u x = expression t x) : expressions u xs = expressions t xs := by
  induction xs with
  | nil => rfl
  | cons x xs ih =>
    rw [List.forall_mem_cons] at h
    rw [expressions, expressions, h.1, ih h.2]

/-- A value that belongs to a type has the same expression under the type with wider integers. -/
theorem expression_widen {t : TargetType} {v : Value} (h : Fits t v) :
    expression t.widen v = expression t v := by
  induction h with
  | null | text | integer | long | double | boolean | millis | moment | member => rfl
  | list _ ih => rw [TargetType.widen, expression, expression, expressions_congr ih]
  | set _ _ ih => rw [TargetType.widen, expression, expression, expressions_congr ih]

/-! ## Classes -/

theorem collectionField_widen (fresh : String) {p : Property} (h : Fits p.type p.default) :
    collectionField fresh p.widen = collectionField fresh p := by
  simp only [collectionField, Property.widen, annotation_widen, expression_widen h]

theorem fieldLine_widen {p : Property} (h : Fits p.type p.default) :
    fieldLine p.widen = fieldLine p := by
  have hplain : (do
      let value ← expression p.type.widen p.default
      return p.field ++ ": Optional[" ++ annotation p.type.widen ++ "] = " ++ value) = (do
      let value ← expression p.type p.default
      return p.field ++ ": Optional[" ++ annotation p.type ++ "] = " ++ value) := by
    rw [annotation_widen, expression_widen h]
  have hwiden : p.widen.type = p.type.widen := rfl
  unfold fieldLine
  rw [hwiden]
  cases ht : p.type with
  | list element => exact collectionField_widen "lambda: []" h
  | set element => exact collectionField_widen "_OrderedSet" h
  | scalar kind =>
    rw [ht] at hplain
    cases kind <;> exact hplain
  | date | enum | reference =>
    rw [ht] at hplain
    exact hplain

theorem typeLines_widen {t : GeneratedType} (h : ∀ p ∈ t.properties, Fits p.type p.default) :
    typeLines t.widen = typeLines t := by
  have hfields : (t.properties.map Property.widen).mapM fieldLine = t.properties.mapM fieldLine :=
    Fallible.mapM_map_of_eq fun p hp => fieldLine_widen (h p hp)
  have hdocumentation : documentationLines t.widen = documentationLines t := by
    simp only [documentationLines, GeneratedType.widen, List.isEmpty_map]
  rw [typeLines, typeLines, hdocumentation]
  simp only [GeneratedType.widen, hfields]

/-! ## Modules -/

theorem moduleText_widen {g : Generation}
    (h : ∀ t ∈ g.types, ∀ p ∈ t.properties, Fits p.type p.default) :
    moduleText g.widen = moduleText g := by
  have hnames : g.widen.types.map (·.name) = g.types.map (·.name) := by
    simp [Generation.widen, GeneratedType.widen]
  have hclasses : g.widen.types.mapM typeLines = g.types.mapM typeLines :=
    Fallible.mapM_map_of_eq fun t ht => typeLines_widen (h t ht)
  have henums : g.widen.enums = g.enums := rfl
  rw [moduleText, moduleText, hnames, hclasses, henums]

end Emission

open Generation

variable {s : Schema} {settings : Settings} {name : String} {g : Generation}

/-- The defaults of a generation belong to the types of their properties. -/
theorem Generation.fits_default (h : ofSchema s settings name = .ok g) :
    ∀ t ∈ g.types, ∀ p ∈ t.properties, Fits p.type p.default := by
  obtain ⟨b, hinv, hroot, rfl⟩ := ofSchema_ok h
  exact fun t ht p hp => (hinv.represents hroot).fits_default ht hp

/-- Where a generation succeeds with integers of 32 bits, it succeeds with integers of 64 bits and
gives the same but for the types of integers, and the module is the same text. -/
theorem Emission.wide_of_narrow (h : ofSchema s settings.narrow name = .ok g) :
    ofSchema s settings.wide name = .ok g.widen ∧ moduleText g.widen = moduleText g :=
  ⟨ofSchema_widen h, moduleText_widen (fits_default h)⟩

/-- A shelf with its places, which are lists of amounts, and with another shelf above it. -/
def shelf : Schema :=
  { nodes := #[
      { kind := .text "object"
        properties := some [("places", some 1), ("height", some 3), ("above", some 0)] },
      { kind := .text "array", unique := true, items := some 2
        default := some (.uniqueSequence
          [.sequence [.int 1, .text "2"], .null, .sequence [.text "1", .int 2]]) },
      { kind := .text "array", items := some 3 },
      { kind := .text "integer", default := some (.int 2147483647) }]
    root := 0 }

/-- Of the lists that are declared as places, two are the same with either width. -/
theorem Emission.wide_of_narrow_shelf : ∃ g, ofSchema shelf (Settings.narrow {}) "shelf" = .ok g ∧
    g.types.map (fun t => t.properties.map (·.type)) =
      [[.set (.list (.scalar .integer)), .scalar .integer, .reference "Shelf"]] ∧
    ofSchema shelf (Settings.wide {}) "shelf" = .ok g.widen ∧
    moduleText g.widen = moduleText g := by
  have hrun : ((ofSchema shelf (Settings.narrow {}) "shelf").toOption.map fun g =>
      g.types.map fun t => t.properties.map (·.type)) =
      some [[.set (.list (.scalar .integer)), .scalar .integer, .reference "Shelf"]] := by
    decide +kernel
  obtain ⟨g, hg, htypes⟩ := Option.map_eq_some_iff.mp hrun
  rw [Fallible.toOption_eq_some] at hg
  exact ⟨g, hg, htypes, Emission.wide_of_narrow hg⟩

end SchemaModel
