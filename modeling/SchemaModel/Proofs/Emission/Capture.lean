import SchemaModel.Proofs.Emission.Classes
import SchemaModel.Proofs.Emission.Forms
import SchemaModel.Proofs.Generation.Namespace
import SchemaModel.Proofs.Naming.Shapes
import SchemaModel.Proofs.Synthesis.Fits

/-!
Names that defaults use. The default of a field is evaluated in the body of its class, where a field
further up hides whatever else has its name. The names that defaults take from the head of the module
are never hidden. The built-in that reads numbers which are not finite can be, by a field of its
name, and so can an enumerated type whose name begins with a digit behind an underscore
(`captured_iff`).
-/
namespace SchemaModel

namespace Emission

open Fallible

/-! ## Fields and their defaults -/

/-- What the declaration of a field says before its default. -/
def declaration (p : Property) : String :=
  match p.type with
  | .list _ | .set _ => p.field ++ ": " ++ annotation p.type ++ " = "
  | _ => p.field ++ ": Optional[" ++ annotation p.type ++ "] = "

/-- The default of a field, as the body of the class evaluates it. A collection is not built there,
but for every instance. -/
def defaultExpression (t : TargetType) (v : Value) : Except ExpressionError String :=
  match t with
  | .list _ => collection "lambda: []"
  | .set _ => collection "_OrderedSet"
  | _ => expression t v
where
  collection (fresh : String) : Except ExpressionError String := do
    let factory ← if v.isGiven then do pure ("lambda: " ++ (← expression t v)) else pure fresh
    return "_field(default_factory=" ++ factory ++ ")"

theorem collectionField_eq (fresh : String) (p : Property) :
    collectionField fresh p = (defaultExpression.collection p.type p.default fresh).map
      (p.field ++ ": " ++ annotation p.type ++ " = " ++ ·) := by
  have hsplit : " = _field(default_factory=" = " = " ++ "_field(default_factory=" := rfl
  have hline : ∀ factory : String,
      p.field ++ ": " ++ annotation p.type ++ " = _field(default_factory=" ++ factory ++ ")" =
        p.field ++ ": " ++ annotation p.type ++ " = " ++
          ("_field(default_factory=" ++ factory ++ ")") := by
    intro factory
    rw [hsplit]
    simp only [String.append_assoc]
  unfold collectionField defaultExpression.collection
  split
  · cases expression p.type p.default with
    | error e => rfl
    | ok value => exact congrArg _ (hline _)
  · exact congrArg _ (hline _)

theorem fieldLine_eq (p : Property) :
    fieldLine p = (defaultExpression p.type p.default).map (declaration p ++ ·) := by
  have hexpression : ∀ lead : String,
      (do let value ← expression p.type p.default; return lead ++ value) =
        (expression p.type p.default).map (lead ++ ·) := by
    intro lead
    cases expression p.type p.default <;> rfl
  unfold fieldLine declaration defaultExpression
  cases ht : p.type with
  | list element => simpa only [ht] using collectionField_eq "lambda: []" p
  | set element => simpa only [ht] using collectionField_eq "_OrderedSet" p
  | _ => simpa only [ht] using hexpression (p.field ++ ": Optional[" ++ annotation p.type ++ "] = ")

/-- A module whose text has the line. -/
def HasLine (text line : String) : Prop :=
  ∃ above below, text = "\n".intercalate (above ++ line :: below)

theorem mem_typeLines {t : GeneratedType} {lines : List String} (h : typeLines t = .ok lines)
    {p : Property} (hp : p ∈ t.properties) :
    ∃ line, fieldLine p = .ok line ∧ indent ++ line ∈ lines := by
  unfold typeLines at h
  obtain ⟨documentation, -, h⟩ := bind_eq_ok.mp h
  obtain ⟨fields, hfields, h⟩ := bind_eq_ok.mp h
  cases h
  obtain ⟨line, hm, hline⟩ := exists_of_forall₂ (forall₂_of_mapM hfields) hp
  have hfield : indent ++ line ∈ fields.map (indent ++ ·) := List.mem_map.mpr ⟨line, hm, rfl⟩
  refine ⟨line, hline, List.mem_cons_of_mem _ (List.mem_cons_of_mem _ ?_)⟩
  rw [if_neg]
  · exact List.mem_append_right _ hfield
  · intro hempty
    rw [List.isEmpty_iff, List.append_eq_nil_iff] at hempty
    rw [hempty.2] at hfield
    cases hfield

/-- Every property of a type is declared in the module. -/
theorem hasLine_moduleText {g : Generation} {text : String} (h : moduleText g = .ok text)
    {t : GeneratedType} (ht : t ∈ g.types) {p : Property} (hp : p ∈ t.properties) :
    ∃ default, defaultExpression p.type p.default = .ok default ∧
      HasLine text (indent ++ (declaration p ++ default)) := by
  unfold moduleText at h
  obtain ⟨_, -, h⟩ := bind_eq_ok.mp h
  obtain ⟨classes, hclasses, h⟩ := bind_eq_ok.mp h
  cases h
  obtain ⟨lines, hm, hlines⟩ := exists_of_forall₂ (forall₂_of_mapM (mapError_eq_ok.mp hclasses)) ht
  obtain ⟨line, hline, hmem⟩ := mem_typeLines hlines hp
  rw [fieldLine_eq] at hline
  obtain ⟨default, hdefault, rfl⟩ := map_eq_ok.mp hline
  have hclass : ("" :: "" :: lines) ∈ (g.enums.map enumLines ++ classes).map ("" :: "" :: ·) :=
    List.mem_map_of_mem (List.mem_append_right _ hm)
  have hmodule := List.mem_flatten_of_mem hclass
    (List.mem_cons_of_mem _ (List.mem_cons_of_mem _ hmem))
  obtain ⟨above, below, hlines⟩ :=
    List.append_of_mem (List.mem_append_left [""] (List.mem_append_right head hmodule))
  exact ⟨default, hdefault, above, below, by rw [hlines]⟩

/-! ## Leading names -/

/-- The name that an expression begins with. -/
def leadingName (e : String) : String := String.ofList (e.toList.takeWhile Reader.isNameChar)

theorem leadingName_eq {e name : String} {c : Char} (rest : List Char)
    (he : e.toList = name.toList ++ c :: rest) (hname : name.toList.all Reader.isNameChar = true)
    (hc : Reader.isNameChar c = false) : leadingName e = name := by
  have hend : ∀ d ∈ (c :: rest).head?, Reader.isNameChar d = false := by
    rintro d ⟨⟩
    exact hc
  rw [leadingName, he, (takeWhile_run (List.all_eq_true.mp hname) hend).1,
    String.ofList_toList]

/-- What begins with neither a small letter nor an underscore begins with no field's name. -/
theorem isFieldName_leadingName {e : String} {c : Char} (h : c ∈ e.toList.head?)
    (hc : c ≠ '_') (hl : c.isLower = false) : Naming.isFieldName (leadingName e) = false := by
  obtain ⟨cs, hcs⟩ := List.head?_eq_some_iff.mp h
  rw [leadingName, hcs, Naming.isFieldName, String.toList_ofList, List.takeWhile_cons]
  split
  · rw [Naming.beginsWith, hl, Bool.and_false]
    exact fun _ _ he => absurd he hc
  · rfl

theorem leadingName_ne {e name : String} (he : Naming.isFieldName (leadingName e) = false)
    (hn : Naming.isFieldName name = true) : leadingName e ≠ name := by
  rintro rfl
  rw [hn] at he
  cases he

theorem isFieldName_leadingName_number {e : String}
    (h : ∃ c ∈ e.toList.head?, c.isDigit = true ∨ c = '-') :
    Naming.isFieldName (leadingName e) = false := by
  obtain ⟨c, hc, hnumber⟩ := h
  have hsmall : c ≠ '_' ∧ c.isLower = false := by
    obtain hdigit | rfl := hnumber
    · have hword : Naming.isWordChar c = true := by simp [Naming.isWordChar, Char.isAlphanum, hdigit]
      exact Naming.of_ascii (P := fun c => c.isDigit = true → c ≠ '_' ∧ c.isLower = false)
        (by decide) hword hdigit
    · decide
  exact isFieldName_leadingName hc hsmall.1 hsmall.2

/-! ## Leading names of defaults -/

theorem leadingName_collection {t : TargetType} {v : Value} {fresh default : String}
    (h : defaultExpression.collection t v fresh = .ok default) : leadingName default = "_field" := by
  have hfactory : ∀ factory, leadingName ("_field(default_factory=" ++ factory ++ ")") = "_field" := by
    intro factory
    refine leadingName_eq (c := '(') ("default_factory=".toList ++ factory.toList ++ [')']) ?_ rfl
      rfl
    simp
  unfold defaultExpression.collection at h
  split at h
  · obtain ⟨value, -, h⟩ := bind_eq_ok.mp h
    cases h
    exact hfactory _
  · cases h
    exact hfactory _

theorem isFieldName_leadingName_null {t : TargetType} {default : String}
    (h : defaultExpression t .null = .ok default) :
    Naming.isFieldName (leadingName default) = false := by
  unfold defaultExpression at h
  split at h
  · rw [leadingName_collection h]
    decide
  · rw [leadingName_collection h]
    decide
  · cases h
    decide

theorem isFieldName_leadingName_quoted (s : String) :
    Naming.isFieldName (leadingName (Text.quoted s)) = false := by
  have hhead : Text.quoteMark s.toList ∈ (Text.quoted s).toList.head? := by
    simp [Text.quoted, Text.quotedChars]
  obtain hmark | hmark := Reader.quoteMark_eq s.toList
  · exact isFieldName_leadingName hhead (by rw [hmark]; decide) (by rw [hmark]; decide)
  · exact isFieldName_leadingName hhead (by rw [hmark]; decide) (by rw [hmark]; decide)

theorem leadingName_momentExpression (m : Moment) : leadingName (momentExpression m) = "_dt" :=
  leadingName_eq (c := '.') _ (Reader.toList_momentExpression m) rfl rfl

theorem leadingName_moment {k : DateKind} {f : Option String} {m : Moment} {default : String}
    (h : defaultExpression (.date k f) (.moment m) = .ok default) : leadingName default = "_dt" := by
  simp only [defaultExpression, expression] at h
  split at h
  · cases h
    exact leadingName_momentExpression _
  · split at h
    · cases h
      exact leadingName_momentExpression _
    · cases h

theorem leadingName_doubleExpression {x : Double} (h : x.isFinite = false) :
    leadingName (doubleExpression x) = "float" := by
  rw [doubleExpression, h]
  refine leadingName_eq (c := '(') ('\'' :: (x.text ++ "')").toList) ?_ rfl rfl
  simp

theorem leadingName_member {type : EnumType} (h : Naming.isClassName type.name = true)
    (m : Member) : leadingName (type.name ++ "." ++ m.name) = type.name := by
  rw [Naming.isClassName, Bool.and_eq_true] at h
  refine leadingName_eq (c := '.') m.name.toList (by simp) ?_ rfl
  refine List.all_eq_true.mpr fun c hc => ?_
  rw [Reader.isNameChar, Bool.or_comm]
  exact List.all_eq_true.mp h.1 c hc

/-- The default is written with a name that a field can have as well: that of the built-in for
numbers that are not finite, or that of an enumerated type. -/
inductive Exposes : TargetType → Value → String → Prop
  | builtIn {t x} (h : x.isFinite = false) : Exposes t (.double x) "float"
  | enumerated {type m} : Exposes (.enum type) (.member m) type.name

theorem leadingName_double_iff {t : TargetType} (x : Double) {name : String}
    (hn : Naming.isFieldName name = true) :
    leadingName (doubleExpression x) = name ↔ Exposes t (.double x) name := by
  cases hx : x.isFinite with
  | true =>
    have hnumber := isFieldName_leadingName_number (Reader.isFloating_text hx).head
    refine iff_of_false (leadingName_ne ?_ hn) ?_
    · rwa [doubleExpression, if_pos hx]
    · rintro ⟨hinf⟩
      rw [hx] at hinf
      cases hinf
  | false =>
    rw [leadingName_doubleExpression hx]
    constructor
    · rintro rfl
      exact .builtIn hx
    · rintro ⟨⟩
      rfl

/-- A field's name begins a default only where the default is written with it. -/
theorem leadingName_eq_iff {t : TargetType} {v : Value} {default name : String} (h : Fits t v)
    (he : defaultExpression t v = .ok default)
    (henum : ∀ type, t = .enum type → Naming.isClassName type.name = true)
    (hn : Naming.isFieldName name = true) : leadingName default = name ↔ Exposes t v name := by
  cases h with
  | null => exact iff_of_false (leadingName_ne (isFieldName_leadingName_null he) hn) nofun
  | text =>
    cases he
    exact iff_of_false (leadingName_ne (isFieldName_leadingName_quoted _) hn) nofun
  | integer hi | long hi | millis hi =>
    simp only [defaultExpression, expression_int _ hi] at he
    cases he
    exact iff_of_false (leadingName_ne (isFieldName_leadingName_number (Reader.head_int _)) hn) nofun
  | @boolean b =>
    cases he
    have hbool : Naming.isFieldName (leadingName (Value.boolSource b)) = false := by
      cases b <;> decide
    exact iff_of_false (leadingName_ne hbool hn) nofun
  | double =>
    cases he
    exact leadingName_double_iff _ hn
  | moment =>
    rw [leadingName_moment he]
    refine iff_of_false ?_ nofun
    rintro rfl
    revert hn
    decide
  | member =>
    cases he
    rw [leadingName_member (henum _ rfl)]
    constructor
    · rintro rfl
      exact .enumerated
    · rintro ⟨⟩
      rfl
  | list | set =>
    rw [leadingName_collection he]
    refine iff_of_false ?_ nofun
    rintro rfl
    revert hn
    decide

end Emission

/-! ## Names of a generation -/

namespace Schema

variable {s : Schema} {settings : Settings} {ref enm : NodeId → String}

/-- The enumerated type of a property is that of a node with choices which is met. -/
theorem Describes.exists_choicesMet {o : NodeId} {entry : String × Option NodeId} {p : Property}
    (h : s.Describes settings ref enm entry p) (ho : s.ObjectMet o) (he : entry ∈ s.propertiesOf o)
    {type : EnumType} (ht : p.type = .enum type) : ∃ id, s.ChoicesMet id ∧ type.name = enm id := by
  obtain ⟨name, place⟩ := entry
  have htype := h.type
  rw [ht] at htype
  cases htype with
  | @choices id n l ls _ hn hc htype =>
    exact ⟨id, ⟨ho.property he, n, hn, l, ls, hc⟩, Enumeration.name_of_type htype⟩

end Schema

namespace Generation

variable {g : Generation} {s : Schema} {settings : Settings} {ref enm : NodeId → String}

/-- Every property of a generated type describes one that an object declares. -/
theorem Represents.exists_describes (h : g.Represents s settings ref enm) {t : GeneratedType}
    (ht : t ∈ g.types) {p : Property} (hp : p ∈ t.properties) :
    ∃ o entry, s.ObjectMet o ∧ entry ∈ s.propertiesOf o ∧ s.Describes settings ref enm entry p := by
  obtain ⟨o, ho, hall⟩ := h.exists_object ht
  obtain ⟨entry, he, hdescribes⟩ := exists_of_forall₂ hall.flip hp
  exact ⟨o, entry, ho, he, hdescribes⟩

theorem Represents.isFieldName_field (h : g.Represents s settings ref enm) {t : GeneratedType}
    (ht : t ∈ g.types) {p : Property} (hp : p ∈ t.properties) :
    Naming.isFieldName p.field = true := by
  obtain ⟨-, entry, -, -, hdescribes⟩ := h.exists_describes ht hp
  rw [hdescribes.field]
  exact Naming.isFieldName_fieldName _

theorem Represents.fits_default (h : g.Represents s settings ref enm) {t : GeneratedType}
    (ht : t ∈ g.types) {p : Property} (hp : p ∈ t.properties) : Fits p.type p.default := by
  obtain ⟨-, entry, -, -, hdescribes⟩ := h.exists_describes ht hp
  exact Fits.of_synthesize _ _ _ _ hdescribes.default

end Generation

theorem Building.Inv.isClassName_enmOf {b : Building} {s : Schema} {settings : Settings}
    {root : String} (h : b.Inv s settings []) (hroot : (s.root, root) ∈ b.references) {id : NodeId}
    (hm : s.ChoicesMet id) : Naming.isClassName (b.enmOf id) = true := by
  obtain ⟨hint, hhint⟩ := h.exists_hint hroot
  obtain ⟨-, k, hk, -⟩ := hhint id hm
  rw [hk]
  exact Naming.isClassName_candidate (Naming.isClassName_className _ (by decide)) k

/-- The enumerated types of properties have names of classes. -/
theorem Generation.isClassName_of_enum {s : Schema} {settings : Settings} {name : String}
    {g : Generation} (h : ofSchema s settings name = .ok g) {t : GeneratedType} (ht : t ∈ g.types)
    {p : Property} (hp : p ∈ t.properties) {type : EnumType} (htype : p.type = .enum type) :
    Naming.isClassName type.name = true := by
  obtain ⟨b, hinv, hroot, rfl⟩ := ofSchema_ok h
  obtain ⟨o, entry, ho, he, hdescribes⟩ := (hinv.represents hroot).exists_describes ht hp
  obtain ⟨id, hid, hname⟩ := hdescribes.exists_choicesMet ho he htype
  rw [hname]
  exact hinv.isClassName_enmOf hroot hid

namespace Emission

open Generation

variable {s : Schema} {settings : Settings} {name text : String} {g : Generation}
  {t : GeneratedType} {above below : List Property} {p : Property}

/-- A default begins with the name of a field above it exactly if it is written with that name, as a
number that is not finite is with `float` and a member of an enumerated type with the name of that
type, which then begins with a digit behind an underscore. The names that the head of the module
binds for itself are never those of fields. -/
theorem captured_iff (hg : ofSchema s settings name = .ok g) (hm : moduleText g = .ok text)
    (ht : t ∈ g.types) (hp : t.properties = above ++ p :: below) :
    ∃ default, defaultExpression p.type p.default = .ok default ∧
      HasLine text (indent ++ (declaration p ++ default)) ∧
      (leadingName default ∈ above.map (·.field) ↔
        ∃ q ∈ above, Exposes p.type p.default q.field) ∧
      (∀ q ∈ above, q.field ∉ ["_dt", "_field", "_OrderedSet"]) ∧
      ∀ q ∈ above, ∀ type, p.type = .enum type → type.name = q.field →
        ∃ d rest, q.field.toList = '_' :: d :: rest ∧ d.isDigit = true := by
  obtain ⟨b, hinv, hroot, hb⟩ := ofSchema_ok hg
  have hrep := hb ▸ hinv.represents hroot
  have hmem : p ∈ t.properties := by simp [hp]
  have hfield : ∀ q ∈ above, Naming.isFieldName q.field = true := fun q hq =>
    hrep.isFieldName_field ht (by simp [hp, hq])
  have henum : ∀ type, p.type = .enum type → Naming.isClassName type.name = true := fun _ htype =>
    isClassName_of_enum hg ht hmem htype
  obtain ⟨default, hdefault, hline⟩ := hasLine_moduleText hm ht hmem
  refine ⟨default, hdefault, hline, ?_, fun q hq hin => ?_, fun q hq type htype hname => ?_⟩
  · rw [List.mem_map]
    refine exists_congr fun q => and_congr_right fun hq => ?_
    rw [eq_comm]
    exact leadingName_eq_iff (hrep.fits_default ht hmem) hdefault henum (hfield q hq)
  · have hnone : ∀ n ∈ ["_dt", "_field", "_OrderedSet"], Naming.isFieldName n = false := by decide
    have := (hfield q hq).symm.trans (hnone q.field hin)
    cases this
  · exact Naming.exists_digit_of_both (hfield q hq) (hname ▸ henum type htype)

/-- The fields of every type, each with the name that its default begins with. -/
def leadingNames (g : Generation) : List (List (String × Option String)) :=
  g.types.map fun t => t.properties.map fun p =>
    (p.field, (defaultExpression p.type p.default).toOption.map leadingName)

/-- A field with the name of the built-in stands above an infinite default, and one with the name of
an enumerated type above another default of that type. -/
def unbounded : Schema :=
  { nodes := #[
      { kind := .text "object"
        properties :=
          some [("float", some 1), ("limit", some 2), ("1st", some 3), ("again", some 3)] },
      { kind := .text "string" },
      { kind := .text "number", default := some (.text "inf") },
      { enum := some [.text "a"], default := some (.text "a") }]
    root := 0 }

/-- The module for `unbounded`, found by running the generation. -/
theorem exists_unbounded : ∃ g text t float limit first again,
    ofSchema unbounded {} "root" = .ok g ∧ moduleText g = .ok text ∧ t ∈ g.types ∧
      t.properties = [float, limit, first, again] ∧
      [float, limit, first].map (·.field) = ["float", "limit", "_1st"] ∧
      (defaultExpression limit.type limit.default).toOption.map leadingName = some "float" ∧
      (defaultExpression again.type again.default).toOption.map leadingName = some "_1st" := by
  have hrun : ((ofSchema unbounded {} "root").toOption.bind fun g =>
      (moduleText g).toOption.map fun _ => leadingNames g) =
    some [[("float", some "None"), ("limit", some "float"), ("_1st", some "_1st"),
      ("again", some "_1st")]] := by
    decide +kernel
  obtain ⟨g, hg, hrun⟩ := Option.bind_eq_some_iff.mp hrun
  obtain ⟨text, hm, hrun⟩ := Option.map_eq_some_iff.mp hrun
  obtain ⟨t, htypes, hfields⟩ := List.map_eq_singleton_iff.mp hrun
  obtain ⟨float, ps, hps, hfloat, hfields⟩ := List.map_eq_cons_iff.mp hfields
  obtain ⟨limit, ps, rfl, hlimit, hfields⟩ := List.map_eq_cons_iff.mp hfields
  obtain ⟨first, ps, rfl, hfirst, hfields⟩ := List.map_eq_cons_iff.mp hfields
  obtain ⟨again, rfl, hagain⟩ := List.map_eq_singleton_iff.mp hfields
  rw [Prod.mk.injEq] at hfloat hlimit hfirst hagain
  exact ⟨g, text, t, float, limit, first, again, Fallible.toOption_eq_some.mp hg,
    Fallible.toOption_eq_some.mp hm, by simp [htypes], hps,
    by simp [hfloat.1, hlimit.1, hfirst.1], hlimit.2, hagain.2⟩

theorem captured_iff_unbounded : ∃ g text t above again,
    ofSchema unbounded {} "root" = .ok g ∧ moduleText g = .ok text ∧ t ∈ g.types ∧
      t.properties = above ++ again :: [] ∧ above.map (·.field) = ["float", "limit", "_1st"] ∧
      (defaultExpression again.type again.default).toOption.map leadingName = some "_1st" ∧
      ∃ default, defaultExpression again.type again.default = .ok default ∧
        HasLine text (indent ++ (declaration again ++ default)) ∧
        (leadingName default ∈ above.map (·.field) ↔
          ∃ q ∈ above, Exposes again.type again.default q.field) ∧
        (∀ q ∈ above, q.field ∉ ["_dt", "_field", "_OrderedSet"]) ∧
        ∀ q ∈ above, ∀ type, again.type = .enum type → type.name = q.field →
          ∃ d rest, q.field.toList = '_' :: d :: rest ∧ d.isDigit = true := by
  obtain ⟨g, text, t, float, limit, first, again, hg, hm, ht, hp, hfields, -, hagain⟩ :=
    exists_unbounded
  exact ⟨g, text, t, [float, limit, first], again, hg, hm, ht, hp, hfields, hagain,
    captured_iff hg hm ht hp⟩

/-- Defaults do begin with names of fields above them. -/
theorem not_uncaptured : ¬ ∀ (s : Schema) (settings : Settings) (name : String) (g : Generation)
    (text : String) (t : GeneratedType) (above below : List Property) (p : Property)
    (default : String), ofSchema s settings name = .ok g → moduleText g = .ok text → t ∈ g.types →
      t.properties = above ++ p :: below → defaultExpression p.type p.default = .ok default →
      ∀ q ∈ above, leadingName default ≠ q.field := by
  intro hall
  obtain ⟨g, text, t, float, limit, first, again, hg, hm, ht, hp, hfields, hlimit, -⟩ :=
    exists_unbounded
  obtain ⟨default, hdefault, hname⟩ := Option.map_eq_some_iff.mp hlimit
  refine hall unbounded {} "root" g text t [float] [first, again] limit default hg hm ht hp
    (Fallible.toOption_eq_some.mp hdefault) float (by simp) ?_
  rw [hname]
  exact (List.cons.inj hfields).1.symm

end Emission
end SchemaModel
