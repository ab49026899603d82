import SchemaModel.Proofs.Naming.Members
import SchemaModel.Proofs.Synthesis.Escapes
import SchemaModel.Proofs.Tables

/-!
Defaults of enumerated types. A literal selects a member by its text, and members and declared texts
correspond one to one, so that every declared choice selects a member, and a literal whose text is
not declared selects none. No text belongs to an integer with too many digits, nor any error that
shows it.
-/
namespace SchemaModel

/-- Whether a literal is made of others. -/
def Literal.isComposite : Literal → Bool
  | .sequence _ | .uniqueSequence _ | .object _ => true
  | _ => false

theorem Literal.text?_eq_none_iff {l : Literal} :
    l.text? = none ↔ l = .null ∨ l.isComposite = true ∨ l.isLong = true := by
  cases l <;> simp [text?, isComposite, isLong]

theorem Literal.isLong_of_not_hasLong {l : Literal} (h : l.hasLong = false) : l.isLong = false := by
  cases l with
  | int i => rwa [hasLong_int] at h
  | _ => rfl

namespace EnumType

variable {t : EnumType} {text : String} {m : Member}

theorem member?_of_mem (h : Enumeration.Named t.members) (hm : m ∈ t.members) :
    t.member? m.literal = some m := by
  have hnodup : (t.members.reverse.map (·.literal)).Nodup := by
    rw [List.map_reverse]
    exact List.nodup_reverse.mpr h.nodup_literals
  exact Tables.find?_of_mem hnodup (List.mem_reverse.mpr hm)

theorem member?_eq_none_iff : t.member? text = none ↔ text ∉ t.literals := by
  simp [member?, literals]

/-- A literal that is given is looked up by its text. -/
theorem synthesize_enum_eq_ok {property : String} {given : Literal} (hgiven : given ≠ .null) :
    synthesize property (.enum t) (some given) = .ok (.member m) ↔
      given.text?.bind t.member? = some m := by
  rw [Synthesis.synthesize_enum hgiven, Synthesis.lift, Fallible.mapError_eq_ok, Literal.toMember]
  cases given.text?.bind t.member? <;> simp

/-- A member is the default of literals that have its text. -/
theorem exists_text_of_member {property : String} {given : Literal}
    (h : synthesize property (.enum t) (some given) = .ok (.member m)) :
    ∃ text, given.text? = some text ∧ m ∈ t.members ∧ m.literal = text := by
  have hgiven : given ≠ .null := by
    rintro rfl
    cases h
  obtain ⟨text, htext, hfind⟩ := Option.bind_eq_some_iff.mp ((synthesize_enum_eq_ok hgiven).mp h)
  exact ⟨text, htext, List.mem_reverse.mp (List.mem_of_find?_eq_some hfind),
    by simpa using List.find?_some hfind⟩

/-! ## Types of declared choices -/

variable {property : String} {choices : List Literal}

/-- A literal selects the member of its text, which has the rank of the text among the declared
ones. -/
structure Selected (t : EnumType) (property : String) (choices : List Literal) (given : Literal)
    (text : String) (m : Member) : Prop where
  mem : m ∈ t.members
  literal_eq : m.literal = text
  only : ∀ m' ∈ t.members, m'.literal = text → m' = m
  ordinal : m.ordinal = (Enumeration.texts choices).eraseDups.idxOf text
  default : synthesize property (.enum t) (some given) = .ok (.member m)

theorem mem_literals_iff (h : Enumeration.Enumerates (Enumeration.texts choices) t.members) :
    text ∈ t.literals ↔ text ∈ Enumeration.texts choices := by
  rw [literals, h.literals, List.mem_eraseDups]

theorem exists_selected (property : String)
    (h : Enumeration.Enumerates (Enumeration.texts choices) t.members) {given : Literal}
    (htext : given.text? = some text) (hmem : text ∈ Enumeration.texts choices) :
    ∃ m, t.Selected property choices given text m := by
  obtain ⟨m, hm, rfl⟩ := List.mem_map.mp ((mem_literals_iff h).mpr hmem)
  have hgiven : given ≠ .null := by
    rintro rfl
    cases htext
  refine ⟨m, hm, rfl, fun m' hm' hl => ?_, h.ordinal_eq hm, ?_⟩
  · exact List.inj_on_of_nodup_map h.nodup_literals hm' hm hl
  · rw [synthesize_enum_eq_ok hgiven, htext, Option.bind_some, member?_of_mem h.toNamed hm]

/-- A literal that selects no member is composite, or its text is not declared. -/
theorem refused_iff (h : Enumeration.Enumerates (Enumeration.texts choices) t.members)
    (d : Option Literal) : (∃ e, synthesize property (.enum t) d = .error (.conversion e)) ↔
      ∃ given, d = some given ∧ given.hasLong = false ∧ (given.isComposite = true ∨
        ∃ text, given.text? = some text ∧ text ∉ Enumeration.texts choices) := by
  constructor
  · rintro ⟨e, he⟩
    obtain ⟨given, rfl, hgiven⟩ := Synthesis.declared_of_error rfl rfl he
    have hshort : given.hasLong = false := by
      cases hlong : given.hasLong with
      | false => rfl
      | true =>
        rw [Synthesis.synthesize_of_hasLong property rfl rfl hlong] at he
        cases he
    refine ⟨given, rfl, hshort, ?_⟩
    cases htext : given.text? with
    | none =>
      obtain hnull | hcomposite | hlong := Literal.text?_eq_none_iff.mp htext
      · exact absurd hnull hgiven
      · exact .inl hcomposite
      · rw [Literal.isLong_of_not_hasLong hshort] at hlong
        cases hlong
    | some text =>
      refine .inr ⟨text, rfl, fun hmem => ?_⟩
      obtain ⟨m, hm⟩ := exists_selected property h htext hmem
      rw [hm.default] at he
      cases he
  · rintro ⟨given, rfl, hshort, hbad⟩
    have hgiven : given ≠ .null := by
      rintro rfl
      rcases hbad with ⟨⟨⟩⟩ | ⟨text, ⟨⟩, -⟩
    have hnone : given.text?.bind t.member? = none := by
      rcases hbad with hcomposite | ⟨text, htext, hmem⟩
      · rw [Literal.text?_eq_none_iff.mpr (.inr (.inl hcomposite))]
        rfl
      · rw [htext, Option.bind_some, member?_eq_none_iff, mem_literals_iff h]
        exact hmem
    rw [Synthesis.synthesize_enum hgiven, Literal.toMember, hnone]
    exact ⟨_, congrArg Except.error (Synthesis.unfit_of_not_hasLong property _ _ hshort)⟩

/-- How an enumerated type with the given choices makes the defaults of a property. -/
structure Selects (t : EnumType) (property : String) (choices : List Literal) : Prop where
  absent : ∀ d, Literal.isAbsent d = true → synthesize property (.enum t) d = .ok .null
  refused : ∀ d, (∃ e, synthesize property (.enum t) d = .error (.conversion e)) ↔
    ∃ given, d = some given ∧ given.hasLong = false ∧ (given.isComposite = true ∨
      ∃ text, given.text? = some text ∧ text ∉ Enumeration.texts choices)
  /-- What holds an integer with too many digits is refused too, but not as a conversion. -/
  escapes : ∀ given, given.hasLong = true →
    synthesize property (.enum t) (some given) = .error .digits
  selected : ∀ given text, given.text? = some text → text ∈ Enumeration.texts choices →
    ∃ m, t.Selected property choices given text m
  /-- Whatever is declared can be a default. -/
  accepted : ∀ l ∈ choices, l ≠ .null → l.isComposite = false →
    ∃ m ∈ t.members, synthesize property (.enum t) (some l) = .ok (.member m)

theorem selects_of_type {name : String} (h : Enumeration.type name choices = .ok t)
    (property : String) : t.Selects property choices := by
  obtain ⟨hshort, ms, hms, rfl⟩ := Enumeration.type_eq_ok.mp h
  have henum : Enumeration.Enumerates (Enumeration.texts choices) (⟨name, ms⟩ : EnumType).members :=
    Enumeration.enumerates_members hms
  refine ⟨fun d hd => ?_, refused_iff henum,
    fun _ => Synthesis.synthesize_of_hasLong property rfl rfl,
    fun _ _ => exists_selected property henum, fun l hl hnull hscalar => ?_⟩
  · cases d with
    | none => rfl
    | some given =>
      cases given with
      | null => rfl
      | _ => cases hd
  · cases htext : l.text? with
    | none =>
      obtain rfl | hcomposite | hlong := Literal.text?_eq_none_iff.mp htext
      · exact absurd rfl hnull
      · rw [hscalar] at hcomposite
        cases hcomposite
      · exact absurd hlong (List.any_eq_false.mp hshort l hl)
    | some text =>
      obtain ⟨m, hm⟩ :=
        exists_selected property henum htext (List.mem_filterMap.mpr ⟨l, hl, htext⟩)
      exact ⟨m, hm.mem, hm.default⟩

end EnumType
end SchemaModel
