import SchemaModel.Proofs.Schema.Homes
import SchemaModel.Proofs.Schema.Termination

/-!
How loading ends: with a schema if the document has no faults, and else with one of the faults that
it has. Loops of references are faults that are always found. Not every fault is reported as one: at
a reference that is no text, or that names an item of a list by digits which are no number, loading
breaks off instead, and so it does where it would have to show an integer with too many digits. The
documents are trees, as all are that come from JSON (`Document.isTree_of_readJson`).
-/
namespace SchemaModel

/-- Whether an error is reported as one of the document. -/
def LoadError.isReported : LoadError → Bool
  | .index _ | .digits | .referenceKind _ | .propertyName _ | .endless => false
  | _ => true

namespace Schema

variable {document : Document} {pointer : String} {v : Value} {e : LoadError}

/-! ## Schemas and faults -/

/-- Where loading fails, the document is no object or the error is one of its faults. -/
theorem ofDocument_error (hd : document.IsTree) (h : ofDocument document = .error e) :
    (e = .document ∧ ∀ entries, document.content document.value ≠ .mapping entries) ∨
      Faulty document e := by
  unfold ofDocument at h
  split at h
  · obtain h | ⟨p, -, ⟨⟩⟩ := Fallible.bind_eq_error.mp h
    obtain rfl | hfault := readAt_faulty hd.toIsJson .root (by simp) h
    · exact absurd h (readAt_root hd (Nat.le_refl _)).2
    · exact .inr hfault
  · rename_i hn
    cases h
    exact .inl ⟨rfl, hn⟩

/-- A document becomes a schema exactly if it has no faults. -/
theorem exists_schema_iff (hd : document.IsTree) :
    (∃ s, ofDocument document = .ok s) ↔ ∀ e, ¬ Faulty document e := by
  constructor
  · rintro ⟨s, hs⟩ e
    exact not_faulty_of_ok hd.toIsJson hs
  · intro h
    cases hs : ofDocument document with
    | ok s => exact ⟨s, rfl⟩
    | error e =>
      obtain ⟨-, hn⟩ | hfault := ofDocument_error hd hs
      · exact absurd ⟨_, _, .root, .notObject hn⟩ (h _)
      · exact absurd hfault (h e)

/-! ## Loops of references -/

/-- Loading a tree ends, with as many steps as are allowed and with any larger number alike. It says
that a reference points to itself only where following references from a place that is visited never
leads to an object, and where that is so of some place, there is no schema. -/
theorem loops_rejected (hd : document.IsTree) :
    (∀ steps, readBound document ≤ steps →
      readAt document steps [] [] document.value Pointer.root ⟨#[], []⟩ =
        readAt document (readBound document) [] [] document.value Pointer.root ⟨#[], []⟩) ∧
    ofDocument document ≠ .error .endless ∧
    (∀ reference pointer, ofDocument document = .error (.selfReference reference pointer) →
      ∃ v target, Visited document pointer v ∧ Refers document v reference target ∧
        Loops document v) ∧
    ((∃ pointer v, Visited document pointer v ∧ Loops document v) →
      ∀ s, ofDocument document ≠ .ok s) := by
  refine ⟨fun steps hle => (readAt_root hd hle).1, fun h => ?_, fun reference pointer h => ?_, ?_⟩
  · obtain ⟨⟨⟩, -⟩ | ⟨pointer, v, -, hfault⟩ := ofDocument_error hd h
    cases hfault with
    | object _ hobject => cases hobject
  · obtain ⟨⟨⟩, -⟩ | ⟨place, v, hv, hfault⟩ := ofDocument_error hd h
    cases hfault with
    | selfReference hr hl => exact ⟨v, _, hv, hr, hl⟩
    | object _ hobject => cases hobject
  · rintro ⟨pointer, v, hv, hl⟩ s hs
    obtain ⟨target, reference, hr⟩ := hl v .refl
    exact not_faulty_of_ok hd.toIsJson hs ⟨_, _, hv, .selfReference hr hl⟩

/-- Two properties that refer to each other, behind one that refers to the whole. -/
def crossing : Document :=
  .ofValue (.mapping [
    (.text "properties", .mapping [
      (.text "all", .mapping [(.text "$ref", .text "#")]),
      (.text "left", .mapping [(.text "$ref", .text "#/properties/right")]),
      (.text "right", .mapping [(.text "$ref", .text "#/properties/left")])])])

theorem loops_rejected_crossing : crossing.IsTree ∧
    ofDocument crossing = .error (.selfReference "#/properties/left" "#/properties/right") ∧
    (∃ v target, Visited crossing "#/properties/right" v ∧
      Refers crossing v "#/properties/left" target ∧ Loops crossing v) := by
  have hd : crossing.IsTree := Document.isTree_ofValue (by decide) (by decide)
  have hrun : ofDocument crossing =
    .error (.selfReference "#/properties/left" "#/properties/right") := rfl
  exact ⟨hd, hrun, (loops_rejected hd).2.2.1 _ _ hrun⟩

/-! ## Errors that are not reported -/

/-- Whether a schema is found or the document is reported to be at fault. -/
def Answers (document : Document) : Prop :=
  (∃ s, ofDocument document = .ok s) ∨
    ∃ e, ofDocument document = .error e ∧ e.isReported = true

/-- A place has a fault that is not reported. It refers by what is no text, or by a pointer that
names an item of a list by digits which are no number, or it holds an object with an integer that
cannot be shown. -/
inductive Unreported (document : Document) (v : Value) : LoadError → Prop
  | reference {w} (hr : reference? (document.content v) = some w)
      (hw : ∀ reference, w ≠ .text reference) :
      Unreported document v (.referenceKind (document.content w))
  | index {reference before token after target xs}
      (hr : reference? (document.content v) = some (.text reference))
      (ht : Pointer.tokens? reference = some (before ++ token :: after))
      (hb : before.foldlM (Pointer.step document) document.value = .ok target)
      (hxs : document.content target = .list xs) (hne : token ≠ [])
      (hdigits : token.all Text.isDigitLike = true) (hnone : Pointer.index? token = none) :
      Unreported document v (.index (String.ofList token))
  | unshown {entries} (ho : Holds document v entries) (h : Unshown document entries) :
      Unreported document v .digits

theorem Unreported.not_isReported (h : Unreported document v e) : e.isReported = false := by
  cases h <;> rfl

/-- Every fault is reported, apart from those. -/
theorem Fault.isReported_or_unreported (h : Fault document pointer v e) :
    e.isReported = true ∨ Unreported document v e := by
  cases h with
  | referenceKind hr hw => exact .inr (.reference hr hw)
  | index hr he =>
    obtain ⟨before, token, after, target, xs, ht, hb, hxs, hne, hdigits, hnone, rfl⟩ :=
      Pointer.resolve_eq_index.mp he
    exact .inr (.index hr ht hb hxs hne hdigits hnone)
  | object ho hobject =>
    cases hobject with
    | unshown hunshown => exact .inr (.unshown ho hunshown)
    | kind | properties | enum => exact .inl rfl
  | _ => exact .inl rfl

/-- Loading gives a schema exactly if the document has no faults. It gives a schema or reports a
fault, unless it comes upon a place that refers by what is no text or by digits that are no number, or
upon an object whose kind or documentation holds an integer that cannot be shown. -/
theorem answers_unless_unreported (hd : document.IsTree) :
    ((∃ s, ofDocument document = .ok s) ↔ ∀ e, ¬ Faulty document e) ∧
    (Answers document ↔ ¬ ∃ e pointer v, ofDocument document = .error e ∧
      Visited document pointer v ∧ Unreported document v e) := by
  refine ⟨exists_schema_iff hd, ?_, fun h => ?_⟩
  · rintro (⟨s, hs⟩ | ⟨e, he, hreported⟩) ⟨e', pointer, v, he', -, hm⟩
    · rw [hs] at he'
      cases he'
    · rw [he] at he'
      cases he'
      rw [hm.not_isReported] at hreported
      cases hreported
  · cases hs : ofDocument document with
    | ok s => exact .inl ⟨s, hs⟩
    | error e =>
      refine .inr ⟨e, hs, ?_⟩
      obtain ⟨rfl, -⟩ | ⟨pointer, v, hv, hfault⟩ := ofDocument_error hd hs
      · rfl
      · exact hfault.isReported_or_unreported.resolve_right fun hm => h ⟨e, pointer, v, hs, hv, hm⟩

/-- The children of this document are at fault in several ways, behind one that is a schema. -/
def broken : Document :=
  .ofValue (.mapping [
    (.text "properties", .mapping [
      (.text "good", .mapping [(.text "type", .list [.text "null"])]),
      (.text "bad", .mapping [(.text "items", .list [])]),
      (.text "worse", .mapping [(.text "$ref", .int 5)])])])

theorem answers_unless_unreported_broken : broken.IsTree ∧
    ofDocument broken = .error (.notObject "#/properties/bad/items" "list") ∧
    (¬ ∃ e pointer v, ofDocument broken = .error e ∧ Visited broken pointer v ∧
      Unreported broken v e) ∧ ∃ e, Faulty broken e := by
  have hd : broken.IsTree := Document.isTree_ofValue (by decide) (by decide)
  have hrun : ofDocument broken = .error (.notObject "#/properties/bad/items" "list") := rfl
  have hboth := answers_unless_unreported hd
  refine ⟨hd, hrun, hboth.2.mp (.inr ⟨_, hrun, rfl⟩), ?_⟩
  by_contra hnone
  obtain ⟨s, hs⟩ := hboth.1.mpr fun e he => hnone ⟨e, he⟩
  rw [hrun] at hs
  cases hs

/-- What the root declares is read before anything else. -/
theorem ofDocument_of_declaration {entries : List (Value × Value)}
    (ho : Holds document document.value entries) (h : declaration document entries = .error e) :
    ofDocument document = .error e := by
  obtain ⟨fuel, hfuel⟩ : ∃ fuel, readBound document = fuel + 1 :=
    Nat.exists_eq_add_one.mpr (Nat.mul_pos (Nat.succ_pos _) (Nat.succ_pos _))
  obtain ⟨hc, hr⟩ := ho
  have hobject : ∀ read l, readObject document read Pointer.root entries l = .error e :=
    fun _ _ => Stateful.bind_eq_error.mpr (.inl (Stateful.lift_eq_error.mpr h))
  have hreference : reference? (.mapping entries) = none := hr
  have hread : readAt document (fuel + 1) [] [] document.value Pointer.root ⟨#[], []⟩ =
      .error e := by
    rw [readAt]
    refine Stateful.bind_eq_error.mpr (.inr ⟨_, _, rfl, ?_⟩)
    have hnew : Loading.place? ⟨#[], []⟩ Pointer.root = none := rfl
    have hpath : ¬ (Document.mark? document.value).toList.any [].contains = true := by
      cases Document.mark? document.value <;> exact Bool.false_ne_true
    simp only [hnew, hc, hreference]
    rw [if_neg hpath]
    refine Stateful.bind_eq_error.mpr (.inr ⟨_, _, rfl, ?_⟩)
    refine Stateful.bind_eq_error.mpr (.inr ⟨(), _, rfl, ?_⟩)
    exact Stateful.bind_eq_error.mpr (.inl (hobject _ _))
  rw [ofDocument, hc, hfuel]
  exact Fallible.bind_eq_error.mpr (.inl hread)

/-- A number is no reference, a raised digit is no number, and no title is as long as this. -/
theorem not_answers_five_squared_long :
    ¬ Answers (.ofValue (.mapping [(.text "$ref", .int 5)])) ∧
      ¬ Answers (.ofValue (.mapping [
        (.text "list", .list [.mapping []]), (.text "$ref", .text "#/list/²")])) ∧
      ¬ Answers (.ofValue (.mapping [
        (.text "title", .int (10 ^ Numeral.maxDigits : Nat))])) := by
  refine ⟨?_, ?_, ?_⟩
  · rintro (⟨s, ⟨⟩⟩ | ⟨e, ⟨⟩, ⟨⟩⟩)
  · rintro (⟨s, ⟨⟩⟩ | ⟨e, ⟨⟩, ⟨⟩⟩)
  · have htitle : documentation (.int (10 ^ Numeral.maxDigits : Nat)) = .error .digits :=
      documentation_eq_error.mpr ⟨by rw [Value.hasLong, Numeral.isLong_power], rfl⟩
    have hdeclaration : declaration (.ofValue (.mapping [
        (.text "title", .int (10 ^ Numeral.maxDigits : Nat))])) [
        (.text "title", .int (10 ^ Numeral.maxDigits : Nat))] = .error .digits :=
      Fallible.bind_eq_error.mpr (.inr ⟨_, rfl, Fallible.bind_eq_error.mpr (.inl htitle)⟩)
    rw [Answers, ofDocument_of_declaration ⟨rfl, rfl⟩ hdeclaration]
    rintro (⟨s, ⟨⟩⟩ | ⟨e, ⟨⟩, ⟨⟩⟩)

end Schema
end SchemaModel
