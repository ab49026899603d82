import SchemaModel.Proofs.Schema.FailedRuns

/-!
Faults of documents. Loading fails only with an error that names a fault of a place which is visited,
by the pointer under which it is visited.
-/
namespace SchemaModel

namespace Literal

open Fallible

mutual

/-- Every value in JSON declares a literal. -/
theorem exists_ofValue : (v : Value) → v.isJson = true → ∃ l, ofValue v = .ok l
  | .null, _ | .bool _, _ | .int _, _ | .double _, _ | .text _, _ => ⟨_, rfl⟩
  | .list xs, h => by
    obtain ⟨ls, hls⟩ := exists_ofValues xs h
    exact ⟨_, map_eq_ok.mpr ⟨ls, hls, rfl⟩⟩
  | .mapping es, h => by
    obtain ⟨fs, hfs⟩ := exists_ofEntries es h
    exact ⟨_, map_eq_ok.mpr ⟨fs, hfs, rfl⟩⟩
  | .marked _ v, h => exists_ofValue v h
  | .bytes _, h | .date _, h | .moment _, h | .member _, h | .tuple _, h | .set _, h
  | .unordered _, h | .frozen _, h | .again .., h => by cases h

theorem exists_ofValues : (xs : List Value) → Value.allJson xs = true →
    ∃ ls, ofValues xs = .ok ls
  | [], _ => ⟨[], rfl⟩
  | x :: xs, h => by
    simp only [Value.allJson, Bool.and_eq_true] at h
    obtain ⟨l, hl⟩ := exists_ofValue x h.1
    obtain ⟨ls, hls⟩ := exists_ofValues xs h.2
    exact ⟨l :: ls, bind_eq_ok.mpr ⟨l, hl, bind_eq_ok.mpr ⟨ls, hls, rfl⟩⟩⟩

theorem exists_ofEntries : (es : List (Value × Value)) → Value.entriesJson es = true →
    ∃ fs, ofEntries es = .ok fs
  | [], _ => ⟨[], rfl⟩
  | (k, v) :: es, h => by
    obtain ⟨name, w, he, hw, -, hes⟩ := Value.entriesJson_cons h
    cases he
    obtain ⟨l, hl⟩ := exists_ofValue v hw
    obtain ⟨fs, hfs⟩ := exists_ofEntries es hes
    exact ⟨(name, l) :: fs, bind_eq_ok.mpr ⟨l, hl, bind_eq_ok.mpr ⟨fs, hfs, rfl⟩⟩⟩

end

end Literal

namespace Schema

open Relation (TransGen)

/-! ## Faults -/

/-- A `type` entry is of a kind that declares nothing. -/
structure Kindless (document : Document) (w : Value) : Prop where
  null : document.content w ≠ .null
  text : ∀ s, document.content w ≠ .text s
  list : ∀ xs, document.content w ≠ .list xs

/-- An object holds an integer with too many digits where what it declares is to be shown: in a kind
that is none, or in its documentation. -/
inductive Unshown (document : Document) (entries : List (Value × Value)) : Prop
  | kind {w} (hw : Value.entry? "type" entries = some w) (hkind : Kindless document w)
      (hlong : w.hasLong = true) : Unshown document entries
  | documentation {name w} (hname : name = "title" ∨ name = "description")
      (hw : Value.entry? name entries = some w) (hlong : w.hasLong = true) :
      Unshown document entries

/-- The faults of what an object under a pointer declares. -/
inductive ObjectFault (document : Document) (pointer : String) (entries : List (Value × Value)) :
    LoadError → Prop
  | kind {w} (hw : Value.entry? "type" entries = some w) (hkind : Kindless document w)
      (hshort : w.hasLong = false) : ObjectFault document pointer entries (.kindDeclaration w)
  | unshown (h : Unshown document entries) : ObjectFault document pointer entries .digits
  | properties {w} (hw : Value.entry? "properties" entries = some w)
      (hn : ∀ ps, document.content w ≠ .mapping ps) :
      ObjectFault document pointer entries (.properties pointer)
  | enum {w} (hw : Value.entry? "enum" entries = some w)
      (hn : ∀ xs, document.content w ≠ .list xs) :
      ObjectFault document pointer entries (.enum pointer)

/-- The faults of a place under a pointer: those of its reference, or of what it holds. -/
inductive Fault (document : Document) (pointer : String) (v : Value) : LoadError → Prop
  | selfReference {reference target} (hr : Refers document v reference target)
      (hl : Loops document v) : Fault document pointer v (.selfReference reference pointer)
  | externalReference {reference} (hr : reference? (document.content v) = some (.text reference))
      (he : Pointer.resolve document reference = .error .external) :
      Fault document pointer v (.externalReference reference)
  | unresolvable {reference} (hr : reference? (document.content v) = some (.text reference))
      (he : Pointer.resolve document reference = .error .unresolvable) :
      Fault document pointer v (.unresolvable reference)
  | index {reference token} (hr : reference? (document.content v) = some (.text reference))
      (he : Pointer.resolve document reference = .error (.index token)) :
      Fault document pointer v (.index token)
  | referenceKind {w} (hr : reference? (document.content v) = some w)
      (hw : ∀ reference, w ≠ .text reference) :
      Fault document pointer v (.referenceKind (document.content w))
  | notObject (h : ∀ entries, document.content v ≠ .mapping entries) :
      Fault document pointer v (.notObject pointer (document.content v).kindName)
  | object {entries e} (ho : Holds document v entries) (h : ObjectFault document pointer entries e) :
      Fault document pointer v e

/-- Some place that is visited has a fault. -/
def Faulty (document : Document) (e : LoadError) : Prop :=
  ∃ pointer v, Visited document pointer v ∧ Fault document pointer v e

variable {document : Document} {l : Loading} {pointer reference : String} {v : Value}
  {entries : List (Value × Value)} {e : LoadError}

/-! ## Failures are faults -/

theorem Fault.of_follow (hr : reference? (document.content v) = some (.text reference))
    (h : follow document reference = .error e) : Fault document pointer v e := by
  obtain ⟨cause, hcause, rfl⟩ := Fallible.mapError_eq_error.mp h
  cases cause with
  | external => exact .externalReference hr hcause
  | unresolvable => exact .unresolvable hr hcause
  | index token => exact .index hr hcause

theorem declaredKind_error (hd : document.IsJson)
    (h : declaredKind document ((Value.entry? "type" entries).getD .null) = .error e) :
    ∃ w, Value.entry? "type" entries = some w ∧ Kindless document w ∧ e = kindError w := by
  cases hw : Value.entry? "type" entries with
  | none =>
    rw [hw] at h
    cases h
  | some w =>
    rw [hw, Option.getD_some, declaredKind, hd.closed_eq] at h
    split at h
    · cases h
    · cases h
    · cases h
    · rename_i hnull htext hlist
      cases h
      exact ⟨w, rfl, ⟨hnull, htext, hlist⟩, rfl⟩

theorem Unshown.of_documentation (hd : document.IsJson) {name : String}
    (hname : name = "title" ∨ name = "description")
    (h : Schema.documentation (document.closed ((Value.entry? name entries).getD .null)) =
      .error e) : e = .digits ∧ Unshown document entries := by
  rw [hd.closed_eq, documentation_eq_error] at h
  obtain ⟨hlong, rfl⟩ := h
  refine ⟨rfl, ?_⟩
  cases hw : Value.entry? name entries with
  | none =>
    rw [hw] at hlong
    cases hlong
  | some w =>
    rw [hw] at hlong
    exact .documentation hname hw hlong

theorem ObjectFault.of_declaration (hd : document.IsJson)
    (h : declaration document entries = .error e) : ObjectFault document pointer entries e := by
  unfold declaration at h
  obtain h | ⟨k, -, h⟩ := Fallible.bind_eq_error.mp h
  · obtain ⟨w, hw, hkind, rfl⟩ := declaredKind_error hd h
    unfold kindError
    cases hlong : w.hasLong with
    | false => exact .kind hw hkind hlong
    | true => exact .unshown (.kind hw hkind hlong)
  obtain h | ⟨title, -, h⟩ := Fallible.bind_eq_error.mp h
  · obtain ⟨rfl, hunshown⟩ := Unshown.of_documentation hd (.inl rfl) h
    exact .unshown hunshown
  obtain h | ⟨description, -, ⟨⟩⟩ := Fallible.bind_eq_error.mp h
  obtain ⟨rfl, hunshown⟩ := Unshown.of_documentation hd (.inr rfl) h
  exact .unshown hunshown

theorem literal_ne_error (hv : v.isJson = true) : literal v ≠ .error e := by
  intro h
  obtain ⟨f, hf, -⟩ := Fallible.mapError_eq_error.mp h
  obtain ⟨l, hl⟩ := Literal.exists_ofValue v hv
  rw [hl] at hf
  cases hf

theorem ObjectFault.of_choices (hd : document.IsJson) (hj : Value.entriesJson entries = true)
    (h : choices document pointer entries = .error e) : ObjectFault document pointer entries e := by
  unfold choices at h
  cases hw : Value.entry? "enum" entries with
  | none =>
    rw [hw] at h
    cases h
  | some w =>
    rw [hw, Option.map_some] at h
    have hwj := Document.isJson_content document (Value.isJson_of_entry? hj hw)
    cases hc : document.content w
    case list xs =>
      rw [hc] at h hwj
      obtain ⟨before, x, after, rfl, -, hx⟩ :=
        Fallible.mapM_eq_error.mp (Fallible.map_eq_error.mp h)
      rw [hd.closed_eq] at hx
      exact absurd hx (literal_ne_error (Value.isJson_of_mem hwj (by simp)))
    all_goals
      rw [hc] at h
      cases h
      exact .enum hw (by simp [hc])

theorem declaredDefault_ne_error (hd : document.IsJson) (hj : Value.entriesJson entries = true)
    {unique : Bool} : declaredDefault document unique entries ≠ .error e := by
  intro h
  unfold declaredDefault at h
  split at h
  · cases h
  · rename_i w hw
    rw [hd.closed_eq, Fallible.map_eq_error] at h
    exact literal_ne_error (Value.isJson_of_entry? hj hw) h

/-- A run fails with a fault of a visited place, unless its steps are used up. Whatever is in `chain`
refers to the place, so that a reference back to it closes a round. -/
theorem readAt_faulty (hd : document.IsJson) {fuel : Nat} {path : List Nat} {chain : List String}
    (hv : Visited document pointer v)
    (hchain : ∀ q ∈ chain, ∃ u, Pointer.resolve document q = .ok u ∧
      TransGen (RefersTo document) u v)
    (h : readAt document fuel path chain v pointer l = .error e) :
    e = .endless ∨ Faulty document e := by
  induction fuel generalizing path chain v pointer l with
  | zero =>
    cases h
    exact .inl rfl
  | succ fuel ih =>
    cases (readAt_error h).2 with
    | @selfReference reference hr hself =>
      obtain ⟨u, hu, hround⟩ : ∃ u, Pointer.resolve document reference = .ok u ∧
          TransGen (RefersTo document) v v := by
        obtain rfl | hself := hself
        · exact ⟨v, hv.resolve hd, .single ⟨_, hr, hv.resolve hd⟩⟩
        · obtain ⟨u, hu, hway⟩ := hchain _ hself
          exact ⟨u, hu, .head ⟨_, hr, hu⟩ hway⟩
      exact .inr ⟨_, _, hv, .selfReference ⟨hr, hu⟩ (loops_of_cycle hround)⟩
    | unfollowed hr he => exact .inr ⟨_, _, hv, .of_follow hr he⟩
    | target hr _ _ h =>
      refine ih (hv.target hr) (fun q hq => ?_) h
      rcases List.mem_cons.mp hq with rfl | hq
      · exact ⟨v, hv.resolve hd, .single ⟨_, hr⟩⟩
      · obtain ⟨u, hu, hway⟩ := hchain q hq
        exact ⟨u, hu, hway.tail ⟨_, hr⟩⟩
    | referenceKind hr hw => exact .inr ⟨_, _, hv, .referenceKind hr hw⟩
    | around => exact .inl rfl
    | notObject hn => exact .inr ⟨_, _, hv, .notObject hn⟩
    | @object entries _ ho h =>
      have hj := Document.entriesJson_of_content (hd.resolve (hv.resolve hd)) ho.1
      cases h with
      | declaration h => exact .inr ⟨_, _, hv, .object ho (.of_declaration hd h)⟩
      | properties hw hn => exact .inr ⟨_, _, hv, .object ho (.properties hw hn)⟩
      | key hw hps hu hk =>
        have hpj := Document.entriesJson_of_content (Value.isJson_of_entry? hj hw) hps
        obtain ⟨name, hname⟩ := Value.exists_name_of_mem hpj hu
        exact absurd hname (hk name)
      | inner hi _ h => exact ih (hv.inner ho hi) (by simp) h
      | choices h => exact .inr ⟨_, _, hv, .object ho (.of_choices hd hj h)⟩
      | default h => exact absurd h (declaredDefault_ne_error hd hj)

end Schema
end SchemaModel
