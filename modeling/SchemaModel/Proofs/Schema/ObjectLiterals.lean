import SchemaModel.Proofs.Schema.PlainLiteral
import SchemaModel.Proofs.Tables

/-!
Object literals and their raw form. A literal keeps all fields and gives the first one of a name;
its raw form keeps one field for each name, which is the last. Both mean the same where names are
distinct, and they are unless two keys of one mapping have one text (`oneMeaning_iff`). In JSON keys
are texts, each of which occurs once.
-/
namespace SchemaModel

namespace Value

/-- A mapping somewhere inside a value, on a way through lists and the values of mappings. -/
inductive HoldsMapping : Value → List (Value × Value) → Prop
  | self {es : List (Value × Value)} : HoldsMapping (.mapping es) es
  | ofList {xs : List Value} {x : Value} {es : List (Value × Value)} (hx : x ∈ xs)
      (h : HoldsMapping x es) : HoldsMapping (.list xs) es
  | ofTuple {xs : List Value} {x : Value} {es : List (Value × Value)} (hx : x ∈ xs)
      (h : HoldsMapping x es) : HoldsMapping (.tuple xs) es
  | ofMapping {fs : List (Value × Value)} {f : Value × Value} {es : List (Value × Value)}
      (hf : f ∈ fs) (h : HoldsMapping f.2 es) : HoldsMapping (.mapping fs) es
  | ofMarked {m : Nat} {v : Value} {es : List (Value × Value)} (h : HoldsMapping v es) :
      HoldsMapping (.marked m v) es

/-- The texts of the keys of a mapping. -/
def keyTexts (es : List (Value × Value)) : List String := es.map fun e => e.1.display

end Value

namespace Literal

variable {l : Literal} {v : Value} {es : List (Value × Value)} {fs : List (String × Literal)}
  {name : String}

/-- An object somewhere inside a literal. -/
inductive HoldsObject : Literal → List (String × Literal) → Prop
  | self {fs : List (String × Literal)} : HoldsObject (.object fs) fs
  | ofSequence {items : List Literal} {l : Literal} {fs : List (String × Literal)}
      (hl : l ∈ items) (h : HoldsObject l fs) : HoldsObject (.sequence items) fs
  | ofUniqueSequence {items : List Literal} {l : Literal} {fs : List (String × Literal)}
      (hl : l ∈ items) (h : HoldsObject l fs) : HoldsObject (.uniqueSequence items) fs
  | ofObject {gs : List (String × Literal)} {g : String × Literal} {fs : List (String × Literal)}
      (hg : g ∈ gs) (h : HoldsObject g.2 fs) : HoldsObject (.object gs) fs

/-- What the fields of an object mean does not depend on whether it is a literal or raw. -/
structure OneMeaning (fs : List (String × Literal)) : Prop where
  distinct : (fs.map (·.1)).Nodup
  /-- Whatever a name is looked up in gives the same. -/
  agrees : ∀ name, Value.entry? name (toEntries fs []) = (field? name fs).map toValue
  /-- Every field is written. -/
  kept : (toEntries fs []).map (·.1) = fs.map fun f => .text f.1

/-! ## Raw objects -/

/-- Of several fields of one name the raw object has the last. -/
theorem entry?_toEntries (name : String) (fs : List (String × Literal))
    (es : List (Value × Value)) : Value.entry? name (toEntries fs es) =
      ((field? name fs.reverse).map toValue).or (Value.entry? name es) := by
  induction fs generalizing es with
  | nil => simp [toEntries, field?]
  | cons f fs ih =>
    obtain ⟨key, l⟩ := f
    have hput : Value.entry? name (putField key l.toValue es) =
        ((field? name [(key, l)]).map toValue).or (Value.entry? name es) := by
      by_cases hk : name = key
      · subst hk
        rw [putField, Value.entry?_putEntry_self]
        simp [field?]
      · rw [putField, Value.entry?_putEntry_of_ne hk]
        simp [field?, List.lookup_cons, beq_eq_false_iff_ne.mpr hk]
    rw [toEntries, ih, hput, field?, field?, field?, List.reverse_cons, List.lookup_append]
    cases fs.reverse.lookup name <;> rfl

theorem entry?_fieldValues (name : String) (fs : List (String × Literal)) :
    Value.entry? name (fieldValues fs) = (field? name fs).map toValue := by
  induction fs with
  | nil => rfl
  | cons f fs ih =>
    rw [fieldValues, List.map_cons, Value.entry?, field?, List.lookup_cons]
    by_cases hk : f.1 = name
    · simp [hk]
    · rw [if_neg hk, beq_eq_false_iff_ne.mpr (Ne.symm hk)]
      exact ih

theorem oneMeaning_iff_nodup : OneMeaning fs ↔ (fs.map (·.1)).Nodup := by
  constructor
  · exact OneMeaning.distinct
  · intro hn
    have hraw : toEntries fs [] = fieldValues fs := by
      rw [toEntries_eq hn rfl (fun _ _ => rfl), List.nil_append]
    refine ⟨hn, fun name => ?_, ?_⟩
    · rw [hraw, entry?_fieldValues]
    · rw [hraw, fieldValues, List.map_map]
      rfl

/-! ## Objects and mappings -/

/-- An entry becomes a field if its key has a text, and its value is a literal. -/
theorem ofEntries_cons {k : Value} : ofEntries ((k, v) :: es) = .ok fs ↔
    ∃ name l rest, k.display? = some name ∧ ofValue v = .ok l ∧ ofEntries es = .ok rest ∧
      fs = (name, l) :: rest := by
  rw [ofEntries]
  cases hname : k.display? with
  | none => simp
  | some name =>
    constructor
    · intro h
      obtain ⟨l, hl, h⟩ := Fallible.bind_eq_ok.mp h
      obtain ⟨rest, hrest, h⟩ := Fallible.bind_eq_ok.mp h
      cases h
      exact ⟨name, l, rest, rfl, hl, hrest, rfl⟩
    · rintro ⟨_, l, rest, ⟨⟩, hl, hrest, rfl⟩
      exact Fallible.bind_eq_ok.mpr ⟨l, hl, Fallible.bind_eq_ok.mpr ⟨rest, hrest, rfl⟩⟩

/-- Fields are named by the texts of the keys. -/
theorem names_of_ofEntries (h : ofEntries es = .ok fs) : fs.map (·.1) = Value.keyTexts es := by
  induction es generalizing fs with
  | nil =>
    cases h
    rfl
  | cons e es ih =>
    obtain ⟨name, l, rest, hname, -, hrest, rfl⟩ := ofEntries_cons.mp h
    rw [List.map_cons, ih hrest, ← (Value.display?_eq_some.mp hname).2]
    rfl

theorem forall₂_of_ofValues {xs : List Value} {ls : List Literal} (h : ofValues xs = .ok ls) :
    List.Forall₂ (fun x l => ofValue x = .ok l) xs ls := by
  induction xs generalizing ls with
  | nil =>
    cases h
    exact .nil
  | cons x xs ih =>
    rw [ofValues] at h
    obtain ⟨l, hl, h⟩ := Fallible.bind_eq_ok.mp h
    obtain ⟨rest, hrest, h⟩ := Fallible.bind_eq_ok.mp h
    cases h
    exact .cons hl (ih hrest)

theorem forall₂_of_ofEntries (h : ofEntries es = .ok fs) :
    List.Forall₂ (fun e f => ofValue e.2 = .ok f.2) es fs := by
  induction es generalizing fs with
  | nil =>
    cases h
    exact .nil
  | cons e es ih =>
    obtain ⟨name, l, rest, -, hl, hrest, rfl⟩ := ofEntries_cons.mp h
    exact .cons hl (ih hrest)

/-- Every mapping inside a value becomes an object inside its literal. -/
theorem exists_object (hv : v.HoldsMapping es) (h : ofValue v = .ok l) :
    ∃ fs, l.HoldsObject fs ∧ ofEntries es = .ok fs := by
  induction hv generalizing l with
  | self =>
    obtain ⟨fs, hfs, rfl⟩ := Fallible.map_eq_ok.mp h
    exact ⟨fs, .self, hfs⟩
  | ofList hx _ ih | ofTuple hx _ ih =>
    obtain ⟨ls, hls, rfl⟩ := Fallible.map_eq_ok.mp h
    obtain ⟨l, hl, hxl⟩ := exists_of_forall₂ (forall₂_of_ofValues hls) hx
    obtain ⟨fs, hfs, he⟩ := ih hxl
    exact ⟨fs, .ofSequence hl hfs, he⟩
  | ofMapping hf _ ih =>
    obtain ⟨gs, hgs, rfl⟩ := Fallible.map_eq_ok.mp h
    obtain ⟨g, hg, hfg⟩ := exists_of_forall₂ (forall₂_of_ofEntries hgs) hf
    obtain ⟨fs, hfs, he⟩ := ih hfg
    exact ⟨fs, .ofObject hg hfs, he⟩
  | ofMarked _ ih => exact ih h

/-- A sequence comes from a list or a tuple, marked or not. -/
theorem exists_items {ls : List Literal} : (v : Value) → ofValue v = .ok (.sequence ls) →
    ∃ xs, ofValues xs = .ok ls ∧ ∀ x ∈ xs, ∀ es, x.HoldsMapping es → v.HoldsMapping es
  | .list xs, h => by
    obtain ⟨_, hls, ⟨⟩⟩ := Fallible.map_eq_ok.mp h
    exact ⟨xs, hls, fun x hx es hes => .ofList hx hes⟩
  | .tuple xs, h => by
    obtain ⟨_, hls, ⟨⟩⟩ := Fallible.map_eq_ok.mp h
    exact ⟨xs, hls, fun x hx es hes => .ofTuple hx hes⟩
  | .marked _ v, h => by
    obtain ⟨xs, hls, hxs⟩ := exists_items v h
    exact ⟨xs, hls, fun x hx es hes => .ofMarked (hxs x hx es hes)⟩
  | .mapping _, h => nomatch Fallible.map_eq_ok.mp h

/-- An object comes from a mapping, marked or not. -/
theorem exists_entries : (v : Value) → ofValue v = .ok (.object fs) →
    ∃ es, ofEntries es = .ok fs ∧
      ∀ es', (Value.mapping es).HoldsMapping es' → v.HoldsMapping es'
  | .mapping es, h => by
    obtain ⟨_, hes, ⟨⟩⟩ := Fallible.map_eq_ok.mp h
    exact ⟨es, hes, fun _ h => h⟩
  | .marked _ v, h => by
    obtain ⟨es, hes, hv⟩ := exists_entries v h
    exact ⟨es, hes, fun es' h => .ofMarked (hv es' h)⟩
  | .list _, h | .tuple _, h => nomatch Fallible.map_eq_ok.mp h

/-- No value declares that its items are unique. -/
theorem ofValue_ne_uniqueSequence {ls : List Literal} :
    (v : Value) → ofValue v ≠ .ok (.uniqueSequence ls)
  | .marked _ v, h => ofValue_ne_uniqueSequence v h
  | .list _, h | .tuple _, h | .mapping _, h => nomatch Fallible.map_eq_ok.mp h

/-- Every object inside a literal comes from a mapping inside its value. -/
theorem exists_mapping (hl : l.HoldsObject fs) (h : ofValue v = .ok l) :
    ∃ es, v.HoldsMapping es ∧ ofEntries es = .ok fs := by
  induction hl generalizing v with
  | self =>
    obtain ⟨es, hes, hv⟩ := exists_entries v h
    exact ⟨es, hv es .self, hes⟩
  | ofSequence hl _ ih =>
    obtain ⟨xs, hls, hv⟩ := exists_items v h
    obtain ⟨x, hx, hxl⟩ := exists_of_forall₂ (forall₂_of_ofValues hls).flip hl
    obtain ⟨es, hes, he⟩ := ih hxl
    exact ⟨es, hv x hx es hes, he⟩
  | ofUniqueSequence _ _ _ => exact absurd h (ofValue_ne_uniqueSequence v)
  | ofObject hg _ ih =>
    obtain ⟨es, hes, hv⟩ := exists_entries v h
    obtain ⟨e, he, heg⟩ := exists_of_forall₂ (forall₂_of_ofEntries hes).flip hg
    obtain ⟨es', hes', hok⟩ := ih heg
    exact ⟨es', hv es' (.ofMapping he hes'), hok⟩

/-! ## In JSON -/

theorem nodup_keyTexts_of_entriesJson (h : Value.entriesJson es = true) :
    (Value.keyTexts es).Nodup := by
  induction es with
  | nil => exact .nil
  | cons e es ih =>
    obtain ⟨name, v, rfl, -, hnone, hes⟩ := Value.entriesJson_cons h
    refine List.nodup_cons.mpr ⟨fun hm => ?_, ih hes⟩
    obtain ⟨⟨k, w⟩, he, hk⟩ := List.mem_map.mp hm
    obtain ⟨name', rfl⟩ := Value.exists_name_of_mem hes he
    obtain rfl : name' = name := hk
    rw [Value.entry?_of_mem hes he] at hnone
    cases hnone

/-- In JSON no key occurs twice, however deep. -/
theorem nodup_keyTexts_of_isJson (hv : v.HoldsMapping es) (hj : v.isJson = true) :
    (Value.keyTexts es).Nodup := by
  induction hv with
  | self => exact nodup_keyTexts_of_entriesJson hj
  | ofList hx _ ih => exact ih (Value.isJson_of_mem hj hx)
  | ofTuple _ _ _ => cases hj
  | @ofMapping fs f _ hf _ ih =>
    obtain ⟨k, w⟩ := f
    obtain ⟨name, rfl⟩ := Value.exists_name_of_mem hj hf
    exact ih (Value.isJson_of_entry? hj (Value.entry?_of_mem hj hf))
  | ofMarked _ ih => exact ih hj

/-! ## One meaning -/

/-- The objects inside a literal have one meaning exactly if no two keys of a mapping inside its
value have one text, as in JSON. In any case the literal gives the first field of a name, and its
raw form the last. -/
theorem oneMeaning_iff (h : ofValue v = .ok l) :
    ((∀ fs, l.HoldsObject fs → OneMeaning fs) ↔
      ∀ es, v.HoldsMapping es → (Value.keyTexts es).Nodup) ∧
    (v.isJson = true → ∀ fs, l.HoldsObject fs → OneMeaning fs) ∧
    ∀ fs name, Value.entry? name (toEntries fs []) = (field? name fs.reverse).map toValue := by
  have hiff : (∀ fs, l.HoldsObject fs → OneMeaning fs) ↔
      ∀ es, v.HoldsMapping es → (Value.keyTexts es).Nodup := by
    constructor
    · intro hone es hes
      obtain ⟨fs, hfs, he⟩ := exists_object hes h
      rw [← names_of_ofEntries he]
      exact (hone fs hfs).distinct
    · intro hdistinct fs hfs
      obtain ⟨es, hes, he⟩ := exists_mapping hfs h
      rw [oneMeaning_iff_nodup, names_of_ofEntries he]
      exact hdistinct es hes
  refine ⟨hiff, fun hj => hiff.mpr fun _ hes => nodup_keyTexts_of_isJson hes hj, fun _ _ => ?_⟩
  rw [entry?_toEntries]
  exact Option.or_none

/-- A mapping with keys of several kinds, one of them inside a list. -/
def ratings : Value :=
  let inner : Value := .marked 2 (.mapping [(.null, .int 2), (.text "1", .int 3)])
  .marked 0 (.mapping [(.int 1, .text "low"), (.bool false, .null),
    (.text "more", .marked 1 (.list [inner]))])

theorem oneMeaning_ratings : ∃ l, ofValue ratings = .ok l ∧
    ((∀ fs, l.HoldsObject fs → OneMeaning fs) ↔
      ∀ es, ratings.HoldsMapping es → (Value.keyTexts es).Nodup) ∧
    (ratings.isJson = true → ∀ fs, l.HoldsObject fs → OneMeaning fs) ∧
    ∀ fs name, Value.entry? name (toEntries fs []) = (field? name fs.reverse).map toValue :=
  ⟨_, rfl, oneMeaning_iff rfl⟩

/-- Where different keys of a mapping have one text, the literal gives one entry and its raw form
the other. -/
theorem not_oneMeaning_one : ¬ ∀ (es : List (Value × Value)) (fs : List (String × Literal)),
    (es.Pairwise fun e f => e.1.same f.1 = false) → ofValue (.mapping es) = .ok (.object fs) →
    OneMeaning fs := by
  intro h
  have hone := h [(.int 1, .text "a"), (.text "1", .text "b")] [("1", .text "a"), ("1", .text "b")]
    (by simp [Value.same]) rfl
  have hagrees := hone.agrees "1"
  simp [toEntries, putField, Value.putEntry, Value.same, Value.entry?, field?, toValue] at hagrees

end Literal
end SchemaModel
