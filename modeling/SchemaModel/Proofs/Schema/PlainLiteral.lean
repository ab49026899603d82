import SchemaModel.Proofs.Schema.Declarations

/-!
Literals that come back from their raw values. The flavour of a sequence is not written, and of
several fields of one name only one is, so that a literal comes back if it has neither. Those that
documents in JSON declare do.
-/
namespace SchemaModel.Literal

open Value (entriesJson allJson)

mutual

/-- Whether no sequence in a literal is flavoured and no object names a field twice. -/
def isPlain : Literal → Bool
  | .sequence items => allPlain items
  | .uniqueSequence _ => false
  | .object fields => fieldsPlain fields
  | _ => true

def allPlain : List Literal → Bool
  | [] => true
  | l :: ls => l.isPlain && allPlain ls

def fieldsPlain : List (String × Literal) → Bool
  | [] => true
  | (name, l) :: fs => l.isPlain && !(fs.map (·.1)).contains name && fieldsPlain fs

end

/-! ## Raw values -/

mutual

theorem isJson_toValue : (l : Literal) → l.toValue.isJson = true
  | .null | .bool _ | .int _ | .decimal _ | .text _ => rfl
  | .sequence items | .uniqueSequence items => by
    rw [toValue, Value.isJson]
    exact allJson_toValues items
  | .object fields => by
    rw [toValue, Value.isJson]
    exact entriesJson_toEntries fields [] rfl

theorem allJson_toValues : (ls : List Literal) → allJson (toValues ls) = true
  | [] => rfl
  | l :: ls => by
    rw [toValues, allJson, isJson_toValue l, allJson_toValues ls]
    rfl

theorem entriesJson_toEntries : (fs : List (String × Literal)) → (es : List (Value × Value)) →
    entriesJson es = true → entriesJson (toEntries fs es) = true
  | [], _, h => h
  | (name, l) :: fs, es, h => by
    rw [toEntries]
    exact entriesJson_toEntries fs _ (Value.entriesJson_putEntry h name (isJson_toValue l))

end

/-- The entries of fields that are all written. -/
def fieldValues (fs : List (String × Literal)) : List (Value × Value) :=
  fs.map fun f => (.text f.1, f.2.toValue)

theorem putEntry_of_absent {name : String} {v : Value} {es : List (Value × Value)}
    (h : entriesJson es = true) (habsent : Value.entry? name es = none) :
    Value.putEntry (.text name) v es = es ++ [(.text name, v)] := by
  induction es with
  | nil => rfl
  | cons e es ih =>
    obtain ⟨k, w, rfl, -, -, hes⟩ := Value.entriesJson_cons h
    rw [Value.entry?] at habsent
    split at habsent
    · cases habsent
    · rename_i hk
      simp [Value.putEntry, Value.same, hk, ih hes habsent]

theorem nodup_of_fieldsPlain {fs : List (String × Literal)} (h : fieldsPlain fs = true) :
    (fs.map (·.1)).Nodup := by
  induction fs with
  | nil => exact .nil
  | cons f fs ih =>
    simp only [fieldsPlain, Bool.and_eq_true, Bool.not_eq_true', List.contains_eq_mem,
      decide_eq_false_iff_not] at h
    exact List.nodup_cons.mpr ⟨h.1.2, ih h.2⟩

/-- Where no name occurs twice, the fields are written one after the other. -/
theorem toEntries_eq {fs : List (String × Literal)} (hn : (fs.map (·.1)).Nodup)
    {es : List (Value × Value)} (hes : entriesJson es = true)
    (hnew : ∀ f ∈ fs, Value.entry? f.1 es = none) : toEntries fs es = es ++ fieldValues fs := by
  induction fs generalizing es with
  | nil => simp [toEntries, fieldValues]
  | cons f fs ih =>
    obtain ⟨name, l⟩ := f
    rw [List.map_cons, List.nodup_cons] at hn
    have habsent : Value.entry? name es = none := hnew _ List.mem_cons_self
    rw [toEntries, putField, putEntry_of_absent hes habsent]
    rw [ih hn.2]
    · simp [fieldValues]
    · rw [← putEntry_of_absent hes habsent]
      exact Value.entriesJson_putEntry hes name (isJson_toValue l)
    · intro f hf
      have hne : name ≠ f.1 := by
        rintro rfl
        exact hn.1 (List.mem_map.mpr ⟨f, hf, rfl⟩)
      rw [Value.entry?_append, hnew f (List.mem_cons_of_mem _ hf), Value.entry?, if_neg hne]
      rfl

mutual

theorem ofValue_toValue : (l : Literal) → l.isPlain = true → ofValue l.toValue = .ok l
  | .null, _ | .bool _, _ | .int _, _ | .decimal _, _ | .text _, _ => rfl
  | .uniqueSequence _, h => by simp [isPlain] at h
  | .sequence items, h => by
    rw [toValue, ofValue, ofValues_toValues items h]
    rfl
  | .object fields, h => by
    rw [toValue, toEntries_eq (nodup_of_fieldsPlain h) rfl (fun _ _ => rfl), List.nil_append,
      ofValue, ofEntries_fieldValues fields h]
    rfl

theorem ofValues_toValues : (ls : List Literal) → allPlain ls = true →
    ofValues (toValues ls) = .ok ls
  | [], _ => rfl
  | l :: ls, h => by
    simp only [allPlain, Bool.and_eq_true] at h
    rw [toValues, ofValues, ofValue_toValue l h.1, ofValues_toValues ls h.2]
    rfl

theorem ofEntries_fieldValues : (fs : List (String × Literal)) → fieldsPlain fs = true →
    ofEntries (fieldValues fs) = .ok fs
  | [], _ => rfl
  | (name, l) :: fs, h => by
    simp only [fieldsPlain, Bool.and_eq_true] at h
    have hrest := ofEntries_fieldValues fs h.2
    rw [fieldValues] at hrest
    rw [fieldValues, List.map_cons, ofEntries, ofValue_toValue l h.1.1, hrest]
    rfl

end

/-! ## Declared literals -/

mutual

/-- A place stands for one literal only: the one that is read from it. -/
theorem ofValue_of : (v : Value) → {l : Literal} → Of v l → ofValue v = .ok l
  | .marked m v, l, h => by
    cases h with
    | marked h => exact ofValue_of v h
  | .list xs, l, h => by
    cases h with
    | sequence h =>
      rw [ofValue, ofValues_of xs h]
      rfl
  | .mapping es, l, h => by
    cases h with
    | object h =>
      rw [ofValue, ofEntries_of es h]
      rfl
  | .null, l, h | .bool _, l, h | .int _, l, h | .double _, l, h | .text _, l, h => by
    cases h
    rfl

theorem ofValues_of : (xs : List Value) → {ls : List Literal} → AllOf xs ls → ofValues xs = .ok ls
  | [], _, h => by
    cases h
    rfl
  | x :: xs, _, h => by
    cases h with
    | cons h hs =>
      rw [ofValues, ofValue_of x h, ofValues_of xs hs]
      rfl

theorem ofEntries_of : (es : List (Value × Value)) → {fs : List (String × Literal)} →
    FieldsOf es fs → ofEntries es = .ok fs
  | [], _, h => by
    cases h
    rfl
  | (k, v) :: es, _, h => by
    cases h with
    | cons h hs =>
      rw [ofEntries, ofValue_of v h, ofEntries_of es hs]
      rfl

end

/-- The raw value of a literal that comes back stands for this literal. -/
theorem eq_of_of_toValue {l l' : Literal} (hl : l.isPlain = true) (h : Of l.toValue l') :
    l' = l := by
  have := ofValue_of _ h
  rw [ofValue_toValue l hl] at this
  cases this
  rfl

theorem eq_of_allOf_toValues {ls ls' : List Literal} (hl : allPlain ls = true)
    (h : AllOf (toValues ls) ls') : ls' = ls := by
  have := ofValues_of _ h
  rw [ofValues_toValues ls hl] at this
  cases this
  rfl

theorem entry?_isSome_of_fieldsOf {es : List (Value × Value)} {fs : List (String × Literal)}
    (h : FieldsOf es fs) {name : String} (hm : name ∈ fs.map (·.1)) :
    (Value.entry? name es).isSome = true := by
  induction fs generalizing es with
  | nil => cases hm
  | cons f fs ih =>
    cases h with
    | cons _ hs =>
      rw [Value.entry?]
      split
      · rfl
      · rename_i k _ _ _ hk
        obtain rfl | hm := List.mem_cons.mp hm
        · exact absurd rfl hk
        · exact ih hs hm

mutual

theorem isPlain_of : (v : Value) → {l : Literal} → v.isJson = true → Of v l → l.isPlain = true
  | .marked m v, l, hj, h => by
    cases h with
    | marked h => exact isPlain_of v hj h
  | .list xs, l, hj, h => by
    cases h with
    | sequence h =>
      rw [isPlain]
      exact allPlain_of xs hj h
  | .mapping es, l, hj, h => by
    cases h with
    | object h =>
      rw [isPlain]
      exact fieldsPlain_of es hj h
  | .null, l, _, h | .bool _, l, _, h | .int _, l, _, h | .double _, l, _, h
  | .text _, l, _, h => by
    cases h
    rfl
  | .bytes _, _, hj, _ | .date _, _, hj, _ | .moment _, _, hj, _ | .member _, _, hj, _
  | .tuple _, _, hj, _ | .set _, _, hj, _ | .unordered _, _, hj, _ | .frozen _, _, hj, _
  | .again .., _, hj, _ => by
    cases hj

theorem allPlain_of : (xs : List Value) → {ls : List Literal} → allJson xs = true →
    AllOf xs ls → allPlain ls = true
  | [], _, _, h => by
    cases h
    rfl
  | x :: xs, _, hj, h => by
    simp only [allJson, Bool.and_eq_true] at hj
    cases h with
    | cons h hs =>
      rw [allPlain, isPlain_of x hj.1 h, allPlain_of xs hj.2 hs]
      rfl

theorem fieldsPlain_of : (es : List (Value × Value)) → {fs : List (String × Literal)} →
    entriesJson es = true → FieldsOf es fs → fieldsPlain fs = true
  | [], _, _, h => by
    cases h
    rfl
  | (k, v) :: es, _, hj, h => by
    obtain ⟨name, w, he, hw, hnone, hes⟩ := Value.entriesJson_cons hj
    cases he
    cases h with
    | @cons _ _ _ l fs h hs =>
      have hnew : ¬ name ∈ fs.map (·.1) := by
        intro hm
        have := entry?_isSome_of_fieldsOf hs hm
        rw [hnone] at this
        cases this
      rw [fieldsPlain, isPlain_of v hw h, fieldsPlain_of es hes hs]
      simpa using hnew

end

/-! ## Defaults -/

/-- A default is written as the literal that it was before it got its flavour. -/
theorem flavoured_of_defaultOf {unique : Bool} {v : Value} {l : Literal} (hj : v.isJson = true)
    (h : Schema.DefaultOf unique v l) :
    ∃ plain : Literal, plain.isPlain = true ∧ plain.toValue = l.toValue ∧
      plain.flavoured unique = l := by
  cases h with
  | uniqueSequence hu hl =>
    rw [hu]
    exact ⟨_, isPlain_of v hj hl, rfl, rfl⟩
  | plain hl hn =>
    refine ⟨l, isPlain_of v hj hl, rfl, ?_⟩
    cases l with
    | sequence items =>
      rw [flavoured, if_neg fun hu => hn hu items rfl]
    | _ => rfl

end SchemaModel.Literal
