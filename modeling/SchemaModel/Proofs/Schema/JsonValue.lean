import SchemaModel.Document.Format
import SchemaModel.Proofs.Runs
import SchemaModel.Proofs.Schema.Pointer

/-!
Documents as they are written in JSON: the keys of a mapping are texts, each of which occurs once,
and there are no other kinds of values than those that the notation has.
-/
namespace SchemaModel

namespace Value

mutual

/-- Whether a value can be written in JSON. -/
def isJson : Value → Bool
  | .null | .bool _ | .int _ | .double _ | .text _ => true
  | .list xs => allJson xs
  | .mapping es => entriesJson es
  | .marked _ v => v.isJson
  | _ => false

def allJson : List Value → Bool
  | [] => true
  | x :: xs => x.isJson && allJson xs

def entriesJson : List (Value × Value) → Bool
  | [] => true
  | (.text k, v) :: es => v.isJson && (Value.entry? k es).isNone && entriesJson es
  | _ :: _ => false

end

theorem isJson_of_mem {xs : List Value} (h : allJson xs = true) {x : Value} (hx : x ∈ xs) :
    x.isJson = true := by
  induction xs with
  | nil => cases hx
  | cons y ys ih =>
    simp only [allJson, Bool.and_eq_true] at h
    obtain rfl | hx := List.mem_cons.mp hx
    · exact h.1
    · exact ih h.2 hx

theorem entry?_append (name : String) (es fs : List (Value × Value)) :
    entry? name (es ++ fs) = (Value.entry? name es).or (Value.entry? name fs) := by
  induction es with
  | nil => rfl
  | cons e es ih =>
    obtain ⟨k, v⟩ := e
    rw [List.cons_append]
    cases k with
    | text k =>
      rw [Value.entry?, Value.entry?]
      split
      · rfl
      · exact ih
    | _ => exact ih

/-- The entries of a mapping in JSON, the first in front. -/
theorem entriesJson_cons {e : Value × Value} {es : List (Value × Value)}
    (h : entriesJson (e :: es) = true) : ∃ k v, e = (.text k, v) ∧ v.isJson = true ∧
      entry? k es = none ∧ entriesJson es = true := by
  obtain ⟨key, v⟩ := e
  cases key with
  | text k =>
    simp only [entriesJson, Bool.and_eq_true, Option.isNone_iff_eq_none] at h
    exact ⟨k, v, rfl, h.1.1, h.1.2, h.2⟩
  | _ => simp [entriesJson] at h

theorem exists_name_of_mem {es : List (Value × Value)} (h : entriesJson es = true) {e : Value × Value}
    (he : e ∈ es) : ∃ name, e.1 = .text name := by
  induction es with
  | nil => cases he
  | cons f es ih =>
    obtain ⟨k, w, rfl, -, -, hes⟩ := entriesJson_cons h
    obtain rfl | he := List.mem_cons.mp he
    · exact ⟨k, rfl⟩
    · exact ih hes he

theorem isJson_of_entry? {es : List (Value × Value)} (h : entriesJson es = true) {name : String}
    {v : Value} (hv : entry? name es = some v) : v.isJson = true := by
  induction es with
  | nil => simp [Value.entry?] at hv
  | cons e es ih =>
    obtain ⟨k, w, rfl, hw, -, hes⟩ := entriesJson_cons h
    rw [Value.entry?] at hv
    split at hv
    · cases hv
      exact hw
    · exact ih hes hv

/-- Since keys occur once, every entry is found by its key. -/
theorem entry?_of_mem {es : List (Value × Value)} (h : entriesJson es = true) {name : String}
    {v : Value} (hm : (.text name, v) ∈ es) : entry? name es = some v := by
  induction es with
  | nil => cases hm
  | cons e es ih =>
    obtain ⟨k, w, rfl, -, hnone, hes⟩ := entriesJson_cons h
    rw [Value.entry?]
    obtain hm | hm := List.mem_cons.mp hm
    · cases hm
      exact if_pos rfl
    · have hfound := ih hes hm
      split
      · rename_i hk
        rw [hk, hfound] at hnone
        cases hnone
      · exact hfound

/-! ## Giving marks -/

theorem entry?_markEntries (name : String) (next : Nat) (es : List (Value × Value))
    (h : entry? name es = none) : entry? name (markEntries next es).1 = none := by
  induction es generalizing next with
  | nil => rfl
  | cons e es ih =>
    obtain ⟨key, v⟩ := e
    rw [markEntries]
    cases key
    case text k =>
      rw [Value.entry?] at h ⊢
      split at h
      · cases h
      · rename_i hk
        rw [if_neg hk]
        exact ih _ h
    all_goals exact ih _ h

mutual

theorem isJson_mark (next : Nat) : (v : Value) → v.isJson = true → (v.mark next).1.isJson = true
  | .list xs, h => by
    rw [isJson] at h
    simpa [mark, isJson] using allJson_markAll (next + 1) xs h
  | .mapping es, h => by
    rw [isJson] at h
    simpa [mark, isJson] using entriesJson_markEntries (next + 1) es h
  | .null, h | .bool _, h | .int _, h | .double _, h | .text _, h | .bytes _, h | .date _, h
  | .moment _, h | .member _, h | .tuple _, h | .set _, h | .unordered _, h | .frozen _, h
  | .marked .., h | .again .., h => h

theorem allJson_markAll (next : Nat) : (xs : List Value) → allJson xs = true →
    allJson (markAll next xs).1 = true
  | [], _ => rfl
  | x :: xs, h => by
    simp only [allJson, Bool.and_eq_true] at h
    simp only [markAll, allJson, Bool.and_eq_true]
    exact ⟨isJson_mark next x h.1, allJson_markAll _ xs h.2⟩

theorem entriesJson_markEntries (next : Nat) : (es : List (Value × Value)) →
    entriesJson es = true → entriesJson (markEntries next es).1 = true
  | [], _ => rfl
  | (k, v) :: es, h => by
    obtain ⟨name, w, he, hv, hnone, hes⟩ := entriesJson_cons h
    cases he
    simp only [markEntries, entriesJson, Bool.and_eq_true, Option.isNone_iff_eq_none]
    exact ⟨⟨isJson_mark next v hv, entry?_markEntries name _ es hnone⟩,
      entriesJson_markEntries _ es hes⟩

end

/-! ## Reading texts -/

theorem entry?_putEntry_of_ne {name key : String} (hne : name ≠ key) (v : Value)
    (es : List (Value × Value)) : entry? name (putEntry (.text key) v es) = entry? name es := by
  induction es with
  | nil => simp [putEntry, entry?, Ne.symm hne]
  | cons e es ih =>
    obtain ⟨k, w⟩ := e
    rw [putEntry]
    cases k
    case text k =>
      by_cases hk : k = key
      · subst hk
        simp [same, entry?, Ne.symm hne]
      · simp only [same, beq_iff_eq, hk, if_false, entry?, ih]
    all_goals simp [same, entry?, ih]

theorem entry?_putEntry_self (name : String) (v : Value) (es : List (Value × Value)) :
    entry? name (putEntry (.text name) v es) = some v := by
  induction es with
  | nil => simp [putEntry, entry?]
  | cons e es ih =>
    obtain ⟨k, w⟩ := e
    rw [putEntry]
    cases k
    case text k =>
      by_cases hk : k = name
      · simp [same, entry?, hk]
      · simp [same, entry?, hk, ih]
    all_goals simp [same, entry?, ih]

theorem entriesJson_putEntry {es : List (Value × Value)} (h : entriesJson es = true) (key : String)
    {v : Value} (hv : v.isJson = true) : entriesJson (putEntry (.text key) v es) = true := by
  induction es with
  | nil => simp [putEntry, entriesJson, hv, entry?]
  | cons e es ih =>
    obtain ⟨k, w, rfl, hw, hnone, hes⟩ := entriesJson_cons h
    rw [putEntry]
    by_cases hk : k = key
    · subst hk
      simp [same, entriesJson, hv, hnone, hes]
    · simp [same, hk, entriesJson, hw, entry?_putEntry_of_ne hk, hnone, ih hes]

end Value

namespace Json

open Value

/-- Properties that values have when they are read: `P` of a value, `Q` of the elements of a list, and
`R` of the entries of a mapping, which are put in one after the other. -/
structure Keeps (P : Value → Prop) (Q : List Value → Prop) (R : List (Value × Value) → Prop) :
    Prop where
  constant : ∀ c ∈ constants, P c.2
  int : ∀ i, P (.int i)
  double : ∀ x, P (.double x)
  text : ∀ s, P (.text s)
  nil : Q []
  cons : ∀ {x xs}, P x → Q xs → Q (x :: xs)
  list : ∀ {xs}, Q xs → P (.list xs)
  empty : R []
  put : ∀ {es v} key, R es → P v → R (putEntry (.text key) v es)
  mapping : ∀ {es}, R es → P (.mapping es)

variable {P : Value → Prop} {Q : List Value → Prop} {R : List (Value × Value) → Prop}

theorem Keeps.of_constant? (hk : Keeps P Q R) {cs rest : List Char} {v : Value}
    (h : constant? cs = some (v, rest)) : P v := by
  obtain ⟨⟨name, w⟩, hm, hw⟩ := List.exists_of_findSome?_eq_some h
  simp only [Option.ite_none_right_eq_some, Option.some.injEq, Prod.mk.injEq] at hw
  obtain ⟨-, rfl, -⟩ := hw
  exact hk.constant _ hm

theorem Keeps.of_number? (hk : Keeps P Q R) {cs rest : List Char} {v : Value}
    (h : number? cs = some (v, rest)) : P v := by
  simp only [number?, Option.bind_eq_bind, Option.bind_eq_some_iff] at h
  obtain ⟨⟨whole, after⟩, -, h⟩ := h
  split at h
  · split at h <;> cases h
    exact hk.int _
  · cases h
    exact hk.double _

/-- What is read with so much fuel has the properties. -/
structure Reads (P : Value → Prop) (Q : List Value → Prop) (R : List (Value × Value) → Prop)
    (fuel : Nat) : Prop where
  value : ∀ {cs v rest}, value fuel cs = .ok (v, rest) → P v
  elements : ∀ {cs xs rest}, elements fuel cs = .ok (xs, rest) → Q xs
  members : ∀ {es cs fs rest}, R es → members fuel es cs = .ok (fs, rest) → R fs

variable {fuel : Nat}

theorem Reads.of_value (hk : Keeps P Q R) (h : Reads P Q R fuel) {cs rest : List Char} {v : Value}
    (hv : Json.value (fuel + 1) cs = .ok (v, rest)) : P v := by
  unfold Json.value at hv
  split at hv
  · cases hs : string _ <;> rw [hs] at hv <;> cases hv
    exact hk.text _
  · split at hv
    · cases hv
      exact hk.list hk.nil
    · obtain ⟨p, hx, hv⟩ := Fallible.bind_eq_ok.mp hv
      cases hv
      exact hk.list (h.elements hx)
  · split at hv
    · cases hv
      exact hk.mapping hk.empty
    · obtain ⟨p, hx, hv⟩ := Fallible.bind_eq_ok.mp hv
      cases hv
      exact hk.mapping (h.members hk.empty hx)
  · split at hv
    · rename_i found hfound
      cases hv
      obtain hc | ⟨-, hn⟩ := Option.or_eq_some_iff.mp hfound
      · exact hk.of_constant? hc
      · exact hk.of_number? hn
    · cases hv

theorem Reads.of_elements (hk : Keeps P Q R) (h : Reads P Q R fuel) {cs rest : List Char}
    {xs : List Value} (hxs : Json.elements (fuel + 1) cs = .ok (xs, rest)) : Q xs := by
  unfold Json.elements at hxs
  obtain ⟨p, hx, hxs⟩ := Fallible.bind_eq_ok.mp hxs
  simp only at hxs
  split at hxs
  · cases hxs
    exact hk.cons (h.value hx) hk.nil
  · obtain ⟨q, hq, hxs⟩ := Fallible.bind_eq_ok.mp hxs
    cases hxs
    exact hk.cons (h.value hx) (h.elements hq)
  · cases hxs

theorem Reads.of_members (hk : Keeps P Q R) (h : Reads P Q R fuel) {es fs : List (Value × Value)}
    {cs rest : List Char} (hes : R es) (hfs : Json.members (fuel + 1) es cs = .ok (fs, rest)) :
    R fs := by
  unfold Json.members at hfs
  split at hfs
  · obtain ⟨k, -, hfs⟩ := Fallible.bind_eq_ok.mp hfs
    simp only at hfs
    split at hfs
    · obtain ⟨p, hp, hfs⟩ := Fallible.bind_eq_ok.mp hfs
      -- a key that is there already keeps its place and gets the new value
      have hput key := hk.put key hes (h.value hp)
      split at hfs
      · cases hfs
        exact hput _
      · exact h.members (hput _) hfs
      · cases hfs
    · cases hfs
  · cases hfs

/-- Every part that is read has the properties, however deep it is nested. -/
theorem Keeps.reads (hk : Keeps P Q R) (fuel : Nat) : Reads P Q R fuel := by
  induction fuel with
  | zero => constructor <;> simp [value, elements, members]
  | succ fuel ih => exact ⟨ih.of_value hk, ih.of_elements hk, ih.of_members hk⟩

theorem Keeps.of_read (hk : Keeps P Q R) {text : String} {v : Value} (h : read text = .ok v) :
    P v := by
  have hd := Fallible.mapError_eq_ok.mp h
  unfold document at hd
  split at hd
  · cases hd
  · obtain ⟨p, hx, hp⟩ := Fallible.bind_eq_ok.mp hd
    simp only at hp
    split at hp
    · cases hp
      exact (hk.reads _).value hx
    · cases hp

theorem keeps_json : Keeps (fun v => v.isJson = true) (fun xs => allJson xs = true)
    (fun es => entriesJson es = true) where
  constant := by simp [constants, isJson]
  int _ := rfl
  double _ := rfl
  text _ := rfl
  nil := rfl
  cons hx hxs := by simp [allJson, hx, hxs]
  list h := h
  empty := rfl
  put key hes hv := entriesJson_putEntry hes key hv
  mapping h := h

end Json

namespace Document

/-- A document that is written in JSON mentions no objects of a table. -/
structure IsJson (d : Document) : Prop where
  noObjects : d.objects = #[]
  value : d.value.isJson = true

variable {d : Document}

theorem isJson_ofValue {v : Value} (h : v.isJson = true) : (ofValue v).IsJson :=
  ⟨rfl, Value.isJson_mark 0 v h⟩

theorem isJson_of_readJson {text : String} (h : DocumentFormat.json.read text = .ok d) :
    d.IsJson := by
  simp only [DocumentFormat.read] at h
  obtain ⟨v, hv, h⟩ := Fallible.bind_eq_ok.mp h
  cases h
  exact isJson_ofValue (Json.keeps_json.of_read (Fallible.mapError_eq_ok.mp hv))

theorem IsJson.closed_eq (h : d.IsJson) (v : Value) : d.closed v = v := by
  simp [closed, h.noObjects]

theorem isJson_content (d : Document) {v : Value} (hv : v.isJson = true) :
    (d.content v).isJson = true := by
  cases v with
  | again m isMapping => simp [Value.isJson] at hv
  | marked m w => exact hv
  | _ => exact hv

theorem entriesJson_of_content {v : Value} {es : List (Value × Value)} (hv : v.isJson = true)
    (hc : d.content v = .mapping es) : Value.entriesJson es = true := by
  have := isJson_content d hv
  rwa [hc, Value.isJson] at this

/-- Whatever a pointer leads to is in JSON as well. -/
theorem IsJson.resolve (h : d.IsJson) {pointer : String} {v : Value}
    (hv : Pointer.resolve d pointer = .ok v) : v.isJson = true := by
  obtain ⟨ts, -, hfold⟩ := Pointer.resolve_ok_iff.mp hv
  refine Fallible.foldlM_keeps (P := fun w => w.isJson = true) (fun w t u hw hstep => ?_) h.value
    hfold
  obtain ⟨es, name, hc, he⟩ | ⟨xs, hc, hm⟩ := Pointer.step_ok hstep
  · exact Value.isJson_of_entry? (entriesJson_of_content hw hc) he
  · have hxs := isJson_content d hw
    rw [hc, Value.isJson] at hxs
    exact Value.isJson_of_mem hxs hm

end Document
end SchemaModel
