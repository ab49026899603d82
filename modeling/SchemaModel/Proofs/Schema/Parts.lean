import SchemaModel.Proofs.Schema.JsonValue

/-!
What stands inside a value: it is smaller, it holds no texts that are not held around it, and in a
value that was decoded from JSON it is no object that stands around it.
-/
namespace SchemaModel

namespace Value

/-! ## Inside a value -/

mutual

/-- The texts that entries of a value hold, those of all references among them. -/
def heldTexts : Value → List String
  | .list xs => heldByAll xs
  | .mapping es => heldByEntries es
  | .marked _ v => v.heldTexts
  | _ => []

def heldByAll : List Value → List String
  | [] => []
  | x :: xs => x.heldTexts ++ heldByAll xs

def heldByEntries : List (Value × Value) → List String
  | [] => []
  | (_, v) :: es => v.text?.toList ++ v.heldTexts ++ heldByEntries es

end

mutual

/-- Whether no object of a value stands inside itself, nor inside those of `path`. -/
def isApart (path : List Nat) : Value → Bool
  | .list xs => allApart path xs
  | .mapping es => entriesApart path es
  | .marked m v => !path.contains m && isApart (m :: path) v
  | _ => true

def allApart (path : List Nat) : List Value → Bool
  | [] => true
  | x :: xs => x.isApart path && allApart path xs

def entriesApart (path : List Nat) : List (Value × Value) → Bool
  | [] => true
  | (_, v) :: es => v.isApart path && entriesApart path es

end

mutual

/-- Whether no object of a value has a mark. -/
def isBare : Value → Bool
  | .list xs => allBare xs
  | .mapping es => entriesBare es
  | .marked .. => false
  | _ => true

def allBare : List Value → Bool
  | [] => true
  | x :: xs => x.isBare && allBare xs

def entriesBare : List (Value × Value) → Bool
  | [] => true
  | (_, v) :: es => v.isBare && entriesBare es

end

variable {v w : Value} {path path' : List Nat}

theorem heldByAll_eq (xs : List Value) : heldByAll xs = xs.flatMap heldTexts := by
  induction xs with
  | nil => rfl
  | cons x xs ih => rw [heldByAll, List.flatMap_cons, ih]

theorem heldByEntries_eq (es : List (Value × Value)) :
    heldByEntries es = es.flatMap fun e => e.2.text?.toList ++ e.2.heldTexts := by
  induction es with
  | nil => rfl
  | cons e es ih => rw [heldByEntries, List.flatMap_cons, ih]

theorem allApart_iff {xs : List Value} :
    allApart path xs = true ↔ ∀ x ∈ xs, x.isApart path = true := by
  induction xs with
  | nil => simp [allApart]
  | cons x xs ih => simp [allApart, ih]

theorem entriesApart_iff {es : List (Value × Value)} :
    entriesApart path es = true ↔ ∀ e ∈ es, e.2.isApart path = true := by
  induction es with
  | nil => simp [entriesApart]
  | cons e es ih =>
    obtain ⟨k, v⟩ := e
    simp [entriesApart, ih]

theorem count_le_countAll {xs : List Value} (h : v ∈ xs) :
    Document.count v ≤ Document.countAll xs := by
  induction xs with
  | nil => cases h
  | cons x xs ih =>
    rw [Document.countAll]
    obtain rfl | h := List.mem_cons.mp h
    · omega
    · have := ih h
      omega

theorem count_le_countEntries {es : List (Value × Value)} {e : Value × Value} (h : e ∈ es) :
    Document.count e.2 ≤ Document.countEntries es := by
  induction es with
  | nil => cases h
  | cons f es ih =>
    obtain ⟨k, u⟩ := f
    rw [Document.countEntries]
    obtain rfl | h := List.mem_cons.mp h
    · dsimp only
      omega
    · have := ih h
      omega

/-- A value stands directly inside another one. -/
inductive Part : Value → Value → Prop
  | item {xs : List Value} {w : Value} (h : w ∈ xs) : Part (.list xs) w
  | entry {es : List (Value × Value)} {e : Value × Value} (h : e ∈ es) : Part (.mapping es) e.2

theorem mem_of_entry {es : List (Value × Value)} {name : String}
    (h : entry? name es = some w) : (.text name, w) ∈ es := by
  induction es with
  | nil => cases h
  | cons e es ih =>
    obtain ⟨k, u⟩ := e
    cases k
    case text key =>
      rw [Value.entry?] at h
      split at h
      · rename_i hk
        cases h
        rw [hk]
        exact List.mem_cons_self
      · exact List.mem_cons_of_mem _ (ih h)
    all_goals exact List.mem_cons_of_mem _ (ih h)

theorem Part.of_entry {es : List (Value × Value)} {name : String} (h : entry? name es = some w) :
    Part (.mapping es) w :=
  .entry (mem_of_entry h)

theorem Part.count_lt (h : Part v w) : Document.count w < Document.count v := by
  cases h with
  | item h => exact Nat.lt_succ_of_le (count_le_countAll h)
  | entry h => exact Nat.lt_succ_of_le (count_le_countEntries h)

theorem Part.heldTexts_subset (h : Part v w) : w.heldTexts ⊆ v.heldTexts := by
  intro text ht
  cases h with
  | item h =>
    rw [heldTexts, heldByAll_eq]
    exact List.mem_flatMap.mpr ⟨w, h, ht⟩
  | @entry es e h =>
    rw [heldTexts, heldByEntries_eq]
    exact List.mem_flatMap.mpr ⟨e, h, List.mem_append_right _ ht⟩

theorem Part.isJson (h : Part v w) (hv : v.isJson = true) : w.isJson = true := by
  cases h with
  | item h => exact isJson_of_mem hv h
  | @entry es e h =>
    obtain ⟨key, u⟩ := e
    obtain ⟨name, rfl⟩ := exists_name_of_mem hv h
    exact isJson_of_entry? hv (entry?_of_mem hv h)

theorem Part.isApart (h : Part v w) (hv : v.isApart path = true) : w.isApart path = true := by
  cases h with
  | item h => exact allApart_iff.mp hv w h
  | @entry es e h => exact entriesApart_iff.mp hv e h

/-- The text of a reference is held by its entry. -/
theorem mem_heldTexts_of_entry? {es : List (Value × Value)} {name text : String}
    (h : entry? name es = some (.text text)) : text ∈ (Value.mapping es).heldTexts := by
  rw [heldTexts, heldByEntries_eq]
  exact List.mem_flatMap.mpr ⟨_, mem_of_entry h, by simp [text?]⟩

/-! ## Sizes -/

theorem count_pos : (v : Value) → 1 ≤ Document.count v
  | .marked _ v => count_pos v
  | .null | .bool _ | .int _ | .double _ | .text _ | .bytes _ | .date _ | .moment _ | .member _
  | .list _ | .tuple _ | .set _ | .unordered _ | .frozen _ | .mapping _ | .again .. => by
    simp [Document.count]

mutual

/-- Every text that is held comes with its key. -/
theorem length_heldTexts : (v : Value) → 2 * v.heldTexts.length ≤ Document.count v
  | .list xs => by
    have := length_heldByAll xs
    simp only [heldTexts, Document.count]
    omega
  | .mapping es => by
    have := length_heldByEntries es
    simp only [heldTexts, Document.count]
    omega
  | .marked _ v => length_heldTexts v
  | .null | .bool _ | .int _ | .double _ | .text _ | .bytes _ | .date _ | .moment _ | .member _
  | .tuple _ | .set _ | .unordered _ | .frozen _ | .again .. => by simp [heldTexts]

theorem length_heldByAll : (xs : List Value) →
    2 * (heldByAll xs).length ≤ Document.countAll xs
  | [] => Nat.le_refl _
  | x :: xs => by
    have := length_heldTexts x
    have := length_heldByAll xs
    simp only [heldByAll, Document.countAll, List.length_append]
    omega

theorem length_heldByEntries : (es : List (Value × Value)) →
    2 * (heldByEntries es).length ≤ Document.countEntries es
  | [] => Nat.le_refl _
  | (k, v) :: es => by
    have hk := count_pos k
    have hes := length_heldByEntries es
    have hv := length_heldTexts v
    -- a text holds no further ones
    have hboth : 2 * (v.text?.toList ++ v.heldTexts).length ≤ 1 + Document.count v := by
      cases v with
      | text s => simp [text?, heldTexts, Document.count]
      | _ => exact Nat.le_add_left_of_le hv
    simp only [heldByEntries, Document.countEntries, List.length_append] at hboth ⊢
    omega

end

/-! ## Objects that stand apart -/

mutual

/-- With fewer objects around it a value is apart as well. -/
theorem isApart_mono {path path' : List Nat} (hsub : path' ⊆ path) : (v : Value) →
    v.isApart path = true → v.isApart path' = true
  | .list xs, h => allApart_mono hsub xs h
  | .mapping es, h => entriesApart_mono hsub es h
  | .marked m v, h => by
    simp only [isApart, Bool.and_eq_true, Bool.not_eq_true', List.contains_eq_mem,
      decide_eq_false_iff_not] at h ⊢
    exact ⟨fun hm => h.1 (hsub hm), isApart_mono (List.cons_subset_cons m hsub) v h.2⟩
  | .null, _ | .bool _, _ | .int _, _ | .double _, _ | .text _, _ | .bytes _, _ | .date _, _
  | .moment _, _ | .member _, _ | .tuple _, _ | .set _, _ | .unordered _, _ | .frozen _, _
  | .again .., _ => rfl

theorem allApart_mono {path path' : List Nat} (hsub : path' ⊆ path) : (xs : List Value) →
    allApart path xs = true → allApart path' xs = true
  | [], _ => rfl
  | x :: xs, h => by
    simp only [allApart, Bool.and_eq_true] at h ⊢
    exact ⟨isApart_mono hsub x h.1, allApart_mono hsub xs h.2⟩

theorem entriesApart_mono {path path' : List Nat} (hsub : path' ⊆ path) :
    (es : List (Value × Value)) → entriesApart path es = true → entriesApart path' es = true
  | [], _ => rfl
  | (_, v) :: es, h => by
    simp only [entriesApart, Bool.and_eq_true] at h ⊢
    exact ⟨isApart_mono hsub v h.1, entriesApart_mono hsub es h.2⟩

end

mutual

theorem le_mark (next : Nat) : (v : Value) → next ≤ (v.mark next).2
  | .list xs => Nat.le_of_succ_le (le_markAll (next + 1) xs)
  | .mapping es => Nat.le_of_succ_le (le_markEntries (next + 1) es)
  | .null | .bool _ | .int _ | .double _ | .text _ | .bytes _ | .date _ | .moment _ | .member _
  | .tuple _ | .set _ | .unordered _ | .frozen _ | .marked .. | .again .. => Nat.le_refl _

theorem le_markAll (next : Nat) : (xs : List Value) → next ≤ (markAll next xs).2
  | [] => Nat.le_refl _
  | x :: xs => Nat.le_trans (le_mark next x) (le_markAll _ xs)

theorem le_markEntries (next : Nat) : (es : List (Value × Value)) → next ≤ (markEntries next es).2
  | [] => Nat.le_refl _
  | (_, v) :: es => Nat.le_trans (le_mark next v) (le_markEntries _ es)

end

theorem lt_of_mem_path {path : List Nat} {next : Nat} (h : ∀ m ∈ path, m < next) :
    ∀ m ∈ next :: path, m < next + 1 := by
  rintro m (_ | ⟨_, hm⟩)
  · exact Nat.lt_succ_self _
  · exact Nat.lt_succ_of_lt (h m hm)

mutual

/-- Marks are given in order, so that an object has another one than those around it. -/
theorem isApart_mark {path : List Nat} {next : Nat} (hpath : ∀ m ∈ path, m < next) : (v : Value) →
    v.isBare = true → (v.mark next).1.isApart path = true
  | .list xs, h => by
    simp only [mark, isApart, Bool.and_eq_true, Bool.not_eq_true', List.contains_eq_mem,
      decide_eq_false_iff_not]
    exact ⟨fun hm => Nat.lt_irrefl _ (hpath _ hm), allApart_markAll (lt_of_mem_path hpath) xs h⟩
  | .mapping es, h => by
    simp only [mark, isApart, Bool.and_eq_true, Bool.not_eq_true', List.contains_eq_mem,
      decide_eq_false_iff_not]
    exact ⟨fun hm => Nat.lt_irrefl _ (hpath _ hm),
      entriesApart_markEntries (lt_of_mem_path hpath) es h⟩
  | .null, _ | .bool _, _ | .int _, _ | .double _, _ | .text _, _ | .bytes _, _ | .date _, _
  | .moment _, _ | .member _, _ | .tuple _, _ | .set _, _ | .unordered _, _ | .frozen _, _
  | .again .., _ => rfl

theorem allApart_markAll {path : List Nat} {next : Nat} (hpath : ∀ m ∈ path, m < next) :
    (xs : List Value) → allBare xs = true → allApart path (markAll next xs).1 = true
  | [], _ => rfl
  | x :: xs, h => by
    simp only [allBare, Bool.and_eq_true] at h
    simp only [markAll, allApart, Bool.and_eq_true]
    exact ⟨isApart_mark hpath x h.1, allApart_markAll
      (fun m hm => Nat.lt_of_lt_of_le (hpath m hm) (le_mark next x)) xs h.2⟩

theorem entriesApart_markEntries {path : List Nat} {next : Nat} (hpath : ∀ m ∈ path, m < next) :
    (es : List (Value × Value)) → entriesBare es = true →
    entriesApart path (markEntries next es).1 = true
  | [], _ => rfl
  | (_, v) :: es, h => by
    simp only [entriesBare, Bool.and_eq_true] at h
    simp only [markEntries, entriesApart, Bool.and_eq_true]
    exact ⟨isApart_mark hpath v h.1, entriesApart_markEntries
      (fun m hm => Nat.lt_of_lt_of_le (hpath m hm) (le_mark next v)) es h.2⟩

end

theorem entriesBare_putEntry {es : List (Value × Value)} (key : Value) (h : entriesBare es = true)
    (hv : v.isBare = true) : entriesBare (putEntry key v es) = true := by
  induction es with
  | nil => simp [putEntry, entriesBare, hv]
  | cons e es ih =>
    obtain ⟨k, w⟩ := e
    simp only [entriesBare, Bool.and_eq_true] at h
    rw [putEntry]
    split
    · simp [entriesBare, hv, h.2]
    · simp [entriesBare, h.1, ih h.2]

end Value

theorem Json.keeps_bare : Keeps (fun v => v.isBare = true) (fun xs => Value.allBare xs = true)
    (fun es => Value.entriesBare es = true) where
  constant := by simp [constants, Value.isBare]
  int _ := rfl
  double _ := rfl
  text _ := rfl
  nil := rfl
  cons hx hxs := by simp [Value.allBare, hx, hxs]
  list h := h
  empty := rfl
  put key hes hv := Value.entriesBare_putEntry _ hes hv
  mapping h := h

namespace Document

/-- A document in JSON in which no object is inside itself. -/
structure IsTree (d : Document) : Prop extends d.IsJson where
  apart : d.value.isApart [] = true

variable {d : Document}

theorem isTree_ofValue {v : Value} (hj : v.isJson = true) (hb : v.isBare = true) :
    (ofValue v).IsTree :=
  { isJson_ofValue hj with apart := Value.isApart_mark (by simp) v hb }

/-- What is read from a text is a tree. -/
theorem isTree_of_readJson {text : String} (h : DocumentFormat.json.read text = .ok d) :
    d.IsTree := by
  simp only [DocumentFormat.read] at h
  obtain ⟨v, hv, h⟩ := Fallible.bind_eq_ok.mp h
  cases h
  have hread := Fallible.mapError_eq_ok.mp hv
  exact isTree_ofValue (Json.keeps_json.of_read hread) (Json.keeps_bare.of_read hread)

end Document
end SchemaModel
