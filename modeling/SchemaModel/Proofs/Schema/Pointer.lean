import SchemaModel.Proofs.Runs
import SchemaModel.Schema.Pointer

/-!
Pointers to children. The pointer that is written for a property or for the items of a place leads
there, whatever the characters of the property's name.
-/
namespace SchemaModel.Pointer

/-! ## Tokens -/

theorem slash_not_mem_escape (cs : List Char) : '/' ∉ escape cs := by
  fun_induction escape cs with
  | case1 => simp
  | case2 cs ih => simpa using ih
  | case3 cs ih => simpa using ih
  | case4 c cs _ hslash ih =>
    simp only [List.mem_cons, not_or]
    exact ⟨fun he => hslash he.symm, ih⟩

theorem split_ne_nil (sep : Char) (cs : List Char) : split sep cs ≠ [] := by
  cases cs with
  | nil => simp [split]
  | cons c cs =>
    rw [split]
    split
    · simp
    · split <;> simp

theorem split_append (sep : Char) (xs ys : List Char) :
    split sep (xs ++ sep :: ys) = split sep xs ++ split sep ys := by
  induction xs with
  | nil => simp [split]
  | cons x xs ih =>
    rw [List.cons_append, split, split, ih]
    split
    · rfl
    · cases hs : split sep xs with
      | nil => exact absurd hs (split_ne_nil sep xs)
      | cons part parts => rfl

theorem split_of_not_mem {sep : Char} {cs : List Char} (h : sep ∉ cs) : split sep cs = [cs] := by
  induction cs with
  | nil => rfl
  | cons c cs ih =>
    simp only [List.mem_cons, not_or] at h
    rw [split, if_neg (Ne.symm h.1), ih h.2]

/-- What stands below a pointer adds its tokens. -/
theorem tokens?_append {pointer below : String} {ts : List (List Char)} {cs : List Char}
    (h : tokens? pointer = some ts) (hb : below.toList = '/' :: cs) :
    tokens? (pointer ++ below) = some (ts ++ (split '/' cs).map unescape) := by
  unfold tokens? at h ⊢
  rw [String.toList_append, hb]
  split at h
  · rename_i hp
    cases h
    simp [hp]
  · rename_i cs' hp
    cases h
    simp [hp, split_append]
  · cases h

theorem tokens?_property {pointer : String} {ts : List (List Char)} (name : String)
    (h : tokens? pointer = some ts) :
    tokens? (property pointer name) = some (ts ++ ["properties".toList, name.toList]) := by
  have hb : ("/properties/" ++ String.ofList (escape name.toList)).toList =
      '/' :: ("properties".toList ++ '/' :: escape name.toList) := by
    simp [String.toList_append]
  rw [property, String.append_assoc, tokens?_append h hb, split_append,
    split_of_not_mem (by decide), split_of_not_mem (slash_not_mem_escape _)]
  simp [unescape_escape, unescape]

theorem tokens?_items {pointer : String} {ts : List (List Char)} (h : tokens? pointer = some ts) :
    tokens? (items pointer) = some (ts ++ ["items".toList]) := by
  have hb : "/items".toList = '/' :: "items".toList := by decide
  rw [items, tokens?_append h hb, split_of_not_mem (by decide)]
  rfl

/-! ## Places -/

variable {document : Document} {pointer : String} {v : Value} {entries : List (Value × Value)}

theorem resolve_root : resolve document root = .ok document.value := rfl

theorem resolve_ok_iff : resolve document pointer = .ok v ↔
    ∃ ts, tokens? pointer = some ts ∧ ts.foldlM (step document) document.value = .ok v := by
  unfold resolve
  cases tokens? pointer <;> simp

theorem step_of_entry? {token : List Char} {w : Value} (hv : document.content v = .mapping entries)
    (he : Value.entry? (String.ofList token) entries = some w) : step document v token = .ok w := by
  simp [step, hv, he]

/-- A step goes from an object to an entry, or from a list to an item. -/
theorem step_ok {token : List Char} {w : Value} (h : step document v token = .ok w) :
    (∃ entries name, document.content v = .mapping entries ∧ Value.entry? name entries = some w) ∨
      ∃ xs, document.content v = .list xs ∧ w ∈ xs := by
  unfold step at h
  split at h
  · rename_i entries hv
    split at h
    · rename_i u hu
      cases h
      exact .inl ⟨entries, _, hv, hu⟩
    · cases h
  · rename_i xs hv
    split at h
    · split at h
      · cases h
      · split at h
        · rename_i u hu
          cases h
          exact .inr ⟨xs, hv, List.mem_of_getElem? hu⟩
        · cases h
    · cases h
  · cases h

/-- A step breaks off at digits that are no number where it should name the item of a list. -/
theorem step_eq_index {token : List Char} {digits : String} :
    step document v token = .error (.index digits) ↔
      (∃ xs, document.content v = .list xs) ∧ token ≠ [] ∧ token.all Text.isDigitLike = true ∧
        index? token = none ∧ String.ofList token = digits := by
  unfold step
  split
  · rename_i entries hv
    split <;> simp [hv]
  · rename_i xs hv
    split
    · rename_i hdigits
      split
      · simp_all
      · split <;> simp_all
    · rename_i hdigits
      refine iff_of_false nofun ?_
      rintro ⟨-, hne, hall, -⟩
      exact hdigits (by simp [hne, hall])
  · rename_i hmapping hlist
    refine iff_of_false nofun ?_
    rintro ⟨⟨xs, hxs⟩, -⟩
    exact hlist xs hxs

/-- A pointer breaks off at such a step, where the steps before it lead to a list. -/
theorem resolve_eq_index {digits : String} :
    resolve document pointer = .error (.index digits) ↔
      ∃ before token after target xs, tokens? pointer = some (before ++ token :: after) ∧
        before.foldlM (step document) document.value = .ok target ∧
        document.content target = .list xs ∧ token ≠ [] ∧ token.all Text.isDigitLike = true ∧
        index? token = none ∧ String.ofList token = digits := by
  unfold resolve
  cases ht : tokens? pointer with
  | none => simp
  | some ts =>
    simp only [Fallible.foldlM_eq_error, step_eq_index, Option.some.injEq]
    constructor
    · rintro ⟨before, token, after, target, hts, hbefore, ⟨xs, hxs⟩, hrest⟩
      exact ⟨before, token, after, target, xs, hts, hbefore, hxs, hrest⟩
    · rintro ⟨before, token, after, target, xs, hts, hbefore, hxs, hrest⟩
      exact ⟨before, token, after, target, hts, hbefore, ⟨xs, hxs⟩, hrest⟩

theorem steps_cons {token : List Char} {ts : List (List Char)} {w u : Value}
    (h : step document v token = .ok w) (hs : ts.foldlM (step document) w = .ok u) :
    (token :: ts).foldlM (step document) v = .ok u := by
  rw [List.foldlM_cons, h]
  exact hs

theorem steps_append {ts us : List (List Char)} {w u : Value}
    (h : ts.foldlM (step document) v = .ok w) (hs : us.foldlM (step document) w = .ok u) :
    (ts ++ us).foldlM (step document) v = .ok u := by
  rw [List.foldlM_append, h]
  exact hs

theorem resolve_property {properties : List (Value × Value)} {name : String} {w u : Value}
    (h : resolve document pointer = .ok v) (hv : document.content v = .mapping entries)
    (hw : Value.entry? "properties" entries = some w)
    (hp : document.content w = .mapping properties)
    (hu : Value.entry? name properties = some u) :
    resolve document (property pointer name) = .ok u := by
  obtain ⟨ts, hts, hfold⟩ := resolve_ok_iff.mp h
  refine resolve_ok_iff.mpr ⟨_, tokens?_property name hts, ?_⟩
  -- the pointer below goes two steps further: to the table of properties, and to its entry
  have hfirst : step document v "properties".toList = .ok w := step_of_entry? hv hw
  have hsecond : step document w name.toList = .ok u :=
    step_of_entry? hp (by rwa [String.ofList_toList])
  exact steps_append hfold (steps_cons hfirst (steps_cons hsecond rfl))

theorem resolve_items {w : Value} (h : resolve document pointer = .ok v)
    (hv : document.content v = .mapping entries) (hw : Value.entry? "items" entries = some w) :
    resolve document (items pointer) = .ok w := by
  obtain ⟨ts, hts, hfold⟩ := resolve_ok_iff.mp h
  refine resolve_ok_iff.mpr ⟨_, tokens?_items hts, ?_⟩
  have hstep : step document v "items".toList = .ok w := step_of_entry? hv hw
  exact steps_append hfold (steps_cons hstep rfl)

end SchemaModel.Pointer
