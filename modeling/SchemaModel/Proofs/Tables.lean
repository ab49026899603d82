import Mathlib.Data.List.Nodup

/-!
Lists as tables. What is looked up by a key is in the list, and where no key occurs twice, whatever
is in the list is found by its key.
-/
namespace SchemaModel.Tables

variable {α β : Type}

theorem mem_of_lookup [BEq α] [LawfulBEq α] {k : α} {v : β} {es : List (α × β)}
    (h : es.lookup k = some v) : (k, v) ∈ es := by
  obtain ⟨before, after, rfl, -⟩ := List.lookup_eq_some_iff.mp h
  simp

theorem lookup_eq_none_iff [BEq α] [LawfulBEq α] {k : α} {es : List (α × β)} :
    es.lookup k = none ↔ k ∉ es.map (·.1) := by
  simp only [List.lookup_eq_none_iff, List.mem_map, not_exists, not_and]
  constructor
  · rintro h e he rfl
    simpa using h e he
  · intro h e he
    simpa using fun hk => h e he hk.symm

theorem lookup_of_mem [BEq α] [LawfulBEq α] {es : List (α × β)} {k : α} {v : β}
    (hn : (es.map (·.1)).Nodup) (hm : (k, v) ∈ es) : es.lookup k = some v := by
  cases hl : es.lookup k with
  | none =>
    have := List.lookup_eq_none_iff.mp hl (k, v) hm
    simp at this
  | some u =>
    have hu : u = v := congrArg Prod.snd (List.inj_on_of_nodup_map hn (mem_of_lookup hl) hm rfl)
    rw [hu]

/-- What is done to the values of a table is done to what is looked up. -/
theorem lookup_map {γ : Type} [BEq α] (f : β → γ) (k : α) (es : List (α × β)) :
    (es.map fun (k, v) => (k, f v)).lookup k = (es.lookup k).map f := by
  induction es with
  | nil => rfl
  | cons e es ih =>
    obtain ⟨key, v⟩ := e
    rw [List.map_cons, List.lookup_cons, List.lookup_cons]
    cases k == key with
    | true => rfl
    | false => exact ih

theorem find?_of_mem [DecidableEq β] {f : α → β} {xs : List α} {x : α} (hn : (xs.map f).Nodup)
    (hm : x ∈ xs) : xs.find? (fun y => f y = f x) = some x := by
  cases hf : xs.find? fun y => f y = f x with
  | none =>
    have := List.find?_eq_none.mp hf x hm
    simp at this
  | some y =>
    have hy : f y = f x := by simpa using List.find?_some hf
    rw [List.inj_on_of_nodup_map hn (List.mem_of_find?_eq_some hf) hm hy]

end SchemaModel.Tables
