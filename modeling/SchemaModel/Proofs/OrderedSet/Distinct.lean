import SchemaModel.OrderedSet.Basic

/-!
Sets as lists. The order of a set holds no two elements of which the later one would be found when
looked up, and a list without such elements is the order of the set that is made from it.
-/
namespace SchemaModel.OrderedSet

/-- Whether `y` is found where `x` is: both belong to one index and are the same. -/
def Clash (y x : Value) : Prop := x.isFixed = y.isFixed ∧ y.same x = true

instance (y x : Value) : Decidable (Clash y x) := inferInstanceAs (Decidable (_ ∧ _))

/-- No element is found among those before it. -/
def Distinct (xs : List Value) : Prop := xs.Pairwise fun x y => ¬ Clash y x

instance (xs : List Value) : Decidable (Distinct xs) := inferInstanceAs (Decidable (xs.Pairwise _))

/-- The indexes hold what the order holds. -/
structure Indexed (s : OrderedSet) : Prop where
  fixed : s.fixed = s.order.filter Value.isFixed
  loose : s.loose = s.order.filter fun x => !x.isFixed

theorem Indexed.empty : (∅ : OrderedSet).Indexed := ⟨rfl, rfl⟩

theorem Indexed.contains_iff {s : OrderedSet} (h : s.Indexed) (y : Value) :
    s.contains y = true ↔ ∃ x ∈ s.order, Clash y x := by
  simp only [contains, Value.isAmong, h.fixed, h.loose, Clash]
  cases hy : y.isFixed <;> simp

theorem Indexed.add {s : OrderedSet} (h : s.Indexed) (x : Value) : (s.add x).Indexed := by
  rw [OrderedSet.add]
  split
  · exact h
  · cases hx : x.isFixed with
    | true =>
      rw [if_pos rfl]
      exact ⟨by simp [h.fixed, hx], by simp [h.loose, hx]⟩
    | false =>
      rw [if_neg (by decide)]
      exact ⟨by simp [h.fixed, hx], by simp [h.loose, hx]⟩

/-- An element that is not found goes to the end. -/
theorem order_add {s : OrderedSet} (x : Value) :
    (s.add x).order = if s.contains x = true then s.order else s.order ++ [x] := by
  rw [OrderedSet.add]
  split
  · rfl
  · split <;> rfl

theorem Indexed.distinct_add {s : OrderedSet} (h : s.Indexed) (hd : Distinct s.order) (x : Value) :
    Distinct (s.add x).order := by
  rw [order_add]
  split
  · exact hd
  · rename_i hx
    refine List.pairwise_append.mpr ⟨hd, List.pairwise_singleton _ x, ?_⟩
    intro y hy z hz hclash
    rw [List.mem_singleton.mp hz] at hclash
    exact hx ((h.contains_iff x).mpr ⟨y, hy, hclash⟩)

theorem distinct_addAll {s : OrderedSet} (h : s.Indexed) (hd : Distinct s.order) (xs : List Value) :
    Distinct (s.addAll xs).order := by
  induction xs generalizing s with
  | nil => exact hd
  | cons x xs ih => exact ih (h.add x) (h.distinct_add hd x)

theorem distinct_ofList (xs : List Value) : Distinct (ofList xs).order :=
  distinct_addAll .empty .nil xs

/-- Elements are added behind the others, some of them not at all. -/
theorem sublist_addAll (s : OrderedSet) (xs : List Value) :
    (s.addAll xs).order.Sublist (s.order ++ xs) := by
  induction xs generalizing s with
  | nil => exact List.sublist_append_left _ _
  | cons x xs ih =>
    refine (ih (s.add x)).trans ?_
    rw [order_add]
    split
    · exact (List.sublist_cons_self x xs).append_left _
    · rw [List.append_assoc]
      exact List.Sublist.refl _

theorem sublist_ofList (xs : List Value) : (ofList xs).order.Sublist xs := sublist_addAll ∅ xs

theorem mem_of_mem_ofList {xs : List Value} {x : Value} (h : x ∈ (ofList xs).order) : x ∈ xs :=
  (sublist_ofList xs).subset h

theorem mem_addAll_of_mem {s : OrderedSet} {x : Value} (h : x ∈ s.order) (xs : List Value) :
    x ∈ (s.addAll xs).order := by
  induction xs generalizing s with
  | nil => exact h
  | cons y xs ih =>
    refine ih (s := s.add y) ?_
    rw [order_add]
    split
    · exact h
    · exact List.mem_append_left _ h

/-- An element that is not added is the same as one that is there. -/
theorem exists_mem_addAll {s : OrderedSet} (h : s.Indexed) {xs : List Value} {y : Value}
    (hy : y ∈ xs) : ∃ x ∈ (s.addAll xs).order, y = x ∨ y.same x = true := by
  induction xs generalizing s with
  | nil => cases hy
  | cons z xs ih =>
    obtain rfl | hy := List.mem_cons.mp hy
    · by_cases hc : s.contains y = true
      · obtain ⟨x, hx, -, hsame⟩ := (h.contains_iff y).mp hc
        exact ⟨x, mem_addAll_of_mem hx (y :: xs), .inr hsame⟩
      · have hadded : y ∈ (s.add y).order := by
          rw [order_add, if_neg hc]
          exact List.mem_append_right _ (List.mem_singleton_self y)
        exact ⟨y, mem_addAll_of_mem hadded xs, .inl rfl⟩
    · exact ih (h.add z) hy

theorem exists_mem_ofList {xs : List Value} {y : Value} (hy : y ∈ xs) :
    ∃ x ∈ (ofList xs).order, y = x ∨ y.same x = true :=
  exists_mem_addAll .empty hy

theorem order_addAll_of_distinct {s : OrderedSet} (h : s.Indexed) {xs : List Value}
    (hd : Distinct (s.order ++ xs)) : (s.addAll xs).order = s.order ++ xs := by
  induction xs generalizing s with
  | nil => simp [addAll]
  | cons x xs ih =>
    -- an element that is found among the earlier ones would clash with one of them
    have hx : s.contains x ≠ true := by
      intro hc
      obtain ⟨y, hy, hclash⟩ := (h.contains_iff x).mp hc
      exact (List.pairwise_append.mp hd).2.2 y hy x List.mem_cons_self hclash
    have horder : (s.add x).order = s.order ++ [x] := by rw [order_add, if_neg hx]
    have hd' : Distinct ((s.add x).order ++ xs) := by
      rw [horder, List.append_assoc]
      exact hd
    have := ih (h.add x) hd'
    rw [horder, List.append_assoc] at this
    exact this

/-- A list in which no element is found among those before it becomes a set in its own order. -/
theorem order_ofList_of_distinct {xs : List Value} (h : Distinct xs) : (ofList xs).order = xs :=
  order_addAll_of_distinct .empty h

end SchemaModel.OrderedSet
