import SchemaModel.Proofs.Value.Sameness

/-!
Classes of values that can be elements of one set without surprise: a key is the same as keys only,
and no comparison is refused. The values whose sets all keep their order are such a class. A frozen
set beside an ordered set with the same elements is in none, and neither is a plain set beside an
ordered set as large that holds a list.
-/
namespace SchemaModel.Value

/-- A class in which keys are the same as keys only and every two values can be compared. -/
structure IsFair (P : Value → Prop) : Prop extends IsTidy P where
  accepts : ∀ {x y}, P x → P y → x.isRefused y = false

variable {x y : Value} {xs ys : List Value}

/-! ## Comparisons that are not refused -/

theorem searchFails_eq_false {isRefused isFound : Value → Bool}
    (h : ∀ y ∈ ys, isRefused y = false) : searchFails isRefused isFound ys = false := by
  induction ys with
  | nil => rfl
  | cons y ys ih =>
    rw [List.forall_mem_cons] at h
    rw [searchFails, h.1, ih h.2, Bool.and_false, Bool.or_false]

theorem anyRefused_eq_false (h : ∀ x ∈ xs, ∀ y ∈ ys, x.isRefused y = false) :
    anyRefused xs ys = false := by
  induction xs generalizing ys with
  | nil => simp [anyRefused]
  | cons x xs ih =>
    cases ys with
    | nil => simp [anyRefused]
    | cons y ys =>
      have hhead := h x List.mem_cons_self y List.mem_cons_self
      have htail := ih fun a ha b hb =>
        h a (List.mem_cons_of_mem _ ha) b (List.mem_cons_of_mem _ hb)
      rw [anyRefused, hhead, htail, Bool.and_false, Bool.or_false]

theorem anySearchFails_eq_false (h : ∀ x ∈ xs, ∀ y ∈ ys, x.isRefused y = false) :
    anySearchFails xs ys = false := by
  induction xs with
  | nil => rfl
  | cons x xs ih =>
    rw [List.forall_mem_cons] at h
    rw [anySearchFails, ih h.2, searchFails_eq_false fun y hy => h.1 y (List.mem_filter.mp hy).1]
    simp

theorem anyEntryRefused_eq_false {es fs : List (Value × Value)}
    (h : ∀ e ∈ es, ∀ f ∈ fs, e.2.isRefused f.2 = false) : anyEntryRefused es fs = false := by
  induction es with
  | nil => rfl
  | cons e es ih =>
    rw [List.forall_mem_cons] at h
    rw [anyEntryRefused, ih h.2]
    split
    · rfl
    · rename_i f hf
      rw [h.1 f (List.mem_of_find?_eq_some hf)]
      simp

/-! ## Values whose sets keep their order -/

mutual

/-- Whether every set inside a value, and the value if it is a set, keeps its order. -/
def isOrderly : Value → Bool
  | .list xs | .tuple xs | .set xs => allOrderly xs
  | .mapping es => entriesOrderly es
  | .unordered _ | .frozen _ => false
  | .marked _ v => v.isOrderly
  | _ => true

def allOrderly : List Value → Bool
  | [] => true
  | x :: xs => x.isOrderly && allOrderly xs

def entriesOrderly : List (Value × Value) → Bool
  | [] => true
  | (k, v) :: es => k.isOrderly && v.isOrderly && entriesOrderly es

end

theorem allOrderly_iff : allOrderly xs = true ↔ ∀ x ∈ xs, x.isOrderly = true := by
  induction xs with
  | nil => simp [allOrderly]
  | cons x xs ih => simp [allOrderly, ih]

theorem entriesOrderly_iff {es : List (Value × Value)} : entriesOrderly es = true ↔
    ∀ e ∈ es, e.1.isOrderly = true ∧ e.2.isOrderly = true := by
  induction es with
  | nil => simp [entriesOrderly]
  | cons e es ih => simp [entriesOrderly, ih]

theorem isOrderly_of_mem_parts {p : Value} (hx : x.isOrderly = true) (hp : p ∈ x.parts) :
    p.isOrderly = true := by
  cases x with
  | list xs | tuple xs | set xs =>
    rw [isOrderly] at hx
    exact allOrderly_iff.mp hx p hp
  | mapping es =>
    rw [isOrderly] at hx
    rcases List.mem_append.mp hp with hp | hp
    · obtain ⟨e, he, rfl⟩ := List.mem_map.mp hp
      exact (entriesOrderly_iff.mp hx e he).1
    · obtain ⟨e, he, rfl⟩ := List.mem_map.mp hp
      exact (entriesOrderly_iff.mp hx e he).2
  | marked m v =>
    rw [isOrderly] at hx
    rwa [List.mem_singleton.mp hp]
  | unordered _ | frozen _ => cases hx
  | _ => cases hp

theorem isRefused_of_isOrderly (x : Value) (hx : x.isOrderly = true) :
    ∀ y, y.isOrderly = true → x.isRefused y = false := by
  induction x using parts_induction with
  | h x ih =>
    intro y hy
    have hparts : ∀ p ∈ x.parts, ∀ q ∈ y.parts, p.isRefused q = false := fun p hp q hq =>
      ih p hp (isOrderly_of_mem_parts hx hp) q (isOrderly_of_mem_parts hy hq)
    cases x with
    | list xs =>
      cases y with
      | list ys =>
        have hparts : anyRefused xs ys = false := anyRefused_eq_false hparts
        rw [isRefused, hparts, Bool.and_false]
      | _ => rfl
    | tuple xs =>
      cases y with
      | tuple ys => exact anyRefused_eq_false hparts
      | _ => rfl
    | set xs =>
      cases y with
      | set ys =>
        have hparts : anySearchFails xs ys = false := anySearchFails_eq_false hparts
        rw [isRefused, hparts, Bool.and_false]
      | unordered _ | frozen _ => cases hy
      | _ => rfl
    | mapping es =>
      cases y with
      | mapping fs =>
        have hvalues : ∀ e ∈ es, ∀ f ∈ fs, e.2.isRefused f.2 = false := fun e he f hf =>
          hparts _ (List.mem_append_right _ (List.mem_map_of_mem he)) _
            (List.mem_append_right _ (List.mem_map_of_mem hf))
        rw [isRefused, anyEntryRefused_eq_false hvalues, Bool.and_false]
      | _ => rfl
    | unordered _ | frozen _ => cases hx
    | _ => cases y <;> rfl

theorem allFixed_of_sameAll (hys : ∀ y ∈ ys, y.isOrderly = true)
    (hxs : ∀ x ∈ xs, ∀ y, x.same y = true → y.isOrderly = true → x.isFixed = y.isFixed)
    (h : sameAll xs ys = true) : allFixed xs = allFixed ys := by
  rw [sameAll_iff] at h
  induction h with
  | nil => rfl
  | @cons x y xs ys hxy _ ih =>
    rw [List.forall_mem_cons] at hxs hys
    rw [allFixed, allFixed, hxs.1 y hxy hys.1, ih hys.2 hxs.2]

/-- Values that are the same belong to one index of a set. -/
theorem isFixed_of_same (x : Value) (hx : x.isOrderly = true) (hc : x.isComparable = true) :
    ∀ y, x.same y = true → y.isOrderly = true → x.isFixed = y.isFixed := by
  induction x using parts_induction with
  | h x ih =>
    intro y h hy
    cases x with
    | tuple xs =>
      obtain ⟨ys, rfl, hxy⟩ := same_tuple_iff.mp h
      rw [isFixed, isFixed]
      refine allFixed_of_sameAll (fun y hmem => isOrderly_of_mem_parts hy hmem) ?_ hxy
      exact fun x hmem =>
        ih x hmem (isOrderly_of_mem_parts hx hmem) (isComparable_of_mem_parts hc hmem)
    | unordered _ | frozen _ => cases hx
    | marked _ _ | again _ _ => cases hc
    | _ =>
      cases y with
      | unordered _ | frozen _ => cases hy
      | _ => first | rfl | simp [same] at h

/-- A class is fair if the sets in it keep their order. -/
theorem isFair_of_isOrderly {P : Value → Prop} (hP : IsClass P)
    (horderly : ∀ x, P x → x.isOrderly = true) : IsFair P :=
  { hP with
    fixed := fun hx hy h => isFixed_of_same _ (horderly _ hx) (hP.comparable hx) _ h (horderly _ hy)
    accepts := fun hx hy => isRefused_of_isOrderly _ (horderly _ hx) _ (horderly _ hy) }

/-- The values that can be elements and whose sets keep their order are a fair class. -/
theorem isFair_orderly : IsFair fun v => v.isComparable = true ∧ v.isOrderly = true := by
  refine isFair_of_isOrderly ⟨fun h => h.1, fun h hp => ?_⟩ fun _ h => h.2
  exact ⟨isComparable_of_mem_parts h.1 hp, isOrderly_of_mem_parts h.2 hp⟩

end SchemaModel.Value
