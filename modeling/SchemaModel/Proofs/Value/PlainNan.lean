import SchemaModel.Value.Equality

/-!
Values up to the identity of not-a-numbers. A not-a-number that a document names by its constant is
the same element as itself; one that is read from an expression is like no other.
-/
namespace SchemaModel.Value

mutual

/-- The value with every not-a-number like no other. -/
def plainNan : Value → Value
  | .double (.nan _) => .double (.nan false)
  | .list xs => .list (plainNanAll xs)
  | .set xs => .set (plainNanAll xs)
  | .unordered xs => .unordered (plainNanAll xs)
  | .frozen xs => .frozen (plainNanAll xs)
  | v => v

def plainNanAll : List Value → List Value
  | [] => []
  | x :: xs => x.plainNan :: plainNanAll xs

end

mutual

/-- The floating numbers inside lists and sets. -/
def doubles : Value → List Double
  | .double x => [x]
  | .list xs | .set xs => doublesAll xs
  | _ => []

def doublesAll : List Value → List Double
  | [] => []
  | x :: xs => x.doubles ++ doublesAll xs

end

theorem plainNanAll_eq_map (xs : List Value) : plainNanAll xs = xs.map plainNan := by
  induction xs with
  | nil => rfl
  | cons x xs ih => rw [plainNanAll, ih, List.map_cons]

theorem length_plainNanAll (xs : List Value) : (plainNanAll xs).length = xs.length := by
  rw [plainNanAll_eq_map, List.length_map]

theorem mem_plainNanAll {xs : List Value} {x : Value} (h : x ∈ xs) :
    x.plainNan ∈ plainNanAll xs := by
  rw [plainNanAll_eq_map]
  exact List.mem_map_of_mem h

theorem exists_of_mem_plainNanAll {xs : List Value} {v : Value} (h : v ∈ plainNanAll xs) :
    ∃ x ∈ xs, x.plainNan = v := by
  rw [plainNanAll_eq_map] at h
  exact List.mem_map.mp h

theorem mem_doublesAll {xs : List Value} {v : Value} {x : Double} (hv : v ∈ xs)
    (hx : x ∈ v.doubles) : x ∈ doublesAll xs := by
  induction xs with
  | nil => cases hv
  | cons y ys ih =>
    rw [doublesAll, List.mem_append]
    obtain rfl | hv := List.mem_cons.mp hv
    · exact .inl hx
    · exact .inr (ih hv)

theorem isFixed_plainNan (v : Value) : v.plainNan.isFixed = v.isFixed := by
  cases v with
  | double x => cases x <;> rfl
  | _ => rfl

theorem isSought_plainNan (v : Value) : v.plainNan.isSought = v.isSought := by
  cases v with
  | double x => cases x <;> rfl
  | _ => rfl

theorem allSought_of_plainNan {xs : List Value}
    (h : (plainNanAll xs).all isSought = true) : xs.all isSought = true := by
  rw [List.all_eq_true] at h ⊢
  exact fun x hx => isSought_plainNan x ▸ h _ (mem_plainNanAll hx)

/-! ## Sameness -/

theorem same_nan_left (y : Value) : (Value.double (.nan false)).same y = false := by
  cases y <;> simp [same, Double.equals, Double.equalsInt]

theorem same_nan_right (x : Value) : x.same (.double (.nan false)) = false := by
  cases x with
  | double x => cases x <;> simp [same, Double.equals]
  | _ => simp [same, Double.equalsInt]

/-- Whether a value is a list or a set. -/
def isGathered : Value → Bool
  | .list _ | .set _ | .unordered _ | .frozen _ => true
  | _ => false

theorem isGathered_plainNan (v : Value) : v.plainNan.isGathered = v.isGathered := by
  cases v with
  | double x => cases x <;> rfl
  | _ => rfl

/-- Only a list or a set is the same as a list or a set. -/
theorem isGathered_of_same {x y : Value} (hy : y.isGathered = true) (h : x.same y = true) :
    x.isGathered = true := by
  cases x with
  | list | set | unordered | frozen => rfl
  | _ =>
    cases y with
    | list | set | unordered | frozen => simp [same] at h
    | _ => cases hy

/-- A value that is neither a list nor a set stays as it is, unless it is a not-a-number. -/
theorem plainNan_cases (v : Value) :
    v.isGathered = true ∨ v.plainNan = v ∨ ∃ c, v = .double (.nan c) := by
  cases v with
  | list | set | unordered | frozen => exact .inl rfl
  | double x =>
    cases x with
    | nan c => exact .inr (.inr ⟨c, rfl⟩)
    | _ => exact .inr (.inl rfl)
  | _ => exact .inr (.inl rfl)

theorem same_of_plainNan_atom {x y : Value} (hx : x.plainNan = x) (hatom : x.isGathered = false)
    (h : x.plainNan.same y.plainNan = true) : x.same y = true := by
  rw [hx] at h
  obtain hy | hy | ⟨c, rfl⟩ := plainNan_cases y
  · rw [← isGathered_plainNan] at hy
    rw [isGathered_of_same hy h] at hatom
    cases hatom
  · rwa [hy] at h
  · rw [plainNan, same_nan_right] at h
    cases h

mutual

/-- Values that become the same were the same before. -/
theorem same_of_plainNan : (x y : Value) → x.plainNan.same y.plainNan = true → x.same y = true
  | .list xs, y, h => by
    cases y with
    | list ys =>
      simp only [plainNan, same] at h ⊢
      exact sameAll_of_plainNan xs ys h
    | double d => cases d <;> simp [plainNan, same] at h
    | _ => simp [plainNan, same] at h
  | .set xs, y, h => by
    cases y with
    | set ys =>
      simp only [plainNan, same, Bool.and_eq_true, length_plainNanAll] at h ⊢
      exact ⟨h.1, allIndexed_of_plainNan xs ys h.2⟩
    | unordered ys | frozen ys =>
      simp only [plainNan, same, Bool.and_eq_true, length_plainNanAll] at h ⊢
      exact ⟨⟨h.1.1, allSought_of_plainNan h.1.2⟩, allAmong_of_plainNan xs ys h.2⟩
    | double d => cases d <;> simp [plainNan, same] at h
    | _ => simp [plainNan, same] at h
  | .unordered xs, y, h | .frozen xs, y, h => by
    cases y with
    | set ys =>
      simp only [plainNan, same, Bool.and_eq_true, length_plainNanAll, List.all_eq_true] at h ⊢
      refine ⟨h.1, fun y hy => ?_⟩
      obtain ⟨hsought, hsame⟩ := h.2 y.plainNan (mem_plainNanAll hy)
      exact ⟨isSought_plainNan y ▸ hsought, anySame_of_plainNan xs y hsame⟩
    | unordered ys | frozen ys =>
      simp only [plainNan, same, Bool.and_eq_true, length_plainNanAll] at h ⊢
      exact ⟨h.1, allAmong_of_plainNan xs ys h.2⟩
    | double d => cases d <;> simp [plainNan, same] at h
    | _ => simp [plainNan, same] at h
  | .double x, y, h => by
    cases x with
    | nan c =>
      rw [plainNan, same_nan_left] at h
      cases h
    | _ => exact same_of_plainNan_atom rfl rfl h
  | .null, _, h | .bool _, _, h | .int _, _, h | .text _, _, h | .bytes _, _, h | .date _, _, h
  | .moment _, _, h | .member _, _, h | .tuple _, _, h | .mapping _, _, h
  | .marked .., _, h | .again .., _, h =>
    same_of_plainNan_atom rfl rfl h

theorem sameAll_of_plainNan : (xs ys : List Value) →
    sameAll (plainNanAll xs) (plainNanAll ys) = true → sameAll xs ys = true
  | [], [], _ => by rw [sameAll]
  | [], _ :: _, h | _ :: _, [], h => by simp [plainNanAll, sameAll] at h
  | x :: xs, y :: ys, h => by
    simp only [plainNanAll, sameAll, Bool.and_eq_true] at h ⊢
    exact ⟨same_of_plainNan x y h.1, sameAll_of_plainNan xs ys h.2⟩

theorem allAmong_of_plainNan : (xs ys : List Value) →
    allAmong (plainNanAll xs) (plainNanAll ys) = true → allAmong xs ys = true
  | [], _, _ => by rw [allAmong]
  | x :: xs, ys, h => by
    simp only [plainNanAll, allAmong, Bool.and_eq_true, List.any_eq_true] at h ⊢
    obtain ⟨⟨y', hy', hsame⟩, hrest⟩ := h
    obtain ⟨y, hy, rfl⟩ := exists_of_mem_plainNanAll hy'
    exact ⟨⟨y, hy, same_of_plainNan x y hsame⟩, allAmong_of_plainNan xs ys hrest⟩

theorem allIndexed_of_plainNan : (xs ys : List Value) →
    allIndexed (plainNanAll xs) (plainNanAll ys) = true → allIndexed xs ys = true
  | [], _, _ => by rw [allIndexed]
  | x :: xs, ys, h => by
    simp only [plainNanAll, allIndexed, Bool.and_eq_true, List.any_eq_true, beq_iff_eq] at h ⊢
    obtain ⟨⟨y', hy', hfixed, hsame⟩, hrest⟩ := h
    obtain ⟨y, hy, rfl⟩ := exists_of_mem_plainNanAll hy'
    rw [isFixed_plainNan, isFixed_plainNan] at hfixed
    exact ⟨⟨y, hy, hfixed, same_of_plainNan x y hsame⟩, allIndexed_of_plainNan xs ys hrest⟩

theorem anySame_of_plainNan : (xs : List Value) → (y : Value) →
    anySame (plainNanAll xs) y.plainNan = true → anySame xs y = true
  | [], _, h => by simp [plainNanAll, anySame] at h
  | x :: xs, y, h => by
    simp only [plainNanAll, anySame, Bool.or_eq_true] at h ⊢
    exact h.imp (same_of_plainNan x y) (anySame_of_plainNan xs y)

end

end SchemaModel.Value
