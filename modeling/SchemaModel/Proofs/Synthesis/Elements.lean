import SchemaModel.Proofs.Synthesis.Fits
import SchemaModel.Proofs.Value.Sameness

/-!
Values of one type as elements of a set. Among them sameness can be turned round and continued,
although a not-a-number need not be the same as itself. So a set that is made from such values has no
two elements that are the same, in whichever direction they are compared.
-/
namespace SchemaModel

theorem Double.equals_trans {x y z : Double} (hxy : x.equals y = true) (hyz : y.equals z = true) :
    x.equals z = true := by
  cases x with
  | nan c => simp [equals] at hxy
  | infinite s => cases y <;> cases z <;> simp_all [equals]
  | finite s m e =>
    cases y with
    | finite t n f =>
      cases z with
      | finite u k g =>
        simp only [equals, Bool.and_eq_true, Bool.or_eq_true, beq_iff_eq] at hxy hyz ⊢
        obtain ⟨⟨rfl, rfl⟩, hst⟩ := hxy
        obtain ⟨⟨rfl, rfl⟩, htu⟩ := hyz
        refine ⟨⟨rfl, rfl⟩, ?_⟩
        -- only a zero may change its sign
        obtain rfl | h := hst
        · exact htu
        · exact .inr h
      | _ => simp [equals] at hyz
    | _ => simp [equals] at hxy

namespace Value

/-! ## Sameness within a class of values -/

/-- Within the values that satisfy `P`, sameness can be turned round and continued, and values that
are the same belong to one index of a set. -/
structure CoherentOn (P : Value → Prop) : Prop where
  symm : ∀ {x y}, P x → P y → x.same y = true → y.same x = true
  trans : ∀ {x y z}, P x → P y → P z → x.same y = true → y.same z = true → x.same z = true
  fixed : ∀ {x y}, P x → P y → x.same y = true → x.isFixed = y.isFixed

variable {P Q : Value → Prop}

theorem CoherentOn.mono (h : CoherentOn P) (hQ : ∀ v, Q v → P v) : CoherentOn Q where
  symm hx hy := h.symm (hQ _ hx) (hQ _ hy)
  trans hx hy hz := h.trans (hQ _ hx) (hQ _ hy) (hQ _ hz)
  fixed hx hy := h.fixed (hQ _ hx) (hQ _ hy)

theorem same_null_iff {y : Value} : Value.null.same y = true ↔ y = .null := by
  cases y <;> simp [same]

theorem same_null_right_iff {x : Value} : x.same .null = true ↔ x = .null := by
  cases x <;> simp [same]

/-- Null is the same as itself alone. -/
theorem CoherentOn.orNull (h : CoherentOn P) : CoherentOn fun v => v = .null ∨ P v where
  symm := by
    rintro x y (rfl | hx) (rfl | hy) hxy
    · exact hxy
    · rwa [same_null_right_iff, ← same_null_iff]
    · rwa [same_null_iff, ← same_null_right_iff]
    · exact h.symm hx hy hxy
  trans := by
    rintro x y z (rfl | hx) hy hz hxy hyz
    · rwa [same_null_iff.mp hxy] at hyz
    rcases hy with rfl | hy
    · rw [same_null_iff.mp hyz]
      exact hxy
    rcases hz with rfl | hz
    · rwa [same_null_right_iff.mp hyz] at hxy
    · exact h.trans hx hy hz hxy hyz
  fixed := by
    rintro x y (rfl | hx) (rfl | hy) hxy
    · rfl
    · rw [same_null_iff.mp hxy]
    · rw [same_null_right_iff.mp hxy]
    · exact h.fixed hx hy hxy

/-- Values that are the same as themselves alone. -/
theorem coherentOn_of_eq (h : ∀ x y, P x → P y → x.same y = true → x = y) : CoherentOn P where
  symm hx hy hxy := by
    obtain rfl := h _ _ hx hy hxy
    exact hxy
  trans hx hy _ hxy hyz := by
    obtain rfl := h _ _ hx hy hxy
    exact hyz
  fixed hx hy hxy := by rw [h _ _ hx hy hxy]

theorem same_double_iff {x y : Double} : (Value.double x).same (.double y) = true ↔
    x.equals y = true ∨ x = .nan true ∧ y = .nan true := by
  simp [same]

theorem coherentOn_double : CoherentOn fun v => ∃ x, v = .double x where
  symm := by
    rintro _ _ ⟨x, rfl⟩ ⟨y, rfl⟩ h
    rw [same_double_iff] at h ⊢
    obtain h | ⟨rfl, rfl⟩ := h
    · exact .inl (Double.equals_comm x y ▸ h)
    · exact .inr ⟨rfl, rfl⟩
  trans := by
    rintro _ _ _ ⟨x, rfl⟩ ⟨y, rfl⟩ ⟨z, rfl⟩ hxy hyz
    rw [same_double_iff] at hxy hyz ⊢
    obtain hxy | ⟨rfl, rfl⟩ := hxy
    · obtain hyz | ⟨rfl, rfl⟩ := hyz
      · exact .inl (Double.equals_trans hxy hyz)
      · cases x <;> simp [Double.equals] at hxy
    · simpa [Double.equals] using hyz
  fixed := by
    rintro _ _ ⟨x, rfl⟩ ⟨y, rfl⟩ -
    rfl

/-- Moments and the integers that may stand for them. -/
theorem coherentOn_date : CoherentOn fun v => (∃ i, v = .int i) ∨ ∃ m, v = .moment m where
  symm := by
    rintro _ _ (⟨i, rfl⟩ | ⟨a, rfl⟩) (⟨j, rfl⟩ | ⟨b, rfl⟩) h
    · simp only [same, beq_iff_eq] at h ⊢
      exact h.symm
    · simp [same] at h
    · simp [same] at h
    · simp only [same] at h ⊢
      rwa [Moment.same_comm]
  trans := by
    rintro _ _ _ (⟨i, rfl⟩ | ⟨a, rfl⟩) (⟨j, rfl⟩ | ⟨b, rfl⟩) hz hxy hyz
    · simp only [same, beq_iff_eq] at hxy
      rwa [hxy]
    · simp [same] at hxy
    · simp [same] at hxy
    · obtain ⟨k, rfl⟩ | ⟨c, rfl⟩ := hz
      · simp [same] at hyz
      · simp only [same] at hxy hyz ⊢
        exact Moment.same_trans hxy hyz
  fixed := by
    rintro _ _ (⟨i, rfl⟩ | ⟨a, rfl⟩) (⟨j, rfl⟩ | ⟨b, rfl⟩) - <;> rfl

theorem CoherentOn.list (h : CoherentOn P) :
    CoherentOn fun v => ∃ xs, v = .list xs ∧ ∀ x ∈ xs, P x where
  symm := by
    rintro _ _ ⟨xs, rfl, hxs⟩ ⟨ys, rfl, hys⟩ hxy
    simp only [same] at hxy ⊢
    exact sameAll_symm (fun x hx y hy => h.symm (hxs x hx) (hys y hy)) hxy
  trans := by
    rintro _ _ _ ⟨xs, rfl, hxs⟩ ⟨ys, rfl, hys⟩ ⟨zs, rfl, hzs⟩ hxy hyz
    simp only [same] at hxy hyz ⊢
    refine sameAll_trans (fun x hx y hy z hz => ?_) hxy hyz
    exact h.trans (hxs x hx) (hys y hy) (hzs z hz)
  fixed := by
    rintro _ _ ⟨xs, rfl, -⟩ ⟨ys, rfl, -⟩ -
    rfl

/-! ## Elements of sets -/

/-- No two values of a list are the same, in whichever direction they are compared. -/
def Apart (xs : List Value) : Prop :=
  xs.Pairwise fun x y => x.same y = false ∧ y.same x = false

instance (xs : List Value) : Decidable (Apart xs) :=
  inferInstanceAs (Decidable (xs.Pairwise _))

/-- What is left of values when one that is the same as an earlier one is left out: the others, in
their order. -/
structure Thinned (ys xs : List Value) : Prop where
  sublist : xs.Sublist ys
  apart : Apart xs
  covered : ∀ y ∈ ys, ∃ x ∈ xs, y = x ∨ y.same x = true

theorem CoherentOn.apart (h : CoherentOn P) {xs : List Value} (hxs : ∀ x ∈ xs, P x)
    (hd : OrderedSet.Distinct xs) : Apart xs := by
  refine List.Pairwise.imp_of_mem (fun {x y} hx hy hne => ?_) hd
  have hyx : y.same x = false := by
    rw [Bool.eq_false_iff]
    exact fun hsame => hne ⟨(h.fixed (hxs y hy) (hxs x hx) hsame).symm, hsame⟩
  refine ⟨?_, hyx⟩
  rw [Bool.eq_false_iff]
  intro hsame
  rw [h.symm (hxs x hx) (hxs y hy) hsame] at hyx
  cases hyx

theorem CoherentOn.set (h : CoherentOn P) :
    CoherentOn fun v => ∃ xs, v = .set xs ∧ (∀ x ∈ xs, P x) ∧ OrderedSet.Distinct xs where
  symm := by
    rintro _ _ ⟨xs, rfl, hxs, hd⟩ ⟨ys, rfl, hys, -⟩ hxy
    refine same_set_symm (fun x hx y hy => h.symm (hxs x hx) (hys y hy)) ?_ hxy
    -- elements with a common partner would be the same
    refine (h.apart hxs hd).imp_of_mem fun {a b} ha hb hne y hy hay hby => ?_
    have hab := h.trans (hxs a ha) (hys y hy) (hxs b hb) hay (h.symm (hxs b hb) (hys y hy) hby)
    rw [hne.1] at hab
    cases hab
  trans := by
    rintro _ _ _ ⟨xs, rfl, hxs, -⟩ ⟨ys, rfl, hys, -⟩ ⟨zs, rfl, hzs, -⟩ hxy hyz
    refine same_set_trans (fun x hx y hy z hz => ?_) hxy hyz
    exact h.trans (hxs x hx) (hys y hy) (hzs z hz)
  fixed := by
    rintro _ _ ⟨xs, rfl, -⟩ ⟨ys, rfl, -⟩ -
    rfl

end Value

/-! ## Values of one type -/

namespace Fits

open Value

theorem coherentOn_scalar (kind : ScalarKind) : CoherentOn (Fits (.scalar kind)) := by
  cases kind with
  | double =>
    refine coherentOn_double.orNull.mono fun v h => ?_
    cases h with
    | null => exact .inl rfl
    | double => exact .inr ⟨_, rfl⟩
  | _ =>
    refine coherentOn_of_eq fun x y hx hy h => ?_
    cases hx <;> cases hy <;> simp_all [same]

theorem coherentOn (t : TargetType) : CoherentOn (Fits t) := by
  induction t with
  | scalar kind => exact coherentOn_scalar kind
  | date kind format =>
    refine coherentOn_date.orNull.mono fun v h => ?_
    cases h with
    | null => exact .inl rfl
    | millis => exact .inr (.inl ⟨_, rfl⟩)
    | moment => exact .inr (.inr ⟨_, rfl⟩)
  | enum type =>
    refine coherentOn_of_eq fun x y hx hy h => ?_
    cases hx <;> cases hy <;> simp_all [same]
  | list element ih =>
    refine ih.list.orNull.mono fun v h => ?_
    cases h with
    | null => exact .inl rfl
    | list h => exact .inr ⟨_, rfl, h⟩
  | set element ih =>
    refine ih.set.orNull.mono fun v h => ?_
    cases h with
    | null => exact .inl rfl
    | set h hd => exact .inr ⟨_, rfl, h, hd⟩
  | reference name =>
    refine coherentOn_of_eq fun x y hx hy h => ?_
    cases hx
    cases hy
    rfl

/-- A set that is made from values of one type has lost nothing but repetitions. -/
theorem thinned_ofList {t : TargetType} {ys : List Value} (h : ∀ y ∈ ys, Fits t y) :
    Thinned ys (OrderedSet.ofList ys).order where
  sublist := OrderedSet.sublist_ofList ys
  apart := (coherentOn t).apart (fun x hx => h x (OrderedSet.mem_of_mem_ofList hx))
    (OrderedSet.distinct_ofList ys)
  covered _ hy := OrderedSet.exists_mem_ofList hy

/-- Not-a-numbers that are read from texts stand apart; the two zeros do not. -/
example : Apart [.double (.nan false), .double (.nan false)] ∧
    ¬ Apart [.double (.zero true), .double (.zero false)] := by decide +kernel

end Fits
end SchemaModel
