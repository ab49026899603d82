import Mathlib.Data.List.Forall2

/-!
Runs of computations that can fail, with or without a state. A run that succeeds went through its
parts one after the other.
-/
namespace SchemaModel

/-- Every item of one list has a partner in the other. -/
theorem exists_of_forall₂ {α β : Type} {r : α → β → Prop} {xs : List α} {ys : List β}
    (h : List.Forall₂ r xs ys) {x : α} (hx : x ∈ xs) : ∃ y ∈ ys, r x y := by
  induction h with
  | nil => cases hx
  | @cons x' y xs ys hxy _ ih =>
    rcases List.mem_cons.mp hx with rfl | hx
    · exact ⟨y, List.mem_cons_self, hxy⟩
    · obtain ⟨y, hy, hxy⟩ := ih hx
      exact ⟨y, List.mem_cons_of_mem _ hy, hxy⟩

namespace Fallible

variable {ε ε' α β : Type} {x : Except ε α} {y : β}

theorem bind_eq_ok {f : α → Except ε β} : x >>= f = .ok y ↔ ∃ a, x = .ok a ∧ f a = .ok y := by
  cases x with
  | error e => simp [bind, Except.bind]
  | ok a => simp [bind, Except.bind]

theorem bind_eq_error {f : α → Except ε β} {e : ε} :
    x >>= f = .error e ↔ x = .error e ∨ ∃ a, x = .ok a ∧ f a = .error e := by
  cases x with
  | error e' => simp [bind, Except.bind]
  | ok a => simp [bind, Except.bind]

theorem map_map {γ : Type} (x : Except ε α) (f : α → β) (g : β → γ) :
    (x.map f).map g = x.map fun a => g (f a) := by
  cases x <;> rfl

theorem map_eq_ok {f : α → β} : x.map f = .ok y ↔ ∃ a, x = .ok a ∧ f a = y := by
  cases x with
  | error e => simp [Except.map]
  | ok a => simp [Except.map]

theorem map_eq_error {f : α → β} {e : ε} : x.map f = .error e ↔ x = .error e := by
  cases x with
  | error e' => simp [Except.map]
  | ok a => simp [Except.map]

theorem mapError_eq_error {f : ε → ε'} {e : ε'} :
    x.mapError f = .error e ↔ ∃ e', x = .error e' ∧ f e' = e := by
  cases x with
  | error e' => simp [Except.mapError]
  | ok a => simp [Except.mapError]

theorem mapError_eq_ok {f : ε → ε'} {a : α} : x.mapError f = .ok a ↔ x = .ok a := by
  cases x with
  | error e => simp [Except.mapError]
  | ok b => simp [Except.mapError]

/-- A change of the error of a computation is one of its parts. -/
theorem mapError_bind {f : α → Except ε β} {g : ε → ε'} :
    (x.bind f).mapError g = (x.mapError g).bind fun a => (f a).mapError g := by
  cases x <;> rfl

theorem mapError_map {f : α → β} {g : ε → ε'} :
    (x.map f).mapError g = (x.mapError g).map f := by
  cases x <;> rfl

theorem toOption_eq_some {a : α} : x.toOption = some a ↔ x = .ok a := by
  cases x with
  | error e => simp [Except.toOption]
  | ok b => simp [Except.toOption]

/-- Every item of a list went through. -/
theorem forall₂_of_mapM {f : α → Except ε β} {xs : List α} {ys : List β}
    (h : xs.mapM f = .ok ys) : List.Forall₂ (fun x y => f x = .ok y) xs ys := by
  induction xs generalizing ys with
  | nil =>
    cases h
    exact .nil
  | cons x xs ih =>
    rw [List.mapM_cons] at h
    obtain ⟨y, hy, h⟩ := bind_eq_ok.mp h
    obtain ⟨rest, hrest, h⟩ := bind_eq_ok.mp h
    cases h
    exact .cons hy (ih hrest)

/-- What goes through with `f` goes through with any `g` that agrees where `f` succeeds. -/
theorem mapM_eq_ok_of_imp {f g : α → Except ε β} {xs : List α} {ys : List β}
    (himp : ∀ x y, f x = .ok y → g x = .ok y) (h : xs.mapM f = .ok ys) : xs.mapM g = .ok ys := by
  induction xs generalizing ys with
  | nil => exact h
  | cons x xs ih =>
    rw [List.mapM_cons] at h ⊢
    obtain ⟨y, hy, h⟩ := bind_eq_ok.mp h
    obtain ⟨rest, hrest, h⟩ := bind_eq_ok.mp h
    exact bind_eq_ok.mpr ⟨y, himp x y hy, bind_eq_ok.mpr ⟨rest, ih hrest, h⟩⟩

/-- A change of the items that `f` does not see does not show. -/
theorem mapM_map_of_eq {f : α → Except ε β} {change : α → α} {xs : List α}
    (h : ∀ x ∈ xs, f (change x) = f x) : (xs.map change).mapM f = xs.mapM f := by
  induction xs with
  | nil => rfl
  | cons x xs ih =>
    rw [List.forall_mem_cons] at h
    rw [List.map_cons, List.mapM_cons, List.mapM_cons, h.1, ih h.2]

/-- A change of the errors of all items is a change of the error of the list. -/
theorem mapM_mapError {f : α → Except ε β} {g : ε → ε'} {xs : List α} :
    (xs.mapM fun x => (f x).mapError g) = (xs.mapM f).mapError g := by
  induction xs with
  | nil => rfl
  | cons x xs ih =>
    rw [List.mapM_cons, List.mapM_cons, ih]
    cases f x with
    | error e => rfl
    | ok y => cases xs.mapM f <;> rfl

/-- Where not every item of a list goes through, there is a first one that does not. -/
theorem mapM_eq_error {f : α → Except ε β} {xs : List α} {e : ε} : xs.mapM f = .error e ↔
    ∃ before a after, xs = before ++ a :: after ∧ (∀ b ∈ before, ∃ y, f b = .ok y) ∧
      f a = .error e := by
  induction xs with
  | nil => simp [pure, Except.pure]
  | cons x xs ih =>
    rw [List.mapM_cons, bind_eq_error]
    constructor
    · rintro (hx | ⟨y, hy, h⟩)
      · exact ⟨[], x, xs, rfl, nofun, hx⟩
      · obtain h | ⟨ys, -, ⟨⟩⟩ := bind_eq_error.mp h
        obtain ⟨before, a, after, rfl, hbefore, ha⟩ := ih.mp h
        exact ⟨x :: before, a, after, rfl, List.forall_mem_cons.mpr ⟨⟨y, hy⟩, hbefore⟩, ha⟩
    · rintro ⟨before, a, after, hxs, hbefore, ha⟩
      cases before with
      | nil =>
        cases hxs
        exact .inl ha
      | cons b before =>
        cases hxs
        obtain ⟨⟨y, hy⟩, hbefore⟩ := List.forall_mem_cons.mp hbefore
        exact .inr ⟨y, hy, bind_eq_error.mpr (.inl (ih.mpr ⟨before, a, after, rfl, hbefore, ha⟩))⟩

/-- Where steps break off, there is a first one that does not go through. -/
theorem foldlM_eq_error {f : β → α → Except ε β} {xs : List α} {b : β} {e : ε} :
    xs.foldlM f b = .error e ↔ ∃ before a after b', xs = before ++ a :: after ∧
      before.foldlM f b = .ok b' ∧ f b' a = .error e := by
  induction xs generalizing b with
  | nil => simp [pure, Except.pure]
  | cons x xs ih =>
    rw [List.foldlM_cons, bind_eq_error]
    constructor
    · rintro (hx | ⟨b₁, hx, h⟩)
      · exact ⟨[], x, xs, b, rfl, rfl, hx⟩
      · obtain ⟨before, a, after, b', rfl, hbefore, ha⟩ := ih.mp h
        exact ⟨x :: before, a, after, b', rfl, bind_eq_ok.mpr ⟨b₁, hx, hbefore⟩, ha⟩
    · rintro ⟨before, a, after, b', hxs, hbefore, ha⟩
      cases before with
      | nil =>
        cases hxs
        cases hbefore
        exact .inl ha
      | cons c before =>
        cases hxs
        obtain ⟨b₁, hx, hbefore⟩ := bind_eq_ok.mp hbefore
        exact .inr ⟨b₁, hx, ih.mpr ⟨before, a, after, b', rfl, hbefore, ha⟩⟩

/-- Steps that go through with `f` go through with any `g` that agrees where `f` succeeds. -/
theorem foldlM_eq_ok_of_imp {f g : β → α → Except ε β} {xs : List α} {b b' : β}
    (himp : ∀ b x b', f b x = .ok b' → g b x = .ok b') (h : xs.foldlM f b = .ok b') :
    xs.foldlM g b = .ok b' := by
  induction xs generalizing b with
  | nil => exact h
  | cons x xs ih =>
    rw [List.foldlM_cons] at h ⊢
    obtain ⟨b₁, hx, h⟩ := bind_eq_ok.mp h
    exact bind_eq_ok.mpr ⟨b₁, himp b x b₁ hx, ih h⟩

/-- What every step keeps is kept by all of them. -/
theorem foldlM_keeps {P : β → Prop} {f : β → α → Except ε β}
    (hf : ∀ b a b', P b → f b a = .ok b' → P b') {xs : List α} {b b' : β} (hb : P b)
    (h : xs.foldlM f b = .ok b') : P b' := by
  induction xs generalizing b with
  | nil =>
    cases h
    exact hb
  | cons x xs ih =>
    rw [List.foldlM_cons] at h
    obtain ⟨b₁, hx, h⟩ := bind_eq_ok.mp h
    exact ih (hf b x b₁ hb hx) h

end Fallible

namespace Recorded

/-- What comes after a part that succeeds goes on from the state that it left. -/
theorem run_bind_of_ok {σ ε α β : Type} {x : ExceptT ε (StateM σ) α}
    {f : α → ExceptT ε (StateM σ) β} {s s₁ : σ} {a : α} (h : x.run.run s = (.ok a, s₁)) :
    (x >>= f).run.run s = (f a).run.run s₁ := by
  rw [ExceptT.run_bind, StateT.run_bind, h]
  rfl

/-- A failed part ends the run, but what it did to the state remains. -/
theorem run_bind_of_error {σ ε α β : Type} {x : ExceptT ε (StateM σ) α}
    {f : α → ExceptT ε (StateM σ) β} {s s₁ : σ} {e : ε} (h : x.run.run s = (.error e, s₁)) :
    (x >>= f).run.run s = (.error e, s₁) := by
  rw [ExceptT.run_bind, StateT.run_bind, h]
  rfl

/-- Whatever becomes of a part, a value made of its own is made of it alone. -/
theorem run_bind_pure {σ ε α β : Type} (x : ExceptT ε (StateM σ) α) (f : α → β) (s : σ) :
    (x >>= fun a => pure (f a)).run.run s = ((x.run.run s).1.map f, (x.run.run s).2) := by
  rw [ExceptT.run_bind, StateT.run_bind]
  cases x.run.run s with
  | mk res s₁ => cases res <;> rfl

end Recorded

namespace Stateful

variable {σ ε α β : Type} {x : StateT σ (Except ε) α} {s s' : σ} {y : β}

theorem run_bind {f : α → StateT σ (Except ε) β} :
    (x >>= f) s = (x s).bind fun p => f p.1 p.2 := rfl

theorem bind_eq_ok {f : α → StateT σ (Except ε) β} :
    (x >>= f) s = .ok (y, s') ↔ ∃ a s₁, x s = .ok (a, s₁) ∧ f a s₁ = .ok (y, s') := by
  change (x s >>= fun p => f p.1 p.2) = .ok (y, s') ↔ _
  rw [Fallible.bind_eq_ok, Prod.exists]

/-- A run that fails does so in one of its parts, behind those that succeed. -/
theorem bind_eq_error {f : α → StateT σ (Except ε) β} {e : ε} :
    (x >>= f) s = .error e ↔ x s = .error e ∨ ∃ a s₁, x s = .ok (a, s₁) ∧ f a s₁ = .error e := by
  change (x s >>= fun p => f p.1 p.2) = .error e ↔ _
  rw [Fallible.bind_eq_error, Prod.exists]

/-- Where the parts of two runs agree unless they fail with `e`, so do the runs. -/
theorem bind_congr {x' : StateT σ (Except ε) α} {f f' : α → StateT σ (Except ε) β} {e : ε}
    (hx : x s ≠ .error e → x' s = x s)
    (hf : ∀ a s₁, x s = .ok (a, s₁) → f a s₁ ≠ .error e → f' a s₁ = f a s₁)
    (h : (x >>= f) s ≠ .error e) : (x' >>= f') s = (x >>= f) s := by
  rw [run_bind] at h
  rw [run_bind, run_bind]
  cases hr : x s with
  | error e' =>
    have hne : e' ≠ e := by
      rintro rfl
      rw [hr] at h
      exact h rfl
    rw [hx (by simpa [hr] using hne), hr]
    rfl
  | ok p =>
    rw [hr] at h
    have hx' : x' s = .ok p := by rw [hx (by simp [hr]), hr]
    rw [hx']
    exact hf p.1 p.2 hr h

theorem throw_bind {f : α → StateT σ (Except ε) β} {e : ε} :
    ((throw e : StateT σ (Except ε) α) >>= f) s = .error e := rfl

theorem pure_eq_ok {a : β} :
    (pure a : StateT σ (Except ε) β) s = .ok (y, s') ↔ y = a ∧ s' = s := by
  change Except.ok (a, s) = .ok (y, s') ↔ _
  simp [eq_comm]

/-- A computation without state leaves the state as it is. -/
theorem lift_eq_ok {a : Except ε β} :
    (liftM a : StateT σ (Except ε) β) s = .ok (y, s') ↔ a = .ok y ∧ s' = s := by
  cases a with
  | error e =>
    change Except.error e = .ok (y, s') ↔ _
    simp
  | ok b =>
    change Except.ok (b, s) = .ok (y, s') ↔ _
    simp [eq_comm]

theorem lift_eq_error {a : Except ε β} {e : ε} :
    (liftM a : StateT σ (Except ε) β) s = .error e ↔ a = .error e := by
  cases a with
  | error e' =>
    change Except.error e' = .error e ↔ _
    simp
  | ok b =>
    change Except.ok (b, s) = .error e ↔ _
    simp

end Stateful
end SchemaModel
