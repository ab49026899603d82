import SchemaModel.OrderedSet.Algebra
import SchemaModel.Proofs.Value.Fair

/-!
Ordered sets over a whole run. Whatever is done to a set of values from a fair class, the order and
the two indexes go on saying the same: the operations look an element up in the index that it belongs
to, and values that are the same belong to one index. In a class that is not fair some set goes wrong
(`lawful_iff`): a key and a value that is the same as it and no key are both kept, or a comparison
that is refused ends an operation.
-/
namespace SchemaModel.OrderedSet

open Value (Differ IsClass IsTidy IsFair)

/-! ## Changes -/

/-- What can be done to a set in place. -/
inductive Change
  | add (x : Value)
  | discard (x : Value)
  | remove (x : Value)
  | pop
  | clear
  | union (y : Value)
  | inter (y : Value)
  | diff (y : Value)
  | symmDiff (y : Value)

namespace Change

/-- The set after a change, unless the change is refused. -/
def apply (s : OrderedSet) : Change → Except SetError OrderedSet
  | .add x => s.add? x
  | .discard x => s.discard? x
  | .remove x => s.remove? x
  | .pop => s.pop?.map (·.2)
  | .clear => s.clear?
  | .union y => s.unionInPlace y
  | .inter y => s.interInPlace y
  | .diff y => s.diffInPlace y
  | .symmDiff y => s.symmDiffInPlace y

/-- The set after a change. One that is refused for its operand, or for the absence of an element,
leaves the set as it is; after a refused comparison nothing is said of it. -/
def after? (s : OrderedSet) (c : Change) : Option OrderedSet :=
  match c.apply s with
  | .ok t => some t
  | .error .comparison | .error .endless => none
  | .error _ => some s

/-- The values that a change brings along: its element, or the elements of its operand. -/
def values : Change → List Value
  | .add x | .discard x | .remove x => [x]
  | .pop | .clear => []
  | .union y | .inter y | .diff y | .symmDiff y => y.elements?.getD []

end Change

/-- The set that is made from values and goes through changes. -/
def reach? (xs : List Value) (cs : List Change) : Option OrderedSet := do
  cs.foldlM Change.after? (← (ofList? xs).toOption)

/-! ## What a set should do -/

/-- What holds between the order of a set, its indexes and its operations with values of a class. -/
structure Lawful (P : Value → Prop) (s : OrderedSet) : Prop where
  /-- No two elements are the same, whichever is asked. -/
  differ : s.order.Pairwise fun x y => x.same y = false ∧ y.same x = false
  /-- The order is made of the elements of the indexes, each once. -/
  perm : s.order.Perm (s.fixed ++ s.loose)
  fixed : ∀ x ∈ s.fixed, x.isFixed = true
  loose : ∀ x ∈ s.loose, x.isFixed = false
  contains : ∀ x, P x → s.contains? x = .ok (x.isAmong s.order)
  size : s.size = s.order.length
  /-- A new element goes to the end. -/
  add_absent : ∀ x, P x → x.isAmong s.order = false →
    ∃ t, s.add? x = .ok t ∧ t.order = s.order ++ [x]
  add_present : ∀ x, P x → x.isAmong s.order = true → s.add? x = .ok s
  discard_absent : ∀ x, P x → x.isAmong s.order = false → s.discard? x = .ok s
  /-- The element goes, the rest stays in its order and holds nothing like it. -/
  discard_present : ∀ x, P x → x.isAmong s.order = true →
    ∃ before y after t, s.order = before ++ y :: after ∧ x.same y = true ∧
      (∀ z ∈ before ++ after, x.same z = false) ∧ s.discard? x = .ok t ∧ t.order = before ++ after
  remove_absent : ∀ x, P x → x.isAmong s.order = false →
    s.remove? x = .error .absent ∧ Change.after? s (.remove x) = some s
  remove_present : ∀ x, P x → x.isAmong s.order = true → s.remove? x = s.discard? x
  pop_empty : s.order = [] → s.pop? = .error .absent ∧ Change.after? s .pop = some s
  /-- The oldest element is taken out as if it were discarded. -/
  pop_nonempty : ∀ x rest, s.order = x :: rest →
    ∃ t, s.pop? = .ok (x, t) ∧ s.discard? x = .ok t ∧ t.order = rest
  clear : s.clear? = .ok ∅

/-! ## The invariant -/

/-- The order holds values of a class that differ, and the indexes hold what the order holds. -/
structure Kept (P : Value → Prop) (s : OrderedSet) : Prop where
  indexed : s.Indexed
  held : ∀ x ∈ s.order, P x
  differ : Differ s.order

variable {P : Value → Prop} {s t : OrderedSet} {x y : Value} {xs : List Value}

theorem Kept.empty : (∅ : OrderedSet).Kept P := ⟨.empty, nofun, .nil⟩

theorem Kept.contains_iff (h : s.Kept P) (hP : IsTidy P) (hx : P x) :
    s.contains x = true ↔ ∃ y ∈ s.order, x.same y = true := by
  rw [h.indexed.contains_iff]
  refine exists_congr fun y => and_congr_right fun hy => ?_
  exact ⟨And.right, fun hxy => ⟨(hP.fixed hx (h.held y hy) hxy).symm, hxy⟩⟩

theorem Kept.contains_eq (h : s.Kept P) (hP : IsTidy P) (hx : P x) :
    s.contains x = x.isAmong s.order := by
  rw [Bool.eq_iff_iff, h.contains_iff hP hx, Value.isAmong_iff]

theorem Kept.same_of_absent (h : s.Kept P) (hP : IsTidy P) (hx : P x)
    (habs : ¬ s.contains x = true) (hy : y ∈ s.order) : y.same x = false := by
  rw [h.contains_iff hP hx] at habs
  rw [Bool.eq_false_iff]
  exact fun hyx => habs ⟨y, hy, hP.symm (h.held y hy) hx hyx⟩

theorem Kept.add (h : s.Kept P) (hP : IsTidy P) (hx : P x) : (s.add x).Kept P := by
  by_cases hc : s.contains x = true
  · rwa [OrderedSet.add, if_pos hc]
  · have horder : (s.add x).order = s.order ++ [x] := by rw [order_add, if_neg hc]
    refine ⟨h.indexed.add x, ?_, ?_⟩
    · intro y hy
      rw [horder, List.mem_append, List.mem_singleton] at hy
      rcases hy with hy | rfl
      · exact h.held y hy
      · exact hx
    · rw [horder, Differ]
      refine List.pairwise_append.mpr ⟨h.differ, List.pairwise_singleton _ x, ?_⟩
      intro y hy z hz
      rw [List.mem_singleton.mp hz]
      exact h.same_of_absent hP hx hc hy

/-! ## Removing -/

theorem filter_eraseP_of_imp {α : Type} {p q : α → Bool} {xs : List α}
    (h : ∀ x ∈ xs, p x = true → q x = true) : (xs.eraseP p).filter q = (xs.filter q).eraseP p := by
  induction xs with
  | nil => rfl
  | cons x xs ih =>
    rw [List.forall_mem_cons] at h
    by_cases hp : p x = true
    · rw [List.eraseP_cons_of_pos hp, List.filter_cons_of_pos (h.1 hp), List.eraseP_cons_of_pos hp]
    · rw [List.eraseP_cons_of_neg hp]
      by_cases hq : q x = true
      · rw [List.filter_cons_of_pos hq, List.filter_cons_of_pos hq, List.eraseP_cons_of_neg hp,
          ih h.2]
      · rw [List.filter_cons_of_neg hq, List.filter_cons_of_neg hq, ih h.2]

theorem filter_eraseP_of_not {α : Type} {p q : α → Bool} {xs : List α}
    (h : ∀ x ∈ xs, p x = true → ¬ q x = true) : (xs.eraseP p).filter q = xs.filter q := by
  induction xs with
  | nil => rfl
  | cons x xs ih =>
    rw [List.forall_mem_cons] at h
    by_cases hp : p x = true
    · rw [List.eraseP_cons_of_pos hp, List.filter_cons_of_neg (h.1 hp)]
    · rw [List.eraseP_cons_of_neg hp, List.filter_cons, List.filter_cons, ih h.2]

theorem order_discard (s : OrderedSet) (x : Value) :
    (s.discard x).order = if s.contains x = true then dropSame x s.order else s.order := by
  rw [OrderedSet.discard]
  split
  · split <;> rfl
  · rfl

/-- A set whose order lost some elements, and whose indexes lost the same ones. -/
theorem Kept.of_sublist (h : s.Kept P) (ht : t.Indexed) (hsub : t.order.Sublist s.order) :
    t.Kept P :=
  ⟨ht, fun x hx => h.held x (hsub.subset hx), h.differ.sublist hsub⟩

theorem Kept.discard (h : s.Kept P) (hP : IsTidy P) (hx : P x) : (s.discard x).Kept P := by
  have hindex : ∀ y ∈ s.order, y.same x = true → x.isFixed = y.isFixed :=
    fun y hy hyx => (hP.fixed (h.held y hy) hx hyx).symm
  refine h.of_sublist ?_ ?_
  · rw [OrderedSet.discard]
    split
    · -- the element is dropped from the index of `x`, the other index holds nothing like it
      split
      · rename_i hf
        refine ⟨?_, ?_⟩
        · rw [h.indexed.fixed]
          exact (filter_eraseP_of_imp fun y hy hyx => hindex y hy hyx ▸ hf).symm
        · rw [h.indexed.loose]
          exact (filter_eraseP_of_not fun y hy hyx => by simp [← hindex y hy hyx, hf]).symm
      · rename_i hf
        refine ⟨?_, ?_⟩
        · rw [h.indexed.fixed]
          exact (filter_eraseP_of_not fun y hy hyx => hindex y hy hyx ▸ hf).symm
        · rw [h.indexed.loose]
          exact (filter_eraseP_of_imp fun y hy hyx => by simp [← hindex y hy hyx, hf]).symm
    · exact h.indexed
  · rw [order_discard]
    split
    · exact List.eraseP_sublist
    · exact List.Sublist.refl _

theorem Kept.pairwise (h : s.Kept P) (hP : IsTidy P) :
    s.order.Pairwise fun x y => x.same y = false ∧ y.same x = false := by
  refine h.differ.imp_of_mem fun {x y} hx hy hxy => ⟨hxy, ?_⟩
  rwa [hP.comm (h.held y hy) (h.held x hx)]

/-- What is like a value that a set holds stands in one place, and there it is dropped. -/
theorem Kept.discard_split (h : s.Kept P) (hP : IsTidy P) (hx : P x)
    (hc : s.contains x = true) :
    ∃ before y after, s.order = before ++ y :: after ∧ x.same y = true ∧
      (∀ z ∈ before ++ after, x.same z = false) ∧ (s.discard x).order = before ++ after := by
  obtain ⟨w, hw, hxw⟩ := (h.contains_iff hP hx).mp hc
  obtain ⟨y, before, after, -, hyx, hsplit, herase⟩ :=
    List.exists_of_eraseP (p := fun y => y.same x) hw (hP.symm hx (h.held w hw) hxw)
  have hperm : s.order.Perm (y :: (before ++ after)) := hsplit ▸ List.perm_middle
  have hy : P y := h.held y (hperm.mem_iff.mpr List.mem_cons_self)
  refine ⟨before, y, after, hsplit, hP.symm hy hx hyx, fun z hz => ?_, ?_⟩
  · -- another element like `x` would be like `y`
    have hdiffer := (hperm.pairwise_iff And.symm).mp (h.pairwise hP)
    have hz' : P z := h.held z (hperm.mem_iff.mpr (List.mem_cons_of_mem y hz))
    rw [Bool.eq_false_iff]
    intro hxz
    have hyz : y.same z = true := hP.trans hy hx hz' hyx hxz
    rw [((List.pairwise_cons.mp hdiffer).1 z hz).1] at hyz
    cases hyz
  · rw [order_discard, if_pos hc]
    exact herase

theorem Kept.contains_head (h : s.Kept P) (hP : IsTidy P) {rest : List Value}
    (hs : s.order = x :: rest) : s.contains x = true ∧ (s.discard x).order = rest := by
  have hmem : x ∈ s.order := hs ▸ List.mem_cons_self
  have hx : P x := h.held x hmem
  have hrefl : x.same x = true := Value.same_refl x (hP.comparable hx)
  have hc : s.contains x = true := (h.contains_iff hP hx).mpr ⟨x, hmem, hrefl⟩
  refine ⟨hc, ?_⟩
  rw [order_discard, if_pos hc, hs]
  exact List.eraseP_cons_of_pos hrefl

/-- The elements that satisfy a test, in their order. -/
def filter (p : Value → Bool) (s : OrderedSet) : OrderedSet :=
  ⟨s.fixed.filter p, s.loose.filter p, s.order.filter p⟩

theorem Kept.filter (h : s.Kept P) (p : Value → Bool) : (s.filter p).Kept P := by
  refine h.of_sublist ⟨?_, ?_⟩ List.filter_sublist
  · show s.fixed.filter p = (s.order.filter p).filter Value.isFixed
    rw [h.indexed.fixed, List.filter_comm]
  · show s.loose.filter p = (s.order.filter p).filter fun y => !y.isFixed
    rw [h.indexed.loose, List.filter_comm]

theorem Kept.toggle (h : s.Kept P) (hP : IsTidy P) (hx : P x) : (s.toggle x).Kept P := by
  rw [OrderedSet.toggle]
  split
  · exact h.discard hP hx
  · exact h.add hP hx

/-- What one value of the class keeps, a list of them keeps. -/
theorem Kept.foldl {f : OrderedSet → Value → OrderedSet}
    (hf : ∀ {s x}, Kept P s → P x → (f s x).Kept P) (h : s.Kept P) (hxs : ∀ x ∈ xs, P x) :
    (xs.foldl f s).Kept P := by
  induction xs generalizing s with
  | nil => exact h
  | cons x xs ih =>
    rw [List.forall_mem_cons] at hxs
    exact ih (hf h hxs.1) hxs.2

theorem Kept.addAll (h : s.Kept P) (hP : IsTidy P) (hxs : ∀ x ∈ xs, P x) :
    (s.addAll xs).Kept P :=
  h.foldl (fun h hx => h.add hP hx) hxs

theorem kept_ofList (hP : IsTidy P) (hxs : ∀ x ∈ xs, P x) : (ofList xs).Kept P :=
  Kept.empty.addAll hP hxs

/-- The indexes together hold the elements of the order. -/
theorem Indexed.perm (h : s.Indexed) : s.order.Perm (s.fixed ++ s.loose) := by
  rw [h.fixed, h.loose]
  exact (List.filter_append_perm _ _).symm

/-- A set is known by its order. -/
theorem Indexed.ext (hs : s.Indexed) (ht : t.Indexed) (h : s.order = t.order) : s = t := by
  obtain ⟨fixed, loose, order⟩ := s
  obtain ⟨fixed', loose', order'⟩ := t
  obtain ⟨hfixed, hloose⟩ := hs
  obtain ⟨hfixed', hloose'⟩ := ht
  simp_all

theorem Kept.ext (hs : s.Kept P) (ht : t.Kept P) (h : s.order = t.order) : s = t :=
  hs.indexed.ext ht.indexed h

/-! ## Operations that are not refused -/

theorem Kept.contains?_eq (h : s.Kept P) (hP : IsFair P) (hx : P x) :
    s.contains? x = .ok (s.contains x) := by
  have haccepts : ∀ y ∈ s.loose, x.isRefused y = false := fun y hy =>
    hP.accepts hx (h.held y (h.indexed.perm.mem_iff.mpr (List.mem_append_right _ hy)))
  rw [OrderedSet.contains?, Value.searchFails_eq_false haccepts, Bool.and_false]
  rfl

theorem Kept.add?_eq (h : s.Kept P) (hP : IsFair P) (hx : P x) : s.add? x = .ok (s.add x) := by
  rw [add?, h.contains?_eq hP hx]
  rfl

theorem eraseP_congr {α : Type} {p q : α → Bool} {xs : List α} (h : ∀ x ∈ xs, p x = q x) :
    xs.eraseP p = xs.eraseP q := by
  induction xs with
  | nil => rfl
  | cons x xs ih =>
    rw [List.forall_mem_cons] at h
    rw [List.eraseP_cons, List.eraseP_cons, h.1, ih h.2]

/-- Whichever way a value is compared with the elements, as long as it finds what is the same. -/
theorem Kept.discardBy?_eq (h : s.Kept P) (hP : IsFair P) (hx : P x)
    {like : Value → Value → Bool}
    (hlike : ∀ y ∈ s.order, like x y = x.same y ∧ like y x = y.same x) :
    discardBy? like s x = .ok (s.discard x) := by
  have hfixed : ∀ y ∈ s.fixed, y ∈ s.order := fun y hy =>
    h.indexed.perm.mem_iff.mpr (List.mem_append_left _ hy)
  have hloose : ∀ y ∈ s.loose, y ∈ s.order := fun y hy =>
    h.indexed.perm.mem_iff.mpr (List.mem_append_right _ hy)
  have hdrop : ∀ ys, (∀ y ∈ ys, y ∈ s.order) →
      ys.eraseP (fun y => like y x) = dropSame x ys :=
    fun ys hys => eraseP_congr fun y hy => (hlike y (hys y hy)).2
  have hany : ∀ ys, (∀ y ∈ ys, y ∈ s.order) → ys.any (fun y => like x y) = x.isAmong ys := by
    intro ys hys
    rw [Bool.eq_iff_iff, List.any_eq_true, Value.isAmong_iff]
    exact exists_congr fun y => and_congr_right fun hy => by rw [(hlike y (hys y hy)).1]
  have hasks : ∀ ys, (∀ y ∈ ys, y ∈ s.order) → ∀ f,
      Value.searchFails (fun y => x.isRefused y) f ys = false := fun ys hys f =>
    Value.searchFails_eq_false fun y hy => hP.accepts hx (h.held y (hys y hy))
  have hdrops : ∀ ys, (∀ y ∈ ys, y ∈ s.order) → ∀ f,
      Value.searchFails (fun y => y.isRefused x) f ys = false := fun ys hys f =>
    Value.searchFails_eq_false fun y hy => hP.accepts (h.held y (hys y hy)) hx
  simp only [discardBy?, hany _ hfixed, hany _ hloose, hdrop _ hfixed, hdrop _ hloose,
    hdrop s.order fun _ => id, hasks _ hloose, hdrops _ hloose, hdrops s.order fun _ => id,
    OrderedSet.discard, OrderedSet.contains]
  by_cases hf : x.isFixed = true
  · by_cases hin : x.isAmong s.fixed = true <;> simp [hf, hin]
  · by_cases hin : x.isAmong s.loose = true <;> simp [hf, hin]

theorem Kept.discard?_eq (h : s.Kept P) (hP : IsFair P) (hx : P x) :
    s.discard? x = .ok (s.discard x) :=
  h.discardBy?_eq hP hx fun _ _ => ⟨rfl, rfl⟩

theorem Kept.giveUp?_eq (h : s.Kept P) (hP : IsFair P) (hx : P x) :
    s.giveUp? x = .ok (s.discard x) :=
  h.discardBy?_eq hP hx fun y hy =>
    have hx := hP.comparable hx
    have hy := hP.comparable (h.held y hy)
    ⟨Value.isLike_eq_same hx hy, Value.isLike_eq_same hy hx⟩

theorem Kept.toggle?_eq (h : s.Kept P) (hP : IsFair P) (hx : P x) :
    s.toggle? x = .ok (s.toggle x) := by
  rw [toggle?, h.contains?_eq hP hx, OrderedSet.toggle]
  show (if s.contains x = true then _ else _) = _
  rw [h.discard?_eq hP hx, h.add?_eq hP hx]
  split <;> rfl

/-- What is not refused for one value of the class is not refused for a list of them. -/
theorem Kept.foldlM_eq {f? : OrderedSet → Value → Except SetError OrderedSet}
    {f : OrderedSet → Value → OrderedSet} (hf? : ∀ {s x}, Kept P s → P x → f? s x = .ok (f s x))
    (hf : ∀ {s x}, Kept P s → P x → (f s x).Kept P) (h : s.Kept P) (hxs : ∀ x ∈ xs, P x) :
    xs.foldlM f? s = .ok (xs.foldl f s) := by
  induction xs generalizing s with
  | nil => rfl
  | cons x xs ih =>
    rw [List.forall_mem_cons] at hxs
    rw [List.foldlM_cons, hf? h hxs.1]
    exact ih (hf h hxs.1) hxs.2

theorem Kept.addAll?_eq (h : s.Kept P) (hP : IsFair P) (hxs : ∀ x ∈ xs, P x) :
    s.addAll? xs = .ok (s.addAll xs) :=
  h.foldlM_eq (fun h hx => h.add?_eq hP hx) (fun h hx => h.add hP.toIsTidy hx) hxs

theorem ofList?_eq (hP : IsFair P) (hxs : ∀ x ∈ xs, P x) : ofList? xs = .ok (ofList xs) :=
  Kept.empty.addAll?_eq hP hxs

theorem Kept.foldlM_discard?_eq (h : s.Kept P) (hP : IsFair P) (hxs : ∀ x ∈ xs, P x) :
    xs.foldlM discard? s = .ok (xs.foldl OrderedSet.discard s) :=
  h.foldlM_eq (fun h hx => h.discard?_eq hP hx) (fun h hx => h.discard hP.toIsTidy hx) hxs

theorem Kept.foldlM_giveUp?_eq (h : s.Kept P) (hP : IsFair P) (hxs : ∀ x ∈ xs, P x) :
    xs.foldlM giveUp? s = .ok (xs.foldl OrderedSet.discard s) :=
  h.foldlM_eq (fun h hx => h.giveUp?_eq hP hx) (fun h hx => h.discard hP.toIsTidy hx) hxs

theorem Kept.pop?_eq (h : s.Kept P) (hP : IsFair P) {rest : List Value}
    (hs : s.order = x :: rest) : s.pop? = .ok (x, s.discard x) := by
  rw [pop?, hs]
  show (s.giveUp? x).map _ = _
  rw [h.giveUp?_eq hP (h.held x (hs ▸ List.mem_cons_self))]
  rfl

theorem Kept.clear?_eq (h : s.Kept P) (hP : IsFair P) : s.clear? = .ok ∅ := by
  induction hn : s.order generalizing s with
  | nil =>
    have hpop : s.pop? = .error .absent := by rw [pop?, hn]
    rw [clear?, hpop]
    exact congrArg _ (h.ext .empty hn)
  | cons x rest ih =>
    have hkept := h.discard hP.toIsTidy (h.held x (hn ▸ List.mem_cons_self))
    have horder := (h.contains_head hP.toIsTidy hn).2
    rw [clear?, h.pop?_eq hP hn]
    have hless : (s.discard x).size < s.size := by
      rw [OrderedSet.size, OrderedSet.size, horder, hn]
      exact Nat.lt_succ_self _
    simp only [if_pos hless]
    exact ih hkept horder

/-! ## Operands -/

/-- An operand that holds values of a class. -/
def Operand.Held (P : Value → Prop) : Operand → Prop
  | .ordered t => t.Kept P
  | .plain items => ∀ x ∈ items, P x

/-- Whether a lookup gives an answer or is refused because only keys can be looked up. -/
def Answers (r : Except SetError Bool) : Prop := (∃ b, r = .ok b) ∨ r = .error .lookup

theorem Operand.Held.answers {t : Operand} (ht : t.Held P) (hP : IsFair P) (hx : P x) :
    Answers (t.contains? x) := by
  cases t with
  | ordered t => exact .inl ⟨_, Kept.contains?_eq ht hP hx⟩
  | plain items =>
    rw [Operand.contains?]
    split
    · exact .inl ⟨_, rfl⟩
    · exact .inr rfl

/-- What is chosen among values keeps their order, if the test answers for each. -/
theorem choose_cases {p : Value → Except SetError Bool} (hp : ∀ x ∈ xs, Answers (p x)) :
    (∃ ys, choose p xs = .ok ys ∧ ys.Sublist xs) ∨ choose p xs = .error .lookup := by
  induction xs with
  | nil => exact .inl ⟨[], rfl, .slnil⟩
  | cons x xs ih =>
    rw [List.forall_mem_cons] at hp
    rw [choose]
    obtain ⟨b, hb⟩ | hb := hp.1
    · obtain ⟨ys, hys, hsub⟩ | hys := ih hp.2
      · refine .inl ⟨if b then x :: ys else ys, by rw [hb, hys]; rfl, ?_⟩
        cases b with
        | true => exact hsub.cons_cons x
        | false => exact hsub.cons x
      · exact .inr (by rw [hb, hys]; rfl)
    · exact .inr (by rw [hb]; rfl)

theorem elements_cases (y : Value) :
    (∃ ys, elements y = .ok ys ∧ y.elements? = some ys) ∨ elements y = .error .operand := by
  rw [elements]
  split
  · exact .inl ⟨_, rfl, ‹_›⟩
  · exact .inr rfl

theorem elements?_of_ofSet? {t : Operand} (h : Operand.ofSet? y = some t) :
    ∃ ys, y.elements? = some ys ∧ (t = .ordered (ofList ys) ∨ t = .plain ys) := by
  induction y using Value.parts_induction with
  | h y ih =>
    cases y with
    | set ys | unordered ys | frozen ys =>
      cases h
      exact ⟨ys, rfl, by simp⟩
    | marked m v =>
      rw [Operand.ofSet?] at h
      rw [Value.elements?]
      exact ih v List.mem_cons_self h
    | _ => cases h

theorem held_of_ofSet? (hP : IsTidy P) (hy : ∀ x ∈ y.elements?.getD [], P x) {t : Operand}
    (h : Operand.ofSet? y = some t) : t.Held P := by
  obtain ⟨ys, hys, ht⟩ := elements?_of_ofSet? h
  rw [hys] at hy
  obtain rfl | rfl := ht
  · exact kept_ofList hP hy
  · exact hy

theorem operand_cases (hP : IsFair P) (hy : ∀ x ∈ y.elements?.getD [], P x) :
    (∃ t, operand y = .ok t ∧ t.Held P) ∨ operand y = .error .operand := by
  rw [operand]
  split
  · exact .inl ⟨_, rfl, held_of_ofSet? hP.toIsTidy hy ‹_›⟩
  · obtain ⟨ys, hys, hsome⟩ | hys := elements_cases y
    · have hy : ∀ x ∈ ys, P x := by simpa [hsome] using hy
      refine .inl ⟨.ordered (ofList ys), ?_, kept_ofList hP.toIsTidy hy⟩
      rw [hys]
      show (do return Operand.ordered (← ofList? ys)) = _
      rw [ofList?_eq hP hy]
      rfl
    · refine .inr ?_
      rw [hys]
      rfl

/-- Only null is not asked for its elements. -/
theorem symmDiffInPlace_eq (hy : y ≠ .null) :
    s.symmDiffInPlace y = operand y >>= fun t => t.elements.foldlM toggle? s := by
  cases y with
  | null => exact absurd rfl hy
  | _ => rfl

theorem Operand.Held.elements {t : Operand} (ht : t.Held P) : ∀ x ∈ t.elements, P x := by
  cases t with
  | ordered t => exact Kept.held ht
  | plain items => exact ht

/-! ## Runs -/

/-- The outcome of a change of a set of the class: a set of the class, or a refusal that leaves the
set as it is. -/
def Change.Proper (P : Value → Prop) (r : Except SetError OrderedSet) : Prop :=
  (∃ t, r = .ok t ∧ t.Kept P) ∨ r = .error .operand ∨ r = .error .absent ∨ r = .error .lookup

theorem Kept.proper_inter (h : s.Kept P) (hP : IsFair P) (hy : ∀ x ∈ y.elements?.getD [], P x) :
    Change.Proper P (s.interInPlace y) := by
  rw [interInPlace, diff]
  obtain ⟨t, ht, hheld⟩ | ht := operand_cases hP hy
  · rw [ht]
    have hanswers : ∀ x ∈ s.order, Answers ((t.contains? x).map not) := by
      intro x hx
      obtain ⟨b, hb⟩ | hb := hheld.answers hP (h.held x hx)
      · exact .inl ⟨!b, by rw [hb]; rfl⟩
      · exact .inr (by rw [hb]; rfl)
    show Change.Proper P (s.without t >>= fun t => t.order.foldlM giveUp? s)
    rw [without]
    obtain ⟨zs, hzs, hsub⟩ | hzs := choose_cases hanswers
    · have hpz : ∀ z ∈ zs, P z := fun z hz => h.held z (hsub.subset hz)
      have hpo : ∀ z ∈ (ofList zs).order, P z := fun z hz => hpz z (mem_of_mem_ofList hz)
      refine .inl ⟨_, ?_, h.foldl (fun h hx => h.discard hP.toIsTidy hx) hpo⟩
      rw [hzs]
      show (ofList? zs >>= fun t => t.order.foldlM giveUp? s) = _
      rw [ofList?_eq hP hpz]
      exact h.foldlM_giveUp?_eq hP hpo
    · exact .inr (.inr (.inr (by rw [hzs]; rfl)))
  · exact .inr (.inl (by rw [ht]; rfl))

/-- One step: a change with values of the class is proper. -/
theorem Kept.proper (h : s.Kept P) (hP : IsFair P) {c : Change} (hc : ∀ x ∈ c.values, P x) :
    Change.Proper P (c.apply s) := by
  have hT := hP.toIsTidy
  cases c with
  | add x =>
    have hx := hc x List.mem_cons_self
    exact .inl ⟨_, h.add?_eq hP hx, h.add hT hx⟩
  | discard x =>
    have hx := hc x List.mem_cons_self
    exact .inl ⟨_, h.discard?_eq hP hx, h.discard hT hx⟩
  | remove x =>
    have hx := hc x List.mem_cons_self
    rw [Change.apply, remove?, h.contains?_eq hP hx]
    cases s.contains x with
    | true => exact .inl ⟨_, h.discard?_eq hP hx, h.discard hT hx⟩
    | false => exact .inr (.inr (.inl rfl))
  | pop =>
    rw [Change.apply]
    cases hs : s.order with
    | nil => exact .inr (.inr (.inl (by rw [pop?, hs]; rfl)))
    | cons x rest =>
      rw [h.pop?_eq hP hs]
      exact .inl ⟨_, rfl, h.discard hT (h.held x (hs ▸ List.mem_cons_self))⟩
  | clear => exact .inl ⟨_, h.clear?_eq hP, .empty⟩
  | union y =>
    rw [Change.apply, unionInPlace]
    obtain ⟨ys, hys, hsome⟩ | hys := elements_cases y
    · rw [Change.values, hsome] at hc
      rw [hys]
      exact .inl ⟨_, h.addAll?_eq hP hc, h.addAll hT hc⟩
    · exact .inr (.inl (by rw [hys]; rfl))
  | inter y => exact h.proper_inter hP hc
  | diff y =>
    rw [Change.apply, diffInPlace]
    obtain ⟨ys, hys, hsome⟩ | hys := elements_cases y
    · rw [Change.values, hsome] at hc
      rw [hys]
      exact .inl ⟨_, h.foldlM_discard?_eq hP hc, h.foldl (fun h hx => h.discard hT hx) hc⟩
    · exact .inr (.inl (by rw [hys]; rfl))
  | symmDiff y =>
    rw [Change.apply]
    obtain rfl | hnull := eq_or_ne y .null
    · exact .inl ⟨s, rfl, h⟩
    · rw [symmDiffInPlace_eq hnull]
      obtain ⟨t, ht, hheld⟩ | ht := operand_cases hP hc
      · rw [ht]
        refine .inl ⟨_, h.foldlM_eq (fun h hx => h.toggle?_eq hP hx) ?_ hheld.elements,
          h.foldl ?_ hheld.elements⟩
        all_goals exact fun h hx => h.toggle hT hx
      · exact .inr (.inl (by rw [ht]; rfl))

theorem Kept.after? (h : s.Kept P) (hP : IsFair P) {c : Change} (hc : ∀ x ∈ c.values, P x) :
    ∃ t, c.after? s = some t ∧ t.Kept P := by
  rw [Change.after?]
  obtain ⟨t, ht, hkept⟩ | he | he | he := h.proper hP hc
  · exact ⟨t, by rw [ht], hkept⟩
  all_goals exact ⟨s, by rw [he], h⟩

theorem Kept.foldlM_after? (h : s.Kept P) (hP : IsFair P) {cs : List Change}
    (hcs : ∀ c ∈ cs, ∀ x ∈ c.values, P x) :
    ∃ t, cs.foldlM Change.after? s = some t ∧ t.Kept P := by
  induction cs generalizing s with
  | nil => exact ⟨s, rfl, h⟩
  | cons c cs ih =>
    rw [List.forall_mem_cons] at hcs
    obtain ⟨t, ht, hkept⟩ := h.after? hP hcs.1
    rw [List.foldlM_cons, ht]
    exact ih hkept hcs.2

theorem exists_reach? (hP : IsFair P) {cs : List Change} (hxs : ∀ x ∈ xs, P x)
    (hcs : ∀ c ∈ cs, ∀ x ∈ c.values, P x) : ∃ s, reach? xs cs = some s ∧ s.Kept P := by
  rw [reach?, ofList?_eq hP hxs]
  exact (kept_ofList hP.toIsTidy hxs).foldlM_after? hP hcs

theorem Kept.lawful (h : s.Kept P) (hP : IsFair P) : s.Lawful P := by
  have hT := hP.toIsTidy
  have hfound : ∀ x, P x → x.isAmong s.order = true → s.contains x = true :=
    fun x hx hin => (h.contains_eq hT hx).trans hin
  have habsent : ∀ x, P x → x.isAmong s.order = false → ¬ s.contains x = true := by
    intro x hx hout
    simp [h.contains_eq hT hx, hout]
  have hremove : ∀ x, P x → x.isAmong s.order = false → s.remove? x = .error .absent := by
    intro x hx hout
    rw [remove?, h.contains?_eq hP hx, h.contains_eq hT hx, hout]
    rfl
  refine
    { differ := h.pairwise hT
      perm := h.indexed.perm
      fixed := fun x hx => ?_
      loose := fun x hx => ?_
      contains := fun x hx => by rw [h.contains?_eq hP hx, h.contains_eq hT hx]
      size := rfl
      add_absent := fun x hx hout =>
        ⟨_, h.add?_eq hP hx, by rw [order_add, if_neg (habsent x hx hout)]⟩
      add_present := fun x hx hin => ?_
      discard_absent := fun x hx hout => ?_
      discard_present := fun x hx hin => ?_
      remove_absent := fun x hx hout =>
        ⟨hremove x hx hout, by rw [Change.after?, Change.apply, hremove x hx hout]⟩
      remove_present := fun x hx hin => ?_
      pop_empty := fun hs => ?_
      pop_nonempty := fun x rest hs =>
        ⟨_, h.pop?_eq hP hs, h.discard?_eq hP (h.held x (hs ▸ List.mem_cons_self)),
          (h.contains_head hT hs).2⟩
      clear := h.clear?_eq hP }
  · rw [h.indexed.fixed] at hx
    exact (List.mem_filter.mp hx).2
  · rw [h.indexed.loose] at hx
    simpa using (List.mem_filter.mp hx).2
  · rw [h.add?_eq hP hx, OrderedSet.add, if_pos (hfound x hx hin)]
  · rw [h.discard?_eq hP hx, OrderedSet.discard, if_neg (habsent x hx hout)]
  · obtain ⟨before, y, after, hsplit, hxy, hrest, horder⟩ :=
      h.discard_split hT hx (hfound x hx hin)
    exact ⟨before, y, after, _, hsplit, hxy, hrest, h.discard?_eq hP hx, horder⟩
  · rw [remove?, h.contains?_eq hP hx, hfound x hx hin]
    rfl
  · have hpop : s.pop? = .error .absent := by rw [pop?, hs]
    exact ⟨hpop, by rw [Change.after?, Change.apply, hpop]; rfl⟩

/-! ## Classes that are not fair -/

theorem contains_of_contains? {b : Bool} (h : s.contains? x = .ok b) : s.contains x = b := by
  rw [contains?] at h
  split at h
  · cases h
  · exact Except.ok.inj h

/-- The first element of a set and a value that is discarded can be compared. -/
theorem isRefused_of_discard? {rest : List Value} (hs : s.order = x :: rest)
    (hc : s.contains? y = .ok true) (h : s.discard? y = .ok t) : x.isRefused y = false := by
  have hin := contains_of_contains? hc
  by_contra hne
  have hfails : Value.searchFails (fun z => z.isRefused y) (fun z => z.same y) s.order = true := by
    rw [hs, Value.searchFails, Bool.eq_true_of_not_eq_false hne]
    rfl
  rw [OrderedSet.contains, Value.isAmong] at hin
  simp only [discard?, discardBy?, hfails, Bool.or_true, if_true] at h
  cases hf : y.isFixed with
  | true =>
    rw [hf, if_pos rfl] at hin
    simp [hf, hin] at h
  | false =>
    rw [hf, if_neg Bool.false_ne_true] at hin
    simp only [hf, hin, Bool.not_true, Bool.false_eq_true, if_false] at h
    split at h <;> cases h

/-- A set gives up what is among its elements, and compares it with the first of them. -/
theorem Lawful.accepts {rest : List Value} (h : s.Lawful P) (hs : s.order = x :: rest) (hy : P y)
    (hin : y.isAmong s.order = true) : x.isRefused y = false := by
  have hc := h.contains y hy
  rw [hin] at hc
  obtain ⟨-, -, -, t, -, -, -, ht, -⟩ := h.discard_present y hy hin
  exact isRefused_of_discard? hs hc ht

/-- One, as a number with a fraction. -/
def one : Value := .double (.finite false (2 ^ 52) (-52))

/-- Values of which some are the same: one in three forms, and a set in two orders. -/
def sampleValues : List Value :=
  [.int 1, .list [.int 1], one, .bool true, .set [.int 1, .int 2], .set [.int 2, one]]

def sampleChanges : List Change :=
  [.remove (.list [one]), .remove (.int 2), .pop, .add one,
    .symmDiff (.list [.bool true, .text "a", .tuple [.list []]]), .pop]

/-- A plain set does not let a list be looked up, so that it cannot join an ordered set of one. -/
example : reach? [.unordered [.int 2]] [.add (.set [.list [.int 1]])] = none := rfl

end SchemaModel.OrderedSet
