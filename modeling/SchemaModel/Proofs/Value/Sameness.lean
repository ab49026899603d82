import Mathlib.Data.Fintype.EquivFin
import Mathlib.Data.List.Forall2
import SchemaModel.Proofs.Number.Exact
import SchemaModel.Proofs.OrderedSet.Distinct

/-!
Sameness of values is an equivalence. This needs numbers to be numbers, and sets and mappings not to
hold an element or a key twice: then two sets of one size of which the first lies within the second
have the same elements. It also needs keys to be the same as keys only. A frozen set is a key and the
same as an ordered set with its elements, which is none; and since an ordered set does not find the
one for the other, two ordered sets that are the same as a third one may differ.
-/
namespace SchemaModel.Value

/-- No two values of a list are the same. -/
def Differ (xs : List Value) : Prop := xs.Pairwise fun x y => x.same y = false

instance (xs : List Value) : Decidable (Differ xs) :=
  inferInstanceAs (Decidable (xs.Pairwise _))

mutual

/-- Whether a value can be an element: there is no not-a-number in it, the sets and mappings in it
hold no element or key twice, those without order hold keys, and it stands by itself, without the
marks of a document. -/
def isComparable : Value → Bool
  | .double x => x.isNumber
  | .list xs | .tuple xs => allComparable xs
  | .set xs => allComparable xs && decide (OrderedSet.Distinct xs)
  | .unordered xs | .frozen xs => allComparable xs && allFixed xs && decide (Differ xs)
  | .mapping es => entriesComparable es && decide (Differ (es.map (·.1)))
  | .marked .. | .again .. => false
  | _ => true

def allComparable : List Value → Bool
  | [] => true
  | x :: xs => x.isComparable && allComparable xs

def entriesComparable : List (Value × Value) → Bool
  | [] => true
  | (k, v) :: es => k.isComparable && v.isComparable && entriesComparable es

end

theorem allComparable_iff {xs : List Value} :
    allComparable xs = true ↔ ∀ x ∈ xs, x.isComparable = true := by
  induction xs with
  | nil => simp [allComparable]
  | cons x xs ih => simp [allComparable, ih]

theorem allFixed_iff {xs : List Value} : allFixed xs = true ↔ ∀ x ∈ xs, x.isFixed = true := by
  induction xs with
  | nil => simp [allFixed]
  | cons x xs ih => simp [allFixed, ih]

theorem entriesComparable_iff {es : List (Value × Value)} : entriesComparable es = true ↔
    ∀ e ∈ es, e.1.isComparable = true ∧ e.2.isComparable = true := by
  induction es with
  | nil => simp [entriesComparable]
  | cons e es ih => simp [entriesComparable, ih]

/-! ## Sameness of parts -/

theorem sameAll_iff {xs ys : List Value} :
    sameAll xs ys = true ↔ List.Forall₂ (fun x y => x.same y = true) xs ys := by
  induction xs generalizing ys with
  | nil => cases ys <;> simp [sameAll]
  | cons x xs ih => cases ys <;> simp [sameAll, ih]

theorem allAmong_iff {xs ys : List Value} :
    allAmong xs ys = true ↔ ∀ x ∈ xs, ∃ y ∈ ys, x.same y = true := by
  induction xs with
  | nil => simp [allAmong]
  | cons x xs ih => simp [allAmong, ih]

theorem allIndexed_iff {xs ys : List Value} : allIndexed xs ys = true ↔
    ∀ x ∈ xs, ∃ y ∈ ys, x.isFixed = y.isFixed ∧ x.same y = true := by
  induction xs with
  | nil => simp [allIndexed]
  | cons x xs ih => simp [allIndexed, ih]

theorem anySame_iff {xs : List Value} {y : Value} :
    anySame xs y = true ↔ ∃ x ∈ xs, x.same y = true := by
  induction xs with
  | nil => simp [anySame]
  | cons x xs ih => simp [anySame, ih]

theorem allEntriesAmong_iff {es fs : List (Value × Value)} : allEntriesAmong es fs = true ↔
    ∀ e ∈ es, ∃ f ∈ fs, e.1.same f.1 = true ∧ e.2.same f.2 = true := by
  induction es with
  | nil => simp [allEntriesAmong]
  | cons e es ih =>
    obtain ⟨k, v⟩ := e
    simp [allEntriesAmong, ih]

theorem same_list_iff {xs : List Value} {y : Value} :
    (Value.list xs).same y = true ↔ ∃ ys, y = .list ys ∧ sameAll xs ys = true := by
  cases y <;> simp [same]

theorem same_tuple_iff {xs : List Value} {y : Value} :
    (Value.tuple xs).same y = true ↔ ∃ ys, y = .tuple ys ∧ sameAll xs ys = true := by
  cases y <;> simp [same]

theorem same_sets_iff {xs ys : List Value} : (Value.set xs).same (.set ys) = true ↔
    xs.length = ys.length ∧ ∀ x ∈ xs, ∃ y ∈ ys, x.isFixed = y.isFixed ∧ x.same y = true := by
  simp [same, allIndexed_iff]

theorem same_mapping_iff {es : List (Value × Value)} {y : Value} :
    (Value.mapping es).same y = true ↔ ∃ fs, y = .mapping fs ∧ es.length = fs.length ∧
      ∀ e ∈ es, ∃ f ∈ fs, e.1.same f.1 = true ∧ e.2.same f.2 = true := by
  cases y <;> simp [same, allEntriesAmong_iff]

theorem same_moment_iff {a : Moment} {y : Value} :
    (Value.moment a).same y = true ↔ ∃ b, y = .moment b ∧ a.same b = true := by
  cases y <;> simp [same]

/-- Where every item of one list has a partner in a list of the same length and no two share one,
every item of the other list is a partner. -/
theorem exists_partner {α β : Type} {r : α → β → Prop} {xs : List α} {ys : List β}
    (hlen : xs.length = ys.length) (hr : ∀ x ∈ xs, ∃ y ∈ ys, r x y)
    (hone : xs.Pairwise fun x x' => ∀ y ∈ ys, r x y → ¬ r x' y) :
    ∀ y ∈ ys, ∃ x ∈ xs, r x y := by
  have hplace : ∀ i : Fin xs.length, ∃ j : Fin xs.length, r (xs.get i) (ys.get (j.cast hlen)) := by
    intro i
    obtain ⟨y, hy, hxy⟩ := hr (xs.get i) (List.get_mem xs i)
    obtain ⟨j, rfl⟩ := List.get_of_mem hy
    exact ⟨j.cast hlen.symm, hxy⟩
  choose place hplace using hplace
  -- two places with one partner would be two items that share it
  have hne : ∀ i j : Fin xs.length, i < j → place i ≠ place j := by
    intro i j hij he
    have hj := hplace j
    rw [← he] at hj
    exact List.pairwise_iff_get.mp hone i j hij _ (List.get_mem ..) (hplace i) hj
  have hinj : Function.Injective place := by
    intro i j he
    rcases Nat.lt_trichotomy i j with h | h | h
    · exact absurd he (hne i j h)
    · exact Fin.ext h
    · exact absurd he.symm (hne j i h)
  intro y hy
  obtain ⟨j, rfl⟩ := List.get_of_mem hy
  obtain ⟨i, hi⟩ := Finite.surjective_of_injective hinj (j.cast hlen.symm)
  refine ⟨xs.get i, List.get_mem xs i, ?_⟩
  have := hplace i
  rw [hi] at this
  exact this

/-! ## Turning round and continuing -/

theorem sameAll_symm {xs ys : List Value}
    (hsymm : ∀ x ∈ xs, ∀ y ∈ ys, x.same y = true → y.same x = true)
    (h : sameAll xs ys = true) : sameAll ys xs = true := by
  rw [sameAll_iff] at h ⊢
  induction h with
  | nil => exact .nil
  | @cons x y xs ys hxy _ ih =>
    refine .cons (hsymm x List.mem_cons_self y List.mem_cons_self hxy) (ih fun a ha b hb => ?_)
    exact hsymm a (List.mem_cons_of_mem _ ha) b (List.mem_cons_of_mem _ hb)

theorem sameAll_trans {xs ys zs : List Value}
    (htrans : ∀ x ∈ xs, ∀ y ∈ ys, ∀ z ∈ zs, x.same y = true → y.same z = true → x.same z = true)
    (hxy : sameAll xs ys = true) (hyz : sameAll ys zs = true) : sameAll xs zs = true := by
  rw [sameAll_iff] at hxy hyz ⊢
  induction hxy generalizing zs with
  | nil => exact hyz
  | @cons x y xs ys hxy _ ih =>
    obtain _ | ⟨hyz, hrest⟩ := hyz
    refine .cons ?_ (ih (fun a ha b hb c hc => ?_) hrest)
    · exact htrans x List.mem_cons_self y List.mem_cons_self _ List.mem_cons_self hxy hyz
    · exact htrans a (List.mem_cons_of_mem _ ha) b (List.mem_cons_of_mem _ hb) c
        (List.mem_cons_of_mem _ hc)

theorem sameAll_common {xs ys zs : List Value}
    (hcommon : ∀ x ∈ xs, ∀ y ∈ ys, ∀ z ∈ zs, x.same y = true → x.same z = true → y.same z = true)
    (hxy : sameAll xs ys = true) (hxz : sameAll xs zs = true) : sameAll ys zs = true := by
  rw [sameAll_iff] at hxy hxz ⊢
  induction hxy generalizing zs with
  | nil => exact hxz
  | @cons x y xs ys hxy _ ih =>
    obtain _ | ⟨hxz, hrest⟩ := hxz
    refine .cons ?_ (ih (fun a ha b hb c hc => ?_) hrest)
    · exact hcommon x List.mem_cons_self y List.mem_cons_self _ List.mem_cons_self hxy hxz
    · exact hcommon a (List.mem_cons_of_mem _ ha) b (List.mem_cons_of_mem _ hb) c
        (List.mem_cons_of_mem _ hc)

/-- Two ordered sets of one size are the same in both directions if no element of the second has two
partners in the first. -/
theorem same_set_symm {xs ys : List Value}
    (hsymm : ∀ x ∈ xs, ∀ y ∈ ys, x.same y = true → y.same x = true)
    (hone : xs.Pairwise fun a b => ∀ y ∈ ys, a.same y = true → ¬ b.same y = true)
    (h : (Value.set xs).same (.set ys) = true) : (Value.set ys).same (.set xs) = true := by
  obtain ⟨hlen, hxy⟩ := same_sets_iff.mp h
  have hone' : xs.Pairwise fun a b => ∀ y ∈ ys, (a.isFixed = y.isFixed ∧ a.same y = true) →
      ¬ (b.isFixed = y.isFixed ∧ b.same y = true) :=
    hone.imp fun h y hy hay hby => h y hy hay.2 hby.2
  refine same_sets_iff.mpr ⟨hlen.symm, fun y hy => ?_⟩
  obtain ⟨x, hx, hfixed, hxy⟩ := exists_partner hlen hxy hone' y hy
  exact ⟨x, hx, hfixed.symm, hsymm x hx y hy hxy⟩

theorem same_set_trans {xs ys zs : List Value}
    (htrans : ∀ x ∈ xs, ∀ y ∈ ys, ∀ z ∈ zs, x.same y = true → y.same z = true → x.same z = true)
    (hxy : (Value.set xs).same (.set ys) = true) (hyz : (Value.set ys).same (.set zs) = true) :
    (Value.set xs).same (.set zs) = true := by
  obtain ⟨hlen, hxy⟩ := same_sets_iff.mp hxy
  obtain ⟨hlen', hyz⟩ := same_sets_iff.mp hyz
  refine same_sets_iff.mpr ⟨hlen.trans hlen', fun x hx => ?_⟩
  obtain ⟨y, hy, hfixed, hxy⟩ := hxy x hx
  obtain ⟨z, hz, hfixed', hyz⟩ := hyz y hy
  exact ⟨z, hz, hfixed.trans hfixed', htrans x hx y hy z hz hxy hyz⟩

/-! ## Numbers -/

/-- What a number or a truth value counts. -/
def amount? : Value → Option Amount
  | .bool b => some (Amount.whole b.toNat)
  | .int i => some (Amount.whole i)
  | .double x => x.amount?
  | _ => none

variable {x y z : Value}

theorem amount?_double {d : Double} (h : d.isNumber = true) : d.amount?.isSome = true := by
  cases d <;> simp_all [Double.isNumber, Double.amount?]

/-- Values that count something are the same if they count the same. -/
theorem same_iff_amount? (hx : x.isComparable = true) (hy : y.isComparable = true)
    (h : x.amount?.isSome = true) : x.same y = true ↔ x.amount? = y.amount? := by
  cases x with
  | bool b =>
    cases y with
    | double d =>
      rw [isComparable] at hy
      rw [same, Double.equalsInt_iff hy, eq_comm]
      rfl
    | bool c => cases b <;> cases c <;> simp [same, amount?, Double.whole_inj]
    | int j => simp [same, amount?, Double.whole_inj]
    | _ => simp [same, amount?]
  | int i =>
    cases y with
    | double d =>
      rw [isComparable] at hy
      rw [same, Double.equalsInt_iff hy, eq_comm]
      rfl
    | bool c => simp [same, amount?, Double.whole_inj]
    | int j => simp [same, amount?, Double.whole_inj]
    | _ => simp [same, amount?]
  | double d =>
    rw [isComparable] at hx
    have hsome := amount?_double hx
    cases y with
    | double c =>
      rw [isComparable] at hy
      have hnan : (d == .nan true) = false := by cases d <;> simp_all [Double.isNumber]
      rw [same, hnan, Bool.false_and, Bool.or_false, Double.equals_iff hx hy]
      rfl
    | bool c =>
      rw [same, Double.equalsInt_iff hx]
      rfl
    | int j =>
      rw [same, Double.equalsInt_iff hx]
      rfl
    | _ =>
      have hne := Option.isSome_iff_ne_none.mp hsome
      simpa [same, amount?] using hne
  | _ => cases h

/-! ## Values and their parts -/

/-- The values that a value is made of. -/
def parts : Value → List Value
  | .list xs | .tuple xs | .set xs | .unordered xs | .frozen xs => xs
  | .mapping es => es.map (·.1) ++ es.map (·.2)
  | .marked _ v => [v]
  | _ => []

theorem sizeOf_lt_of_mem_parts {p v : Value} (h : p ∈ v.parts) : sizeOf p < sizeOf v := by
  cases v with
  | list xs | tuple xs | set xs | unordered xs | frozen xs =>
    have : sizeOf p < sizeOf xs := List.sizeOf_lt_of_mem h
    simp only [list.sizeOf_spec, tuple.sizeOf_spec, set.sizeOf_spec, unordered.sizeOf_spec,
      frozen.sizeOf_spec]
    omega
  | mapping es =>
    obtain ⟨⟨k, w⟩, he, hp⟩ : ∃ e ∈ es, p = e.1 ∨ p = e.2 := by
      rcases List.mem_append.mp h with h | h
      · obtain ⟨e, he, rfl⟩ := List.mem_map.mp h
        exact ⟨e, he, .inl rfl⟩
      · obtain ⟨e, he, rfl⟩ := List.mem_map.mp h
        exact ⟨e, he, .inr rfl⟩
    have := List.sizeOf_lt_of_mem he
    simp only [mapping.sizeOf_spec, Prod.mk.sizeOf_spec] at this ⊢
    rcases hp with rfl | rfl <;> omega
  | marked m w =>
    rw [List.mem_singleton.mp h, marked.sizeOf_spec]
    omega
  | _ => cases h

/-- What holds of a value once it holds of its parts holds of every value. -/
theorem parts_induction {P : Value → Prop} (h : ∀ v, (∀ p ∈ v.parts, P p) → P v) (v : Value) :
    P v :=
  h v fun p _ => parts_induction h p
termination_by sizeOf v
decreasing_by exact sizeOf_lt_of_mem_parts ‹_›

theorem isComparable_of_mem_parts {p : Value} (hx : x.isComparable = true) (hp : p ∈ x.parts) :
    p.isComparable = true := by
  cases x with
  | list xs | tuple xs =>
    rw [isComparable] at hx
    exact allComparable_iff.mp hx p hp
  | set xs =>
    rw [isComparable, Bool.and_eq_true] at hx
    exact allComparable_iff.mp hx.1 p hp
  | unordered xs | frozen xs =>
    simp only [isComparable, Bool.and_eq_true] at hx
    exact allComparable_iff.mp hx.1.1 p hp
  | mapping es =>
    rw [isComparable, Bool.and_eq_true] at hx
    rcases List.mem_append.mp hp with hp | hp
    · obtain ⟨e, he, rfl⟩ := List.mem_map.mp hp
      exact (entriesComparable_iff.mp hx.1 e he).1
    · obtain ⟨e, he, rfl⟩ := List.mem_map.mp hp
      exact (entriesComparable_iff.mp hx.1 e he).2
  | marked _ _ => simp [isComparable] at hx
  | _ => cases hp

/-! ## Classes of values -/

/-- A class of values that can be elements. It holds the parts of each. -/
structure IsClass (P : Value → Prop) : Prop where
  comparable : ∀ {x}, P x → x.isComparable = true
  parts : ∀ {x p}, P x → p ∈ x.parts → P p

/-- A class in which keys are the same as keys only. -/
structure IsTidy (P : Value → Prop) : Prop extends IsClass P where
  fixed : ∀ {x y}, P x → P y → x.same y = true → x.isFixed = y.isFixed

/-- Sameness with a value can be turned round and continued, also from a value in the middle. -/
structure Coherent (P : Value → Prop) (x : Value) : Prop where
  symm : ∀ {y}, P y → x.same y = true → y.same x = true
  trans : ∀ {y z}, P y → P z → x.same y = true → y.same z = true → x.same z = true
  common : ∀ {y z}, P y → P z → x.same y = true → x.same z = true → y.same z = true

variable {P : Value → Prop}

/-- Elements that differ have no common partner. -/
theorem Coherent.not_same {a b : Value} (ha : Coherent P a) (hb : Coherent P b) (hcb : P b)
    (hy : P y) (hne : a.same b = false) (hay : a.same y = true) : ¬ b.same y = true := by
  intro hby
  have hab : a.same b = true := ha.trans hy hcb hay (hb.symm hy hby)
  rw [hne] at hab
  cases hab

theorem coherent_number (hP : IsClass P) (hx : x.isComparable = true)
    (h : x.amount?.isSome = true) : Coherent P x where
  symm hy hxy := by
    have heq := (same_iff_amount? hx (hP.comparable hy) h).mp hxy
    exact (same_iff_amount? (hP.comparable hy) hx (heq ▸ h)).mpr heq.symm
  trans hy hz hxy hyz := by
    have heq := (same_iff_amount? hx (hP.comparable hy) h).mp hxy
    rw [same_iff_amount? hx (hP.comparable hz) h, heq]
    exact (same_iff_amount? (hP.comparable hy) (hP.comparable hz) (heq ▸ h)).mp hyz
  common hy hz hxy hxz := by
    have heq := (same_iff_amount? hx (hP.comparable hy) h).mp hxy
    rw [same_iff_amount? (hP.comparable hy) (hP.comparable hz) (heq ▸ h), ← heq]
    exact (same_iff_amount? hx (hP.comparable hz) h).mp hxz

/-! ### Lists -/

theorem sameAll_symm_of_coherent {xs ys : List Value} (hxs : ∀ x ∈ xs, Coherent P x)
    (hys : ∀ y ∈ ys, P y) (h : sameAll xs ys = true) : sameAll ys xs = true :=
  sameAll_symm (fun x hx y hy => (hxs x hx).symm (hys y hy)) h

theorem sameAll_trans_of_coherent {xs ys zs : List Value} (hxs : ∀ x ∈ xs, Coherent P x)
    (hys : ∀ y ∈ ys, P y) (hzs : ∀ z ∈ zs, P z) (hxy : sameAll xs ys = true)
    (hyz : sameAll ys zs = true) : sameAll xs zs = true :=
  sameAll_trans (fun x hx y hy z hz => (hxs x hx).trans (hys y hy) (hzs z hz)) hxy hyz

theorem sameAll_common_of_coherent {xs ys zs : List Value} (hxs : ∀ x ∈ xs, Coherent P x)
    (hys : ∀ y ∈ ys, P y) (hzs : ∀ z ∈ zs, P z) (hxy : sameAll xs ys = true)
    (hxz : sameAll xs zs = true) : sameAll ys zs = true :=
  sameAll_common (fun x hx y hy z hz => (hxs x hx).common (hys y hy) (hzs z hz)) hxy hxz

theorem coherent_list (hP : IsClass P) {xs : List Value} (hxs : ∀ x ∈ xs, Coherent P x) :
    Coherent P (.list xs) where
  symm hy h := by
    obtain ⟨ys, rfl, hxy⟩ := same_list_iff.mp h
    exact same_list_iff.mpr ⟨xs, rfl, sameAll_symm_of_coherent hxs (fun _ => hP.parts hy) hxy⟩
  trans hy hz h h' := by
    obtain ⟨ys, rfl, hxy⟩ := same_list_iff.mp h
    obtain ⟨zs, rfl, hyz⟩ := same_list_iff.mp h'
    exact same_list_iff.mpr ⟨zs, rfl,
      sameAll_trans_of_coherent hxs (fun _ => hP.parts hy) (fun _ => hP.parts hz) hxy hyz⟩
  common hy hz h h' := by
    obtain ⟨ys, rfl, hxy⟩ := same_list_iff.mp h
    obtain ⟨zs, rfl, hxz⟩ := same_list_iff.mp h'
    exact same_list_iff.mpr ⟨zs, rfl,
      sameAll_common_of_coherent hxs (fun _ => hP.parts hy) (fun _ => hP.parts hz) hxy hxz⟩

theorem coherent_tuple (hP : IsClass P) {xs : List Value} (hxs : ∀ x ∈ xs, Coherent P x) :
    Coherent P (.tuple xs) where
  symm hy h := by
    obtain ⟨ys, rfl, hxy⟩ := same_tuple_iff.mp h
    exact same_tuple_iff.mpr ⟨xs, rfl, sameAll_symm_of_coherent hxs (fun _ => hP.parts hy) hxy⟩
  trans hy hz h h' := by
    obtain ⟨ys, rfl, hxy⟩ := same_tuple_iff.mp h
    obtain ⟨zs, rfl, hyz⟩ := same_tuple_iff.mp h'
    exact same_tuple_iff.mpr ⟨zs, rfl,
      sameAll_trans_of_coherent hxs (fun _ => hP.parts hy) (fun _ => hP.parts hz) hxy hyz⟩
  common hy hz h h' := by
    obtain ⟨ys, rfl, hxy⟩ := same_tuple_iff.mp h
    obtain ⟨zs, rfl, hxz⟩ := same_tuple_iff.mp h'
    exact same_tuple_iff.mpr ⟨zs, rfl,
      sameAll_common_of_coherent hxs (fun _ => hP.parts hy) (fun _ => hP.parts hz) hxy hxz⟩

/-! ### Sets -/

/-- The elements of a set, whichever kind it is. -/
def setItems? : Value → Option (List Value)
  | .set xs | .unordered xs | .frozen xs => some xs
  | _ => none

theorem mem_parts_of_setItems? {xs : List Value} (hx : x.setItems? = some xs) {a : Value}
    (ha : a ∈ xs) : a ∈ x.parts := by
  cases x <;> cases hx <;> exact ha

theorem isSought_of_isFixed (h : x.isFixed = true) : x.isSought = true := by
  induction x using parts_induction with
  | h x ih =>
    cases x with
    | marked m v =>
      rw [isFixed] at h
      rw [isSought]
      exact ih v List.mem_cons_self h
    | unordered _ => rfl
    | _ => exact h

/-- Every element of either list has a partner in the other, and they are equally many. -/
structure Paired (xs ys : List Value) : Prop where
  length : xs.length = ys.length
  right : ∀ x ∈ xs, ∃ y ∈ ys, x.same y = true
  left : ∀ y ∈ ys, ∃ x ∈ xs, x.same y = true

/-- What is the same as a set is a set, and the elements of one of them have partners in the
other. -/
theorem partners_of_same {xs : List Value} (hx : x.setItems? = some xs) (h : x.same y = true) :
    ∃ ys, y.setItems? = some ys ∧ xs.length = ys.length ∧
      ((∀ a ∈ xs, ∃ b ∈ ys, a.same b = true) ∨ ∀ b ∈ ys, ∃ a ∈ xs, a.same b = true) := by
  cases x with
  | set xs =>
    cases hx
    cases y with
    | set ys =>
      obtain ⟨hlen, hxy⟩ := same_sets_iff.mp h
      exact ⟨ys, rfl, hlen, .inl fun a ha => (hxy a ha).imp fun b hb => ⟨hb.1, hb.2.2⟩⟩
    | unordered ys | frozen ys =>
      simp only [same, Bool.and_eq_true, beq_iff_eq, allAmong_iff] at h
      exact ⟨ys, rfl, h.1.1, .inl h.2⟩
    | _ => simp [same] at h
  | unordered xs | frozen xs =>
    cases hx
    cases y with
    | set ys =>
      simp only [same, Bool.and_eq_true, beq_iff_eq, List.all_eq_true, anySame_iff] at h
      exact ⟨ys, rfl, h.1, .inr fun b hb => (h.2 b hb).2⟩
    | unordered ys | frozen ys =>
      simp only [same, Bool.and_eq_true, beq_iff_eq, allAmong_iff] at h
      exact ⟨ys, rfl, h.1, .inl h.2⟩
    | _ => simp [same] at h
  | _ => cases hx

theorem IsClass.isFixed_of_mem (hP : IsClass P) {xs : List Value}
    (hx : P (.unordered xs) ∨ P (.frozen xs)) {a : Value} (ha : a ∈ xs) : a.isFixed = true := by
  obtain h | h := hx <;>
  · have := hP.comparable h
    simp only [isComparable, Bool.and_eq_true] at this
    exact allFixed_iff.mp this.1.2 a ha

theorem same_of_paired (hP : IsTidy P) {xs ys : List Value} (hx : P x) (hy : P y)
    (hxs : x.setItems? = some xs) (hys : y.setItems? = some ys) (h : Paired xs ys) :
    x.same y = true := by
  have hpx : ∀ a ∈ xs, P a := fun a ha => hP.parts hx (mem_parts_of_setItems? hxs ha)
  have hpy : ∀ b ∈ ys, P b := fun b hb => hP.parts hy (mem_parts_of_setItems? hys hb)
  cases x with
  | set xs =>
    cases hxs
    cases y with
    | set ys =>
      cases hys
      refine same_sets_iff.mpr ⟨h.length, fun a ha => ?_⟩
      obtain ⟨b, hb, hab⟩ := h.right a ha
      exact ⟨b, hb, hP.fixed (hpx a ha) (hpy b hb) hab, hab⟩
    | unordered ys | frozen ys =>
      cases hys
      simp only [same, Bool.and_eq_true, beq_iff_eq, allAmong_iff, List.all_eq_true]
      refine ⟨⟨h.length, fun a ha => ?_⟩, h.right⟩
      -- the partner is a key, and so is what is the same as it
      obtain ⟨b, hb, hab⟩ := h.right a ha
      have hfixed := hP.fixed (hpx a ha) (hpy b hb) hab
      refine isSought_of_isFixed (hfixed.trans (hP.isFixed_of_mem ?_ hb))
      first | exact .inl hy | exact .inr hy
    | _ => cases hys
  | unordered xs | frozen xs =>
    cases hxs
    cases y with
    | set ys =>
      cases hys
      simp only [same, Bool.and_eq_true, beq_iff_eq, List.all_eq_true, anySame_iff]
      refine ⟨h.length, fun b hb => ⟨?_, h.left b hb⟩⟩
      obtain ⟨a, ha, hab⟩ := h.left b hb
      have hfixed := hP.fixed (hpx a ha) (hpy b hb) hab
      refine isSought_of_isFixed (hfixed.symm.trans (hP.isFixed_of_mem ?_ ha))
      first | exact .inl hx | exact .inr hx
    | unordered ys | frozen ys =>
      cases hys
      simp only [same, Bool.and_eq_true, beq_iff_eq, allAmong_iff]
      exact ⟨h.length, h.right⟩
    | _ => cases hys
  | _ => cases hxs

/-- The elements of a set differ when one of two is asked; which one depends on the kind. -/
theorem IsTidy.setItems_differ (hP : IsTidy P) {xs : List Value} (hx : P x)
    (hxs : x.setItems? = some xs) :
    xs.Pairwise fun a b => a.same b = false ∨ b.same a = false := by
  have hpx : ∀ a ∈ xs, P a := fun a ha => hP.parts hx (mem_parts_of_setItems? hxs ha)
  have hc := hP.comparable hx
  cases x with
  | set xs =>
    cases hxs
    simp only [isComparable, Bool.and_eq_true, decide_eq_true_eq] at hc
    refine hc.2.imp_of_mem fun {a b} ha hb hne => .inr ?_
    rw [Bool.eq_false_iff]
    exact fun hba => hne ⟨(hP.fixed (hpx b hb) (hpx a ha) hba).symm, hba⟩
  | unordered xs | frozen xs =>
    cases hxs
    simp only [isComparable, Bool.and_eq_true, decide_eq_true_eq] at hc
    exact hc.2.imp .inl
  | _ => cases hxs

/-- Partners for the elements of one of two sets make partners for those of the other. -/
theorem paired_of_partners (hP : IsTidy P) {xs ys : List Value} (hx : P x) (hy : P y)
    (hxs : x.setItems? = some xs) (hys : y.setItems? = some ys)
    (hcoherent : ∀ a ∈ xs, Coherent P a) (hlen : xs.length = ys.length)
    (h : (∀ a ∈ xs, ∃ b ∈ ys, a.same b = true) ∨ ∀ b ∈ ys, ∃ a ∈ xs, a.same b = true) :
    Paired xs ys := by
  have hpx : ∀ a ∈ xs, P a := fun a ha => hP.parts hx (mem_parts_of_setItems? hxs ha)
  have hpy : ∀ b ∈ ys, P b := fun b hb => hP.parts hy (mem_parts_of_setItems? hys hb)
  obtain hright | hleft := h
  · refine ⟨hlen, hright, exists_partner hlen hright ?_⟩
    refine (hP.setItems_differ hx hxs).imp_of_mem fun {a b} ha hb hne c hc hac hbc => ?_
    obtain hne | hne := hne
    · exact (hcoherent a ha).not_same (hcoherent b hb) (hpx b hb) (hpy c hc) hne hac hbc
    · exact (hcoherent b hb).not_same (hcoherent a ha) (hpx a ha) (hpy c hc) hne hbc hac
  · refine ⟨hlen, exists_partner hlen.symm hleft ?_, hleft⟩
    refine (hP.setItems_differ hy hys).imp_of_mem fun {b c} hb hc hne a ha hab hac => ?_
    obtain hne | hne := hne
    · rw [(hcoherent a ha).common (hpy b hb) (hpy c hc) hab hac] at hne
      cases hne
    · rw [(hcoherent a ha).common (hpy c hc) (hpy b hb) hac hab] at hne
      cases hne

theorem paired_of_same (hP : IsTidy P) {xs : List Value} (hx : P x) (hy : P y)
    (hxs : x.setItems? = some xs) (hcoherent : ∀ a ∈ xs, Coherent P a) (h : x.same y = true) :
    ∃ ys, y.setItems? = some ys ∧ Paired xs ys := by
  obtain ⟨ys, hys, hlen, hpartners⟩ := partners_of_same hxs h
  exact ⟨ys, hys, paired_of_partners hP hx hy hxs hys hcoherent hlen hpartners⟩

theorem coherent_setItems (hP : IsTidy P) {xs : List Value} (hx : P x)
    (hxs : x.setItems? = some xs) (hcoherent : ∀ a ∈ xs, Coherent P a) : Coherent P x where
  symm {y} hy h := by
    obtain ⟨ys, hys, hxy⟩ := paired_of_same hP hx hy hxs hcoherent h
    have hpy : ∀ b ∈ ys, P b := fun b hb => hP.parts hy (mem_parts_of_setItems? hys hb)
    refine same_of_paired hP hy hx hys hxs ⟨hxy.length.symm, fun b hb => ?_, fun a ha => ?_⟩
    · obtain ⟨a, ha, hab⟩ := hxy.left b hb
      exact ⟨a, ha, (hcoherent a ha).symm (hpy b hb) hab⟩
    · obtain ⟨b, hb, hab⟩ := hxy.right a ha
      exact ⟨b, hb, (hcoherent a ha).symm (hpy b hb) hab⟩
  trans {y z} hy hz h h' := by
    obtain ⟨ys, hys, hxy⟩ := paired_of_same hP hx hy hxs hcoherent h
    obtain ⟨zs, hzs, hlen, hyz⟩ := partners_of_same hys h'
    have hpy : ∀ b ∈ ys, P b := fun b hb => hP.parts hy (mem_parts_of_setItems? hys hb)
    have hpz : ∀ c ∈ zs, P c := fun c hc => hP.parts hz (mem_parts_of_setItems? hzs hc)
    refine same_of_paired hP hx hz hxs hzs
      (paired_of_partners hP hx hz hxs hzs hcoherent (hxy.length.trans hlen) ?_)
    refine hyz.imp (fun hyz a ha => ?_) fun hyz c hc => ?_
    · obtain ⟨b, hb, hab⟩ := hxy.right a ha
      obtain ⟨c, hc, hbc⟩ := hyz b hb
      exact ⟨c, hc, (hcoherent a ha).trans (hpy b hb) (hpz c hc) hab hbc⟩
    · obtain ⟨b, hb, hbc⟩ := hyz c hc
      obtain ⟨a, ha, hab⟩ := hxy.left b hb
      exact ⟨a, ha, (hcoherent a ha).trans (hpy b hb) (hpz c hc) hab hbc⟩
  common {y z} hy hz h h' := by
    obtain ⟨ys, hys, hxy⟩ := paired_of_same hP hx hy hxs hcoherent h
    obtain ⟨zs, hzs, hxz⟩ := paired_of_same hP hx hz hxs hcoherent h'
    have hpy : ∀ b ∈ ys, P b := fun b hb => hP.parts hy (mem_parts_of_setItems? hys hb)
    have hpz : ∀ c ∈ zs, P c := fun c hc => hP.parts hz (mem_parts_of_setItems? hzs hc)
    refine same_of_paired hP hy hz hys hzs
      ⟨hxy.length.symm.trans hxz.length, fun b hb => ?_, fun c hc => ?_⟩
    · obtain ⟨a, ha, hab⟩ := hxy.left b hb
      obtain ⟨c, hc, hac⟩ := hxz.right a ha
      exact ⟨c, hc, (hcoherent a ha).common (hpy b hb) (hpz c hc) hab hac⟩
    · obtain ⟨a, ha, hac⟩ := hxz.left c hc
      obtain ⟨b, hb, hab⟩ := hxy.right a ha
      exact ⟨b, hb, (hcoherent a ha).common (hpy b hb) (hpz c hc) hab hac⟩

/-! ### Mappings and moments -/

/-- The entries of a mapping in a class are in the class, and no two entries of it are for one
entry of another mapping. -/
theorem IsClass.entries (hP : IsClass P) {es : List (Value × Value)} (hx : P (.mapping es)) :
    ∀ e ∈ es, P e.1 ∧ P e.2 := fun _ he =>
  ⟨hP.parts hx (List.mem_append_left _ (List.mem_map_of_mem he)),
    hP.parts hx (List.mem_append_right _ (List.mem_map_of_mem he))⟩

theorem exists_entry_of_same (hP : IsClass P) {es fs : List (Value × Value)}
    (hx : P (.mapping es)) (hy : P (.mapping fs))
    (hes : ∀ e ∈ es, Coherent P e.1 ∧ Coherent P e.2) (hlen : es.length = fs.length)
    (h : ∀ e ∈ es, ∃ f ∈ fs, e.1.same f.1 = true ∧ e.2.same f.2 = true) :
    ∀ f ∈ fs, ∃ e ∈ es, e.1.same f.1 = true ∧ e.2.same f.2 = true := by
  have hc := hP.comparable hx
  simp only [isComparable, Bool.and_eq_true, decide_eq_true_eq] at hc
  refine exists_partner hlen h ?_
  refine (List.pairwise_map.mp hc.2).imp_of_mem fun {a b} ha hb hne f hf haf hbf => ?_
  exact (hes a ha).1.not_same (hes b hb).1 (hP.entries hx b hb).1 (hP.entries hy f hf).1 hne
    haf.1 hbf.1

theorem coherent_mapping (hP : IsClass P) {es : List (Value × Value)} (hx : P (.mapping es))
    (hes : ∀ e ∈ es, Coherent P e.1 ∧ Coherent P e.2) : Coherent P (.mapping es) where
  symm hy h := by
    obtain ⟨fs, rfl, hlen, hxy⟩ := same_mapping_iff.mp h
    refine same_mapping_iff.mpr ⟨es, rfl, hlen.symm, fun f hf => ?_⟩
    obtain ⟨e, he, hk, hv⟩ := exists_entry_of_same hP hx hy hes hlen hxy f hf
    obtain ⟨hfk, hfv⟩ := hP.entries hy f hf
    exact ⟨e, he, (hes e he).1.symm hfk hk, (hes e he).2.symm hfv hv⟩
  trans hy hz h h' := by
    obtain ⟨fs, rfl, hlen, hxy⟩ := same_mapping_iff.mp h
    obtain ⟨gs, rfl, hlen', hyz⟩ := same_mapping_iff.mp h'
    refine same_mapping_iff.mpr ⟨gs, rfl, hlen.trans hlen', fun e he => ?_⟩
    obtain ⟨f, hf, hk, hv⟩ := hxy e he
    obtain ⟨g, hg, hk', hv'⟩ := hyz f hf
    obtain ⟨hfk, hfv⟩ := hP.entries hy f hf
    obtain ⟨hgk, hgv⟩ := hP.entries hz g hg
    exact ⟨g, hg, (hes e he).1.trans hfk hgk hk hk', (hes e he).2.trans hfv hgv hv hv'⟩
  common hy hz h h' := by
    obtain ⟨fs, rfl, hlen, hxy⟩ := same_mapping_iff.mp h
    obtain ⟨gs, rfl, hlen', hxz⟩ := same_mapping_iff.mp h'
    refine same_mapping_iff.mpr ⟨gs, rfl, hlen.symm.trans hlen', fun f hf => ?_⟩
    obtain ⟨e, he, hk, hv⟩ := exists_entry_of_same hP hx hy hes hlen hxy f hf
    obtain ⟨g, hg, hk', hv'⟩ := hxz e he
    obtain ⟨hfk, hfv⟩ := hP.entries hy f hf
    obtain ⟨hgk, hgv⟩ := hP.entries hz g hg
    exact ⟨g, hg, (hes e he).1.common hfk hgk hk hk', (hes e he).2.common hfv hgv hv hv'⟩

theorem coherent_moment (a : Moment) : Coherent P (.moment a) where
  symm _ h := by
    obtain ⟨b, rfl, hxy⟩ := same_moment_iff.mp h
    exact same_moment_iff.mpr ⟨a, rfl, Moment.same_comm a b ▸ hxy⟩
  trans _ _ h h' := by
    obtain ⟨b, rfl, hxy⟩ := same_moment_iff.mp h
    obtain ⟨c, rfl, hyz⟩ := same_moment_iff.mp h'
    exact same_moment_iff.mpr ⟨c, rfl, Moment.same_trans hxy hyz⟩
  common _ _ h h' := by
    obtain ⟨b, rfl, hxy⟩ := same_moment_iff.mp h
    obtain ⟨c, rfl, hxz⟩ := same_moment_iff.mp h'
    exact same_moment_iff.mpr ⟨c, rfl, Moment.same_trans (Moment.same_comm a b ▸ hxy) hxz⟩

/-- A value that is the same as itself alone. -/
theorem coherent_of_eq (h : ∀ y, x.same y = true ↔ x = y) : Coherent P x where
  symm _ hxy := by
    obtain rfl := (h _).mp hxy
    exact hxy
  trans _ _ hxy hyz := by
    obtain rfl := (h _).mp hxy
    exact hyz
  common _ _ hxy hxz := by
    obtain rfl := (h _).mp hxy
    exact hxz

/-! ## Equivalence -/

theorem IsTidy.coherent (hP : IsTidy P) (x : Value) (hx : P x) : Coherent P x := by
  induction x using parts_induction with
  | h x ih =>
    have hparts : ∀ p ∈ x.parts, Coherent P p := fun p hp => ih p hp (hP.parts hx hp)
    have hc := hP.comparable hx
    cases x with
    | bool _ | int _ => exact coherent_number hP.toIsClass hc rfl
    | double d => exact coherent_number hP.toIsClass hc (amount?_double hc)
    | list xs => exact coherent_list hP.toIsClass hparts
    | tuple xs => exact coherent_tuple hP.toIsClass hparts
    | set xs | unordered xs | frozen xs => exact coherent_setItems hP hx rfl hparts
    | mapping es =>
      refine coherent_mapping hP.toIsClass hx fun e he => ⟨hparts _ ?_, hparts _ ?_⟩
      · exact List.mem_append_left _ (List.mem_map_of_mem he)
      · exact List.mem_append_right _ (List.mem_map_of_mem he)
    | moment a => exact coherent_moment a
    | marked _ _ | again _ _ => cases hc
    | null | text _ | bytes _ | date _ | member _ =>
      exact coherent_of_eq fun y => by cases y <;> simp [same]

theorem IsTidy.symm (hP : IsTidy P) (hx : P x) (hy : P y) (h : x.same y = true) :
    y.same x = true :=
  (hP.coherent x hx).symm hy h

theorem IsTidy.comm (hP : IsTidy P) (hx : P x) (hy : P y) : x.same y = y.same x := by
  rw [Bool.eq_iff_iff]
  exact ⟨hP.symm hx hy, hP.symm hy hx⟩

theorem IsTidy.trans (hP : IsTidy P) (hx : P x) (hy : P y) (hz : P z) (hxy : x.same y = true)
    (hyz : y.same z = true) : x.same z = true :=
  (hP.coherent x hx).trans hy hz hxy hyz

theorem same_refl (x : Value) (hx : x.isComparable = true) : x.same x = true := by
  induction x using parts_induction with
  | h x ih =>
    have hparts : ∀ p ∈ x.parts, p.same p = true :=
      fun p hp => ih p hp (isComparable_of_mem_parts hx hp)
    cases x with
    | bool _ | int _ => exact (same_iff_amount? hx hx rfl).mpr rfl
    | double d => exact (same_iff_amount? hx hx (amount?_double hx)).mpr rfl
    | list xs => exact same_list_iff.mpr ⟨xs, rfl, sameAll_iff.mpr (List.forall₂_same.mpr hparts)⟩
    | tuple xs =>
      exact same_tuple_iff.mpr ⟨xs, rfl, sameAll_iff.mpr (List.forall₂_same.mpr hparts)⟩
    | set xs => exact same_sets_iff.mpr ⟨rfl, fun x hx => ⟨x, hx, rfl, hparts x hx⟩⟩
    | unordered xs | frozen xs =>
      simp only [same, beq_self_eq_true, Bool.true_and]
      exact allAmong_iff.mpr fun x hx => ⟨x, hx, hparts x hx⟩
    | mapping es =>
      refine same_mapping_iff.mpr ⟨es, rfl, rfl, fun e he => ⟨e, he, hparts _ ?_, hparts _ ?_⟩⟩
      · exact List.mem_append_left _ (List.mem_map_of_mem he)
      · exact List.mem_append_right _ (List.mem_map_of_mem he)
    | moment a => exact same_moment_iff.mpr ⟨a, rfl, a.same_refl⟩
    | marked _ _ | again _ _ => cases hx
    | null | text _ | bytes _ | date _ | member _ => simp [same]

theorem constantNanAll_eq_map (xs : List Value) : constantNanAll xs = xs.map constantNan := by
  induction xs with
  | nil => rfl
  | cons x xs ih => rw [constantNanAll, ih, List.map_cons]

theorem constantNanEntries_eq_map (es : List (Value × Value)) :
    constantNanEntries es = es.map fun e => (e.1.constantNan, e.2.constantNan) := by
  induction es with
  | nil => rfl
  | cons e es ih => rw [constantNanEntries, ih, List.map_cons]

/-- A value without a not-a-number is left as it is. -/
theorem constantNan_eq (x : Value) (hx : x.isComparable = true) : x.constantNan = x := by
  induction x using parts_induction with
  | h x ih =>
    have hparts : ∀ p ∈ x.parts, p.constantNan = p :=
      fun p hp => ih p hp (isComparable_of_mem_parts hx hp)
    have hall : ∀ xs : List Value, (∀ p ∈ xs, p ∈ x.parts) → constantNanAll xs = xs := by
      intro xs hxs
      rw [constantNanAll_eq_map]
      exact (List.map_congr_left fun p hp => hparts p (hxs p hp)).trans (List.map_id' xs)
    cases x with
    | double d => cases d <;> simp_all [constantNan, isComparable, Double.isNumber]
    | list xs | tuple xs | set xs | unordered xs | frozen xs =>
      rw [constantNan, hall xs fun _ => id]
    | mapping es =>
      have hentries : constantNanEntries es = es := by
        rw [constantNanEntries_eq_map]
        refine (List.map_congr_left fun e he => Prod.ext (hparts _ ?_) (hparts _ ?_)).trans
          (List.map_id' es)
        · exact List.mem_append_left _ (List.mem_map_of_mem he)
        · exact List.mem_append_right _ (List.mem_map_of_mem he)
      rw [constantNan, hentries]
    | _ => rfl

theorem isLike_eq_same (hx : x.isComparable = true) (hy : y.isComparable = true) :
    x.isLike y = x.same y := by
  rw [isLike, constantNan_eq x hx, constantNan_eq y hy, Bool.or_self]

theorem isAmong_iff {xs : List Value} : x.isAmong xs = true ↔ ∃ y ∈ xs, x.same y = true := by
  rw [isAmong, List.any_eq_true]

theorem isAmong_cons (x y : Value) (ys : List Value) :
    x.isAmong (y :: ys) = (x.same y || x.isAmong ys) :=
  List.any_cons

theorem isAmong_of_mem {xs : List Value} (hx : x.isComparable = true) (h : x ∈ xs) :
    x.isAmong xs = true :=
  isAmong_iff.mpr ⟨x, h, same_refl x hx⟩

end SchemaModel.Value
