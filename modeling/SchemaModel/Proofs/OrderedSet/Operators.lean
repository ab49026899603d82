import SchemaModel.Proofs.OrderedSet.Lawful

/-!
Operators on sets next to the changes in place. An operator makes a new set from a set and an
operand; its form in place goes through the elements one by one and changes the set itself. With
values of a fair class both come to the same: every change can be said as a choice among the elements
of the order, and such a choice leaves nothing open but the order. They part ways for null and for a
set without order that is asked for something that is no key (`agrees_iff`). In a class that is not
fair they may part ways for any operand, since an operand that is made a set first finds less than its
elements do one by one.
-/
namespace SchemaModel.OrderedSet

open Value (Differ IsClass IsTidy IsFair)

variable {P : Value → Prop} {s t : OrderedSet} {x y z : Value} {xs ys zs : List Value}

/-! ## Sets by their order -/

theorem Kept.distinct (h : s.Kept P) (hP : IsTidy P) : Distinct s.order := by
  refine (h.pairwise hP).imp ?_
  rintro x y ⟨-, hyx⟩ ⟨-, hsame⟩
  rw [hyx] at hsame
  cases hsame

theorem Kept.filter_congr (h : s.Kept P) {p q : Value → Bool} (hpq : ∀ x ∈ s.order, p x = q x) :
    s.filter p = s.filter q :=
  (h.filter p).ext (h.filter q) (List.filter_congr hpq)

theorem Kept.filter_true (h : s.Kept P) {p : Value → Bool} (hp : ∀ x ∈ s.order, p x = true) :
    s.filter p = s :=
  (h.filter p).ext h (List.filter_eq_self.mpr hp)

theorem Kept.filter_filter (h : s.Kept P) (p q : Value → Bool) :
    (s.filter p).filter q = s.filter fun x => q x && p x :=
  ((h.filter p).filter q).ext (h.filter _) List.filter_filter

theorem Kept.ofList_order (h : s.Kept P) (hP : IsTidy P) : ofList s.order = s :=
  (kept_ofList hP h.held).ext h (order_ofList_of_distinct (h.distinct hP))

/-- A set that is made from a list finds what is among the list. -/
theorem contains_ofList (hP : IsTidy P) (hys : ∀ y ∈ ys, P y) (hx : P x) :
    (ofList ys).contains x = x.isAmong ys := by
  rw [Bool.eq_iff_iff, (kept_ofList hP hys).contains_iff hP hx, Value.isAmong_iff]
  constructor
  · rintro ⟨z, hz, hxz⟩
    exact ⟨z, mem_of_mem_ofList hz, hxz⟩
  · rintro ⟨y, hy, hxy⟩
    -- what is not kept is the same as something that is
    obtain ⟨z, hz, hyz⟩ := exists_mem_ofList hy
    have hcz : P z := hys z (mem_of_mem_ofList hz)
    rcases hyz with rfl | hyz
    · exact ⟨y, hz, hxy⟩
    · exact ⟨z, hz, hP.trans hx (hys y hy) hcz hxy hyz⟩

theorem Kept.not_isAmong_cons (h : s.Kept P) (hP : IsTidy P) (hz : P z) (hx : x ∈ s.order) :
    (!x.isAmong zs && !z.same x) = !x.isAmong (z :: zs) := by
  rw [hP.comm hz (h.held x hx), Value.isAmong_cons, Bool.not_or, Bool.and_comm]

/-! ## Discarding -/

theorem Kept.discard_eq (h : s.Kept P) (hP : IsTidy P) (hx : P x) :
    s.discard x = s.filter fun y => !x.same y := by
  by_cases hc : s.contains x = true
  · refine (h.discard hP hx).ext (h.filter _) ?_
    obtain ⟨before, y, after, hsplit, hxy, hrest, horder⟩ := h.discard_split hP hx hc
    have hkeep : (before ++ after).filter (fun z => !x.same z) = before ++ after := by
      rw [List.filter_eq_self]
      intro z hz
      simp [hrest z hz]
    show (s.discard x).order = s.order.filter fun z => !x.same z
    rw [horder, hsplit, List.filter_append, List.filter_cons_of_neg (by simp [hxy]),
      ← List.filter_append, hkeep]
  · have hother : ∀ y ∈ s.order, (!x.same y) = true := by
      intro y hy
      rw [h.contains_iff hP hx] at hc
      simpa using fun hxy => hc ⟨y, hy, hxy⟩
    rw [h.filter_true hother, OrderedSet.discard, if_neg hc]

/-- What is discarded one by one is everything that is the same as one of the list. -/
theorem Kept.foldl_discard (h : s.Kept P) (hP : IsTidy P) (hys : ∀ y ∈ ys, P y) :
    ys.foldl OrderedSet.discard s = s.filter fun x => !x.isAmong ys := by
  induction ys generalizing s with
  | nil => exact (h.filter_true fun _ _ => rfl).symm
  | cons y ys ih =>
    rw [List.forall_mem_cons] at hys
    rw [List.foldl_cons, ih (h.discard hP hys.1) hys.2, h.discard_eq hP hys.1, h.filter_filter]
    exact h.filter_congr fun x hx => h.not_isAmong_cons hP hys.1 hx

theorem Kept.contains_discard (h : s.Kept P) (hP : IsTidy P) (hx : P x)
    (hz : P z) (hxz : x.same z = false) :
    (s.discard x).contains z = s.contains z := by
  rw [Bool.eq_iff_iff, (h.discard hP hx).contains_iff hP hz, h.contains_iff hP hz,
    h.discard_eq hP hx]
  constructor
  · rintro ⟨y, hy, hzy⟩
    exact ⟨y, (List.mem_filter.mp hy).1, hzy⟩
  · rintro ⟨y, hy, hzy⟩
    refine ⟨y, List.mem_filter.mpr ⟨hy, ?_⟩, hzy⟩
    have hcy := h.held y hy
    by_contra hxy
    have hxy : x.same y = true := by simpa using hxy
    rw [hP.trans hx hcy hz hxy (hP.symm hz hcy hzy)] at hxz
    cases hxz

theorem Kept.size_discard (h : s.Kept P) (hP : IsTidy P) (hx : P x)
    (hc : s.contains x = true) : (s.discard x).size + 1 = s.size := by
  obtain ⟨before, y, after, hsplit, -, -, horder⟩ := h.discard_split hP hx hc
  rw [size, size, hsplit, horder]
  simp
  omega

/-- A set holds as many elements at least as it finds values that differ. -/
theorem Kept.length_le (h : s.Kept P) (hP : IsTidy P) (hxs : ∀ x ∈ xs, P x) (hdiffer : Differ xs)
    (hc : ∀ x ∈ xs, s.contains x = true) : xs.length ≤ s.size := by
  induction xs generalizing s with
  | nil => exact Nat.zero_le _
  | cons x xs ih =>
    rw [List.forall_mem_cons] at hxs hc
    obtain ⟨hhead, htail⟩ := List.pairwise_cons.mp hdiffer
    have hrest := ih (h.discard hP hxs.1) hxs.2 htail fun z hz => by
      rw [h.contains_discard hP hxs.1 (hxs.2 z hz) (hhead z hz)]
      exact hc.2 z hz
    have := h.size_discard hP hxs.1 hc.1
    rw [List.length_cons]
    omega

/-! ## Toggling -/

theorem Kept.contains_add (h : s.Kept P) (hP : IsTidy P) (hx : P x) (hz : P z)
    (hxz : x.same z = false) : (s.add x).contains z = s.contains z := by
  have hzx : ¬ z.same x = true := by simp [hP.comm hz hx, hxz]
  rw [Bool.eq_iff_iff, (h.add hP hx).contains_iff hP hz, h.contains_iff hP hz, order_add]
  by_cases hc : s.contains x = true
  · rw [if_pos hc]
  · rw [if_neg hc]
    simp [hzx]

/-- Values that differ are toggled independently of each other. -/
theorem Kept.order_foldl_toggle (h : s.Kept P) (hP : IsTidy P) (hzs : ∀ z ∈ zs, P z)
    (hdiffer : Differ zs) : (zs.foldl OrderedSet.toggle s).order =
      (s.order.filter fun x => !x.isAmong zs) ++ zs.filter fun z => !s.contains z := by
  induction zs generalizing s with
  | nil => simp [Value.isAmong]
  | cons z zs ih =>
    rw [List.forall_mem_cons] at hzs
    obtain ⟨hhead, htail⟩ := List.pairwise_cons.mp hdiffer
    rw [List.foldl_cons, OrderedSet.toggle]
    by_cases hc : s.contains z = true
    · have hothers : ∀ w ∈ zs, (!(s.discard z).contains w) = !s.contains w := by
        intro w hw
        rw [h.contains_discard hP hzs.1 (hzs.2 w hw) (hhead w hw)]
      rw [if_pos hc, ih (h.discard hP hzs.1) hzs.2 htail, List.filter_congr hothers,
        List.filter_cons_of_neg (by simp [hc]), h.discard_eq hP hzs.1]
      show (s.order.filter _).filter _ ++ _ = _
      rw [List.filter_filter, List.filter_congr fun x hx => h.not_isAmong_cons hP hzs.1 hx]
    · have hothers : ∀ w ∈ zs, (!(s.add z).contains w) = !s.contains w := by
        intro w hw
        rw [h.contains_add hP hzs.1 (hzs.2 w hw) (hhead w hw)]
      have hnew : z.isAmong zs = false := by
        rw [Value.isAmong, List.any_eq_false]
        intro w hw
        simp [hhead w hw]
      have hkept : ∀ x ∈ s.order, (!x.isAmong zs) = !x.isAmong (z :: zs) := by
        intro x hx
        have hxz : x.same z = false := h.same_of_absent hP hzs.1 hc hx
        rw [Value.isAmong_cons, hxz, Bool.false_or]
      rw [if_neg hc, ih (h.add hP hzs.1) hzs.2 htail, List.filter_congr hothers, order_add,
        if_neg hc, List.filter_append, List.filter_congr hkept,
        List.filter_cons_of_pos (l := zs) (by simpa using hc)]
      simp [hnew]

/-! ## New sets -/

theorem Kept.union_eq (h : s.Kept P) (hP : IsTidy P) (ys : List Value) :
    ofList (s.order ++ ys) = s.addAll ys := by
  rw [ofList, OrderedSet.addAll, List.foldl_append]
  show (ofList s.order).addAll ys = s.addAll ys
  rw [h.ofList_order hP]

/-- Values of the class that differ make a set in their own order. -/
theorem order_ofList_of_differ (hP : IsTidy P) (hzs : ∀ z ∈ zs, P z) (hdiffer : Differ zs) :
    (ofList zs).order = zs := by
  refine order_ofList_of_distinct (hdiffer.imp_of_mem fun {x y} hx hy hxy hclash => ?_)
  rw [hP.comm (hzs x hx) (hzs y hy), hclash.2] at hxy
  cases hxy

/-- What is left of two sets when each is taken from the other makes the set that is left when the
elements of the one are toggled in the other. -/
theorem Kept.symmDiff_eq (h : s.Kept P) (hP : IsTidy P) (hzs : ∀ z ∈ zs, P z)
    (hdiffer : Differ zs) :
    ofList ((s.filter fun x => !x.isAmong zs).order ++
      (ofList (zs.filter fun z => !s.contains z)).order) = zs.foldl OrderedSet.toggle s := by
  have hleft := h.filter fun x => !x.isAmong zs
  have hright : ∀ z ∈ zs.filter (fun z => !s.contains z), P z :=
    fun z hz => hzs z (List.mem_filter.mp hz).1
  have hapart : Differ (zs.filter fun z => !s.contains z) := hdiffer.sublist List.filter_sublist
  rw [order_ofList_of_differ hP hright hapart, hleft.union_eq hP]
  refine (hleft.addAll hP hright).ext (h.foldl (fun h hx => h.toggle hP hx) hzs) ?_
  rw [h.order_foldl_toggle hP hzs hdiffer]
  refine order_addAll_of_distinct hleft.indexed (List.pairwise_append.mpr
    ⟨hleft.distinct hP, ?_, fun x hx z hz hclash => ?_⟩)
  · rw [← order_ofList_of_differ hP hright hapart]
    exact distinct_ofList _
  · -- what is left of the values is not found in the set
    obtain ⟨hz, hnew⟩ := List.mem_filter.mp hz
    have hfound : s.contains z = true :=
      (h.contains_iff hP (hzs z hz)).mpr ⟨x, (List.mem_filter.mp hx).1, hclash.2⟩
    simp [hfound] at hnew

/-! ## Common elements -/

theorem allPass_eq {p : Value → Except SetError Bool} (hp : ∀ x ∈ xs, p x = .ok true) :
    allPass p xs = .ok true := by
  induction xs with
  | nil => rfl
  | cons x xs ih =>
    rw [List.forall_mem_cons] at hp
    rw [allPass, hp.1]
    exact ih hp.2

/-- Two sets that find the elements of each other are equal. -/
theorem Kept.equals_of_contains (hs : s.Kept P) (hP : IsFair P) (ht : t.Kept P)
    (hst : ∀ x ∈ s.order, t.contains x = true) (hts : ∀ y ∈ t.order, s.contains y = true) :
    s.equals t.toValue = .ok true := by
  have hT := hP.toIsTidy
  have hsize : s.size = t.size := Nat.le_antisymm (ht.length_le hT hs.held hs.differ hst)
    (hs.length_le hT ht.held ht.differ hts)
  have hpass : allPass t.contains? s.order = .ok true :=
    allPass_eq fun x hx => by rw [ht.contains?_eq hP (hs.held x hx), hst x hx]
  rw [toValue, equals, Operand.ofSet?, ht.ofList_order hT]
  show (if s.size = t.size then _ else _) = _
  rw [if_pos hsize, subset]
  show (if t.size < s.size then _ else _) = _
  rw [if_neg (by omega)]
  exact hpass

/-- An element of a set is found in a list if it is found among the common elements. -/
theorem Kept.contains_common (h : s.Kept P) (hP : IsTidy P) (hys : ∀ y ∈ ys, P y)
    (hx : x ∈ s.order) :
    (ofList (ys.filter s.contains)).contains x = x.isAmong ys := by
  have hcommon : ∀ y ∈ ys.filter s.contains, P y := fun y hy => hys y (List.mem_filter.mp hy).1
  have hpx := h.held x hx
  rw [contains_ofList hP hcommon hpx, Bool.eq_iff_iff, Value.isAmong_iff, Value.isAmong_iff]
  constructor
  · rintro ⟨y, hy, hxy⟩
    exact ⟨y, (List.mem_filter.mp hy).1, hxy⟩
  · rintro ⟨y, hy, hxy⟩
    have hfound : s.contains y = true :=
      (h.contains_iff hP (hys y hy)).mpr ⟨x, hx, hP.symm hpx (hys y hy) hxy⟩
    exact ⟨y, List.mem_filter.mpr ⟨hy, hfound⟩, hxy⟩

/-- What a set and a list have in common is the same whichever of the two it is taken from. -/
theorem Kept.equals_common (h : s.Kept P) (hP : IsFair P) (hys : ∀ y ∈ ys, P y) :
    (s.filter fun x => x.isAmong ys).equals (ofList (ys.filter s.contains)).toValue =
      .ok true := by
  have hT := hP.toIsTidy
  have hcommon : ∀ y ∈ ys.filter s.contains, P y := fun y hy => hys y (List.mem_filter.mp hy).1
  refine (h.filter _).equals_of_contains hP (kept_ofList hT hcommon) ?_ ?_
  · intro x hx
    obtain ⟨hx, hin⟩ := List.mem_filter.mp hx
    rw [h.contains_common hT hys hx, hin]
  · intro y hy
    obtain ⟨hmem, hc⟩ := List.mem_filter.mp (mem_of_mem_ofList hy)
    have hpy := hys y hmem
    obtain ⟨x, hx, hyx⟩ := (h.contains_iff hT hpy).mp hc
    have hin : x.isAmong ys = true :=
      Value.isAmong_iff.mpr ⟨y, hmem, hT.symm hpy (h.held x hx) hyx⟩
    exact ((h.filter _).contains_iff hT hpy).mpr ⟨x, List.mem_filter.mpr ⟨hx, hin⟩, hyx⟩

theorem isAmong_of_same (hP : IsTidy P) (hzs : ∀ z ∈ zs, P z) (hx : P x) (hy : P y)
    (hxy : x.same y = true) (hin : x.isAmong zs = true) : y.isAmong zs = true := by
  obtain ⟨z, hz, hxz⟩ := Value.isAmong_iff.mp hin
  exact Value.isAmong_iff.mpr ⟨z, hz, hP.trans hy hx (hzs z hz) (hP.symm hx hy hxy) hxz⟩

/-- The elements that are kept are left when all others are discarded. -/
theorem Kept.discard_others (h : s.Kept P) (hP : IsTidy P) (hzs : ∀ z ∈ zs, P z) :
    (s.filter fun x => !x.isAmong zs).order.foldl OrderedSet.discard s =
      s.filter fun x => x.isAmong zs := by
  rw [h.foldl_discard hP (h.filter _).held]
  refine h.filter_congr fun x hx => ?_
  have hpx := h.held x hx
  cases hin : x.isAmong zs with
  | true =>
    have hnone : x.isAmong (s.filter fun x => !x.isAmong zs).order = false := by
      rw [Value.isAmong, List.any_eq_false]
      intro y hy hxy
      obtain ⟨hy, hout⟩ := List.mem_filter.mp hy
      simp [isAmong_of_same hP hzs hpx (h.held y hy) hxy hin] at hout
    rw [hnone]
    rfl
  | false =>
    have hmem : x ∈ (s.filter fun x => !x.isAmong zs).order :=
      List.mem_filter.mpr ⟨hx, by simp [hin]⟩
    rw [Value.isAmong_of_mem (hP.comparable hpx) hmem]
    rfl

/-! ## Operands -/

theorem choose_eq {p : Value → Except SetError Bool} {q : Value → Bool}
    (h : ∀ x ∈ xs, p x = .ok (q x)) : choose p xs = .ok (xs.filter q) := by
  induction xs with
  | nil => rfl
  | cons x xs ih =>
    rw [List.forall_mem_cons] at h
    rw [choose, h.1, ih h.2, List.filter_cons]
    rfl

/-- A choice is refused if the test of one value is. -/
theorem choose_refused {p : Value → Except SetError Bool} (hp : ∀ x ∈ xs, Answers (p x))
    (hx : x ∈ xs) (hrefused : p x = .error .lookup) : choose p xs = .error .lookup := by
  induction xs with
  | nil => cases hx
  | cons w xs ih =>
    rw [choose]
    obtain rfl | hx := List.mem_cons.mp hx
    · rw [hrefused]
      rfl
    · rw [List.forall_mem_cons] at hp
      rw [ih hp.2 hx]
      obtain ⟨b, hb⟩ | hb := hp.1
      · rw [hb]
        rfl
      · rw [hb]
        rfl

/-- Whether a value is a set without order. -/
def isPlainSet : Value → Bool
  | .unordered _ | .frozen _ => true
  | _ => false

/-- A set `t` that stands for an operand with the elements `ys`. -/
structure StandsFor (P : Value → Prop) (t : Operand) (ys : List Value) : Prop where
  held : ∀ z ∈ t.elements, P z
  differ : Differ t.elements
  isAmong : ∀ x, P x → x.isAmong t.elements = x.isAmong ys

theorem standsFor_ofList (hP : IsTidy P) (hys : ∀ y ∈ ys, P y) :
    StandsFor P (.ordered (ofList ys)) ys where
  held := (kept_ofList hP hys).held
  differ := (kept_ofList hP hys).differ
  isAmong x hx := by
    rw [← contains_ofList hP hys hx, (kept_ofList hP hys).contains_eq hP hx]
    rfl

/-- The set that an operand with elements comes to: a set without order is one already. -/
def standIn (y : Value) (ys : List Value) : Operand :=
  if isPlainSet y then .plain ys else .ordered (ofList ys)

theorem standIn_of_plain (h : isPlainSet y = true) : standIn y ys = .plain ys := if_pos h

theorem standIn_of_not_plain (h : isPlainSet y = false) : standIn y ys = .ordered (ofList ys) :=
  if_neg (by simp [h])

theorem operand_eq_standIn (hP : IsFair P) (hy : y.isComparable = true)
    (hsome : y.elements? = some ys) (hys : ∀ x ∈ ys, P x) : operand y = .ok (standIn y ys) := by
  have hnew : (do return Operand.ordered (← ofList? ys)) =
      (Except.ok (.ordered (ofList ys)) : Except SetError Operand) := by
    rw [ofList?_eq hP hys]
    rfl
  cases y with
  | set _ | unordered _ | frozen _ =>
    cases hsome
    rfl
  | list _ | tuple _ | text _ | bytes _ | mapping _ =>
    cases hsome
    exact hnew
  | marked _ _ => cases hy
  | _ => cases hsome

theorem standsFor_standIn (hP : IsTidy P) (hy : y.isComparable = true)
    (hsome : y.elements? = some ys) (hys : ∀ x ∈ ys, P x) : StandsFor P (standIn y ys) ys := by
  cases hplain : isPlainSet y with
  | false =>
    rw [standIn_of_not_plain hplain]
    exact standsFor_ofList hP hys
  | true =>
    rw [standIn_of_plain hplain]
    refine ⟨hys, ?_, fun _ _ => rfl⟩
    cases y with
    | unordered _ | frozen _ =>
      cases hsome
      simp only [Value.isComparable, Bool.and_eq_true, decide_eq_true_eq] at hy
      exact hy.2
    | _ => cases hplain

theorem operand_of_elements?_none (h : y.elements? = none) :
    elements y = .error .operand ∧ operand y = .error .operand := by
  have helements : elements y = .error .operand := by rw [elements, h]
  refine ⟨helements, ?_⟩
  rw [operand]
  split
  · rename_i t ht
    obtain ⟨ys, hys, -⟩ := elements?_of_ofSet? ht
    rw [h] at hys
    cases hys
  · rw [helements]
    rfl

/-- Whether an operand lets the elements of a set be looked up. -/
def Admits (s : OrderedSet) (y : Value) : Prop :=
  isPlainSet y = true → ∀ x ∈ s.order, x.isSought = true

/-- What is left of a set when an operand is taken away in which its elements can be looked up. -/
theorem Kept.without_eq (h : s.Kept P) (hP : IsFair P) {t : Operand} (ht : StandsFor P t ys)
    (hadmits : ∀ x ∈ s.order, t.contains? x = .ok (x.isAmong t.elements)) :
    s.without t = .ok (s.filter fun x => !x.isAmong ys) := by
  have hchoose : choose (fun x => (t.contains? x).map not) s.order =
      .ok (s.filter fun x => !x.isAmong ys).order :=
    choose_eq fun x hx => by
      rw [hadmits x hx, ht.isAmong x (h.held x hx)]
      rfl
  have hkept := h.filter fun x => !x.isAmong ys
  rw [without, hchoose]
  show ofList? _ = _
  rw [ofList?_eq hP hkept.held, hkept.ofList_order hP.toIsTidy]

theorem Kept.contains?_standIn (h : s.Kept P) (hP : IsFair P) (hys : ∀ y ∈ ys, P y)
    (hadmits : s.Admits y) : ∀ x ∈ s.order,
      (standIn y ys).contains? x = .ok (x.isAmong (standIn y ys).elements) := by
  intro x hx
  cases hplain : isPlainSet y with
  | true =>
    rw [standIn_of_plain hplain, Operand.contains?, if_pos (hadmits hplain x hx)]
    rfl
  | false =>
    have hkept := kept_ofList hP.toIsTidy hys
    have hpx := h.held x hx
    rw [standIn_of_not_plain hplain, Operand.contains?, hkept.contains?_eq hP hpx,
      hkept.contains_eq hP.toIsTidy hpx]
    rfl

theorem Kept.without_refused (h : s.Kept P) (hP : IsFair P) (hys : ∀ y ∈ ys, P y)
    (hx : x ∈ s.order) (hloose : x.isSought = false) :
    s.without (.plain ys) = .error .lookup := by
  have hrefused : (Operand.contains? (.plain ys) x).map not = .error .lookup := by
    rw [Operand.contains?, hloose]
    rfl
  have hanswers : ∀ x ∈ s.order, Answers ((Operand.contains? (.plain ys) x).map not) := by
    intro x hx
    have hheld : Operand.Held P (.plain ys) := hys
    obtain ⟨b, hb⟩ | hb := hheld.answers hP (h.held x hx)
    · exact .inl ⟨!b, by rw [hb]; rfl⟩
    · exact .inr (by rw [hb]; rfl)
  rw [without, choose_refused hanswers hx hrefused]
  rfl

/-! ## Operators and their forms in place -/

/-- The operators that make a set from a set and an operand. -/
inductive Operator
  | union
  | inter
  | diff
  | symmDiff

namespace Operator

/-- The new set, unless the operand is refused. -/
def make : Operator → OrderedSet → Value → Except SetError OrderedSet
  | .union => OrderedSet.union
  | .inter => OrderedSet.inter
  | .diff => OrderedSet.diff
  | .symmDiff => OrderedSet.symmDiff

/-- The form in place. -/
def change : Operator → Value → Change
  | .union => .union
  | .inter => .inter
  | .diff => .diff
  | .symmDiff => .symmDiff

/-- How a set after a change in place compares with the set that the operator makes. An intersection
takes its elements from the operand, while the set keeps its own, in its own order; otherwise the two
are one and the same. -/
def Matches (o : Operator) (s made after : OrderedSet) : Prop :=
  match o with
  | .inter => after.equals made.toValue = .ok true ∧ after.order = s.order.filter made.contains
  | _ => after = made

/-- Whether an operator and its form in place come to the same, which may be that both refuse the
operand. -/
inductive Agrees (o : Operator) (s : OrderedSet) (y : Value) : Prop
  | given {made after : OrderedSet} (hmade : o.make s y = .ok made)
      (hafter : (o.change y).apply s = .ok after) (h : o.Matches s made after)
  | refused {e : SetError} (hmade : o.make s y = .error e)
      (hafter : (o.change y).apply s = .error e)

end Operator

/-- Whether a set was made from values of a class and changed with them. -/
def Reached (P : Value → Prop) (s : OrderedSet) : Prop :=
  ∃ (xs : List Value) (cs : List Change), (∀ x ∈ xs, P x) ∧ (∀ c ∈ cs, ∀ x ∈ c.values, P x) ∧
    reach? xs cs = some s

theorem Reached.kept (hs : s.Reached P) (hP : IsFair P) : s.Kept P := by
  obtain ⟨xs, cs, hxs, hcs, hs⟩ := hs
  obtain ⟨t, ht, hkept⟩ := exists_reach? hP hxs hcs
  rw [hs] at ht
  cases ht
  exact hkept

/-- An operand without elements is refused by both forms, but for null that is to be toggled. -/
theorem agrees_of_elements?_none {o : Operator} (hsome : y.elements? = none)
    (hnull : ¬ (o = .symmDiff ∧ y = .null)) : o.Agrees s y := by
  obtain ⟨helements, hoperand⟩ := operand_of_elements?_none hsome
  have hdiff : s.diff y = .error .operand := by
    rw [diff, hoperand]
    rfl
  cases o with
  | union =>
    refine .refused (e := .operand) ?_ ?_
    · rw [Operator.make, union, helements]
      rfl
    · rw [Operator.change, Change.apply, unionInPlace, helements]
      rfl
  | inter =>
    refine .refused (e := .operand) ?_ ?_
    · rw [Operator.make, inter, helements]
      rfl
    · rw [Operator.change, Change.apply, interInPlace, hdiff]
      rfl
  | diff =>
    refine .refused (e := .operand) hdiff ?_
    rw [Operator.change, Change.apply, diffInPlace, helements]
    rfl
  | symmDiff =>
    refine .refused (e := .operand) ?_ ?_
    · rw [Operator.make, symmDiff, hoperand]
      rfl
    · rw [Operator.change, Change.apply, symmDiffInPlace_eq fun h => hnull ⟨rfl, h⟩, hoperand]
      rfl

theorem elements_of_elements? (hsome : y.elements? = some ys) : elements y = .ok ys := by
  rw [elements, hsome]

theorem Kept.agrees_union (h : s.Kept P) (hP : IsFair P) (hsome : y.elements? = some ys)
    (hys : ∀ x ∈ ys, P x) : Operator.Agrees .union s y := by
  have hall : ∀ x ∈ s.order ++ ys, P x := by
    intro x hx
    obtain hx | hx := List.mem_append.mp hx
    · exact h.held x hx
    · exact hys x hx
  have hmade : s.union y = .ok (s.addAll ys) := by
    rw [union, elements_of_elements? hsome]
    show ofList? _ = _
    rw [ofList?_eq hP hall, h.union_eq hP.toIsTidy]
  have hafter : s.unionInPlace y = .ok (s.addAll ys) := by
    rw [unionInPlace, elements_of_elements? hsome]
    exact h.addAll?_eq hP hys
  exact .given hmade hafter rfl

/-- The common elements, taken from the operand. -/
theorem Kept.inter_eq (h : s.Kept P) (hP : IsFair P) (hsome : y.elements? = some ys)
    (hys : ∀ x ∈ ys, P x) : s.inter y = .ok (ofList (ys.filter s.contains)) := by
  have hchoose : choose s.contains? ys = .ok (ys.filter s.contains) :=
    choose_eq fun x hx => h.contains?_eq hP (hys x hx)
  rw [inter, elements_of_elements? hsome]
  show (choose s.contains? ys >>= ofList?) = _
  rw [hchoose]
  exact ofList?_eq hP fun x hx => hys x (List.mem_filter.mp hx).1

theorem Kept.diff_eq (h : s.Kept P) (hP : IsFair P) (hy : y.isComparable = true)
    (hsome : y.elements? = some ys) (hys : ∀ x ∈ ys, P x) (hadmits : s.Admits y) :
    s.diff y = .ok (s.filter fun x => !x.isAmong ys) := by
  rw [diff, operand_eq_standIn hP hy hsome hys]
  exact h.without_eq hP (standsFor_standIn hP.toIsTidy hy hsome hys)
    (h.contains?_standIn hP hys hadmits)

theorem Kept.agrees_inter (h : s.Kept P) (hP : IsFair P) (hy : y.isComparable = true)
    (hsome : y.elements? = some ys) (hys : ∀ x ∈ ys, P x) (hadmits : s.Admits y) :
    Operator.Agrees .inter s y := by
  have hT := hP.toIsTidy
  have hafter : s.interInPlace y = .ok (s.filter fun x => x.isAmong ys) := by
    rw [interInPlace, h.diff_eq hP hy hsome hys hadmits]
    show List.foldlM giveUp? s _ = _
    rw [h.foldlM_giveUp?_eq hP (h.filter _).held, h.discard_others hT hys]
  refine .given (h.inter_eq hP hsome hys) hafter ⟨h.equals_common hP hys, ?_⟩
  exact List.filter_congr fun x hx => (h.contains_common hT hys hx).symm

theorem Kept.agrees_diff (h : s.Kept P) (hP : IsFair P) (hy : y.isComparable = true)
    (hsome : y.elements? = some ys) (hys : ∀ x ∈ ys, P x) (hadmits : s.Admits y) :
    Operator.Agrees .diff s y := by
  have hafter : s.diffInPlace y = .ok (s.filter fun x => !x.isAmong ys) := by
    rw [diffInPlace, elements_of_elements? hsome]
    show List.foldlM discard? s ys = _
    rw [h.foldlM_discard?_eq hP hys, h.foldl_discard hP.toIsTidy hys]
  exact .given (h.diff_eq hP hy hsome hys hadmits) hafter rfl

/-- What is left of the set and what is left of the operand, together. -/
theorem Kept.symmDiff_standIn (h : s.Kept P) (hP : IsFair P) {t : Operand}
    (ht : operand y = .ok t) (hstands : StandsFor P t ys)
    (hadmits : ∀ x ∈ s.order, t.contains? x = .ok (x.isAmong t.elements)) :
    s.symmDiff y = .ok (t.elements.foldl OrderedSet.toggle s) := by
  have hT := hP.toIsTidy
  have hleft : s.without t = .ok (s.filter fun x => !x.isAmong t.elements) :=
    h.without_eq hP ⟨hstands.held, hstands.differ, fun _ _ => rfl⟩ hadmits
  have hchoose : choose (fun x => (s.contains? x).map not) t.elements =
      .ok (t.elements.filter fun z => !s.contains z) :=
    choose_eq fun x hx => by
      rw [h.contains?_eq hP (hstands.held x hx)]
      rfl
  have hnew : ∀ z ∈ t.elements.filter (fun z => !s.contains z), P z :=
    fun z hz => hstands.held z (List.mem_filter.mp hz).1
  have hall : ∀ x ∈ (s.filter fun x => !x.isAmong t.elements).order ++
      (ofList (t.elements.filter fun z => !s.contains z)).order, P x := by
    intro x hx
    obtain hx | hx := List.mem_append.mp hx
    · exact (h.filter _).held x hx
    · exact (kept_ofList hT hnew).held x hx
  rw [symmDiff, ht]
  show (s.without t >>= fun left => choose (fun x => (s.contains? x).map not) t.elements >>=
    fun zs => ofList? zs >>= fun right => ofList? (left.order ++ right.order)) = _
  rw [hleft, hchoose]
  show (ofList? _ >>= fun right => ofList? (_ ++ right.order)) = _
  rw [ofList?_eq hP hnew]
  show ofList? _ = _
  rw [ofList?_eq hP hall, h.symmDiff_eq hT hstands.held hstands.differ]

/-- The elements of the set that stands for the operand are toggled. -/
theorem Kept.symmDiffInPlace_standIn (h : s.Kept P) (hP : IsFair P) {t : Operand}
    (ht : operand y = .ok t) (hstands : StandsFor P t ys) (hnull : y ≠ .null) :
    s.symmDiffInPlace y = .ok (t.elements.foldl OrderedSet.toggle s) := by
  rw [symmDiffInPlace_eq hnull, ht]
  exact h.foldlM_eq (fun h hx => h.toggle?_eq hP hx) (fun h hx => h.toggle hP.toIsTidy hx)
    hstands.held

theorem Kept.agrees_symmDiff (h : s.Kept P) (hP : IsFair P) (hy : y.isComparable = true)
    (hsome : y.elements? = some ys) (hys : ∀ x ∈ ys, P x) (hadmits : s.Admits y) :
    Operator.Agrees .symmDiff s y := by
  have ht := operand_eq_standIn hP hy hsome hys
  have hstands := standsFor_standIn hP.toIsTidy hy hsome hys
  have hnull : y ≠ .null := by
    rintro rfl
    cases hsome
  exact .given (h.symmDiff_standIn hP ht hstands (h.contains?_standIn hP hys hadmits))
    (h.symmDiffInPlace_standIn hP ht hstands hnull) rfl

theorem Kept.agrees (h : s.Kept P) (hP : IsFair P) {o : Operator} (hy : y.isComparable = true)
    (hys : ∀ x ∈ y.elements?.getD [], P x) (hnull : ¬ (o = .symmDiff ∧ y = .null))
    (hadmits : o ≠ .union → s.Admits y) : o.Agrees s y := by
  cases hsome : y.elements? with
  | none => exact agrees_of_elements?_none hsome hnull
  | some ys =>
    have hys : ∀ x ∈ ys, P x := by simpa [hsome] using hys
    cases o with
    | union => exact h.agrees_union hP hsome hys
    | inter => exact h.agrees_inter hP hy hsome hys (hadmits nofun)
    | diff => exact h.agrees_diff hP hy hsome hys (hadmits nofun)
    | symmDiff => exact h.agrees_symmDiff hP hy hsome hys (hadmits nofun)

/-- Null has no elements, and yet nothing is refused when its elements are to be toggled. -/
theorem symmDiff_null (s : OrderedSet) : ¬ Operator.Agrees .symmDiff s .null := by
  intro h
  cases h with
  | given hmade => cases hmade
  | refused _ hafter => cases hafter

theorem not_agrees_of_error {o : Operator} {e : SetError} (hmade : o.make s y = .error e)
    (hafter : (o.change y).apply s = .ok t) : ¬ o.Agrees s y := by
  intro h
  cases h with
  | given hmade' =>
    rw [hmade] at hmade'
    cases hmade'
  | refused _ hafter' =>
    rw [hafter] at hafter'
    cases hafter'

/-- A set without order refuses the lookup of what is no key, in the operators that take it from the
set and in the intersection in place; their counterparts look up its keys in the set only. -/
theorem Kept.not_agrees_plain (h : s.Kept P) (hP : IsFair P) {o : Operator} (ho : o ≠ .union)
    (hplain : isPlainSet y = true) (hys : ∀ x ∈ y.elements?.getD [], P x) (hx : x ∈ s.order)
    (hloose : x.isSought = false) : ¬ o.Agrees s y := by
  obtain ⟨ys, hsome, hoperand⟩ : ∃ ys, y.elements? = some ys ∧ operand y = .ok (.plain ys) := by
    cases y with
    | unordered ys | frozen ys => exact ⟨ys, rfl, rfl⟩
    | _ => cases hplain
  have hys : ∀ x ∈ ys, P x := by simpa [hsome] using hys
  have hdiff : s.diff y = .error .lookup := by
    rw [diff, hoperand]
    exact h.without_refused hP hys hx hloose
  cases o with
  | union => exact absurd rfl ho
  | inter =>
    rintro (⟨hmade, hafter⟩ | ⟨hmade, -⟩)
    · rw [Operator.change, Change.apply, interInPlace, hdiff] at hafter
      cases hafter
    · rw [Operator.make, h.inter_eq hP hsome hys] at hmade
      cases hmade
  | diff =>
    refine not_agrees_of_error hdiff (t := ys.foldl OrderedSet.discard s) ?_
    rw [Operator.change, Change.apply, diffInPlace, elements_of_elements? hsome]
    exact h.foldlM_discard?_eq hP hys
  | symmDiff =>
    refine not_agrees_of_error (e := .lookup) (t := ys.foldl OrderedSet.toggle s) ?_ ?_
    · rw [Operator.make, symmDiff, hoperand]
      show (s.without (.plain ys) >>= _) = _
      rw [h.without_refused hP hys hx hloose]
      rfl
    · have hnull : y ≠ .null := by
        rintro rfl
        cases hsome
      rw [Operator.change, Change.apply, OrderedSet.symmDiffInPlace_eq hnull, hoperand]
      exact h.foldlM_eq (fun h hx => h.toggle?_eq hP hx) (fun h hx => h.toggle hP.toIsTidy hx) hys

/-- A set that is taken from itself, or toggled with itself, is cleared. -/
theorem Kept.clear_of_self (h : s.Kept P) (hP : IsFair P) :
    s.diffInPlace s.toValue = s.clear? ∧ s.symmDiffInPlace s.toValue = s.clear? := by
  have hT := hP.toIsTidy
  have hnone : ∀ x ∈ s.order, ¬ (!x.isAmong s.order) = true := by
    intro x hx
    simp [Value.isAmong_of_mem (hP.comparable (h.held x hx)) hx]
  have hnew : ∀ x ∈ s.order, ¬ (!s.contains x) = true := by
    intro x hx
    simpa [h.contains_eq hT (h.held x hx)] using hnone x hx
  rw [h.clear?_eq hP]
  constructor
  · show List.foldlM discard? s s.order = _
    rw [h.foldlM_discard?_eq hP h.held, h.foldl_discard hT h.held]
    exact congrArg _ ((h.filter _).ext .empty (List.filter_eq_nil_iff.mpr hnone))
  · show List.foldlM toggle? s (ofList s.order).order = _
    rw [h.ofList_order hT, h.foldlM_eq (fun h hx => h.toggle?_eq hP hx)
      (fun h hx => h.toggle hT hx) h.held]
    refine congrArg _ ((h.foldl (fun h hx => h.toggle hT hx) h.held).ext .empty ?_)
    rw [h.order_foldl_toggle hT h.held h.differ, List.filter_eq_nil_iff.mpr hnone,
      List.filter_eq_nil_iff.mpr hnew]
    rfl

theorem Kept.isComparable_toValue (h : s.Kept P) (hP : IsTidy P) :
    s.toValue.isComparable = true := by
  rw [toValue, Value.isComparable, Bool.and_eq_true]
  exact ⟨Value.allComparable_iff.mpr fun x hx => hP.comparable (h.held x hx),
    by simpa using h.distinct hP⟩

/-- An operator and its form in place come to the same, for all operands but two: null is refused by
the operators, and toggling the elements of null changes nothing; and a set without order refuses to
look up what is no key, which one of the two forms asks for unless they unite. The set itself is an
operand like any other. -/
theorem agrees_iff (hP : IsFair P) (hs : s.Reached P) (o : Operator) (hy : y.isComparable = true)
    (hys : ∀ x ∈ y.elements?.getD [], P x) :
    (o.Agrees s y ↔ ¬ (o = .symmDiff ∧ y = .null) ∧
      ¬ (o ≠ .union ∧ isPlainSet y = true ∧ ∃ x ∈ s.order, x.isSought = false)) ∧
    o.Agrees s s.toValue ∧ s.diffInPlace s.toValue = s.clear? ∧
      s.symmDiffInPlace s.toValue = s.clear? := by
  have hkept := hs.kept hP
  refine ⟨⟨fun hagrees => ⟨?_, ?_⟩, fun ⟨hnull, hplain⟩ => ?_⟩, ?_, hkept.clear_of_self hP⟩
  · rintro ⟨rfl, rfl⟩
    exact symmDiff_null s hagrees
  · rintro ⟨ho, hplain, x, hx, hloose⟩
    exact hkept.not_agrees_plain hP ho hplain hys hx hloose hagrees
  · refine hkept.agrees hP hy hys hnull fun ho hset x hx => ?_
    by_contra hloose
    exact hplain ⟨ho, hset, x, hx, by simpa using hloose⟩
  · refine hkept.agrees hP (hkept.isComparable_toValue hP.toIsTidy) hkept.held ?_ fun _ => ?_
    · rintro ⟨-, hnull⟩
      cases hnull
    · rintro ⟨⟩

/-- An operand in which some values are the same, and some are in the set of the sample. -/
def sampleOperand : Value := .list [.bool true, .text "b", one, .text "b", .text "a"]

theorem agrees_sample :
    (∃ s, reach? sampleValues sampleChanges = some s ∧ Operator.Agrees .symmDiff s sampleOperand) :=
  have hfair := Value.isFair_orderly
  have hxs : ∀ x ∈ sampleValues, x.isComparable = true ∧ x.isOrderly = true := by decide +kernel
  have hcs : ∀ c ∈ sampleChanges, ∀ x ∈ c.values, x.isComparable = true ∧ x.isOrderly = true := by
    decide +kernel
  have ⟨s, hs, _⟩ := exists_reach? hfair hxs hcs
  ⟨s, hs, (agrees_iff hfair ⟨_, _, hxs, hcs, hs⟩ .symmDiff (by decide +kernel)
    (by decide +kernel)).1.mpr ⟨by simp [sampleOperand], by simp [sampleOperand, isPlainSet]⟩⟩

/-- Two forms whose sets differ in size do not agree. -/
theorem not_agrees_of_size {o : Operator} (ho : o ≠ .inter)
    (hsize : (o.make s y).toOption.map size ≠ ((o.change y).apply s).toOption.map size) :
    ¬ o.Agrees s y := by
  intro h
  cases h with
  | @given made after hmade hafter h =>
    obtain rfl : after = made := by
      cases o with
      | inter => exact absurd rfl ho
      | _ => exact h
    exact hsize (by rw [hmade, hafter])
  | refused hmade hafter => exact hsize (by rw [hmade, hafter])

/-- An ordered set of a set without order. -/
def nested : Value := .set [.unordered [.int 1]]

/-- Two sets of one frozen set. They are the same, but only the second is the same as `nested`. -/
def nestedOperand : Value := .list [.set [.frozen [.int 1]], .unordered [.frozen [.int 1]]]

/-- A set that toggles the elements of null, which the operator refuses, and one that holds a list
and takes away a set without order, which the operator refuses. In a class that is not fair, an
element may be left by the operator and go in place. -/
theorem not_agrees_null_plain_nested :
    (OrderedSet.symmDiff (ofList [.int 1]) .null = .error .operand ∧
      Change.apply (ofList [.int 1]) (.symmDiff .null) = .ok (ofList [.int 1]) ∧
      ¬ Operator.Agrees .symmDiff (ofList [.int 1]) .null) ∧
    (OrderedSet.diff (ofList [.list []]) (.unordered []) = .error .lookup ∧
      Change.apply (ofList [.list []]) (.diff (.unordered [])) = .ok (ofList [.list []]) ∧
      ¬ Operator.Agrees .diff (ofList [.list []]) (.unordered [])) ∧
    (OrderedSet.diff (ofList [nested]) nestedOperand).toOption.map size = some 1 ∧
      (Change.apply (ofList [nested]) (.diff nestedOperand)).toOption.map size = some 0 ∧
      ¬ Operator.Agrees .diff (ofList [nested]) nestedOperand := by
  have hmade : (OrderedSet.diff (ofList [nested]) nestedOperand).toOption.map size = some 1 := by
    decide +kernel
  have hafter : (Change.apply (ofList [nested]) (.diff nestedOperand)).toOption.map size =
      some 0 := by
    decide +kernel
  refine ⟨⟨rfl, rfl, symmDiff_null _⟩, ⟨rfl, rfl, not_agrees_of_error (o := .diff) rfl rfl⟩, hmade,
    hafter, not_agrees_of_size nofun ?_⟩
  rw [Operator.make, Operator.change, hmade, hafter]
  decide

end SchemaModel.OrderedSet
