import Mathlib.Logic.Relation
import SchemaModel.Proofs.Ancestors
import SchemaModel.Proofs.Emission.Classes
import SchemaModel.Proofs.Generation.Course
import SchemaModel.Proofs.Generation.Structure

/-!
The order of generated types. An object is registered before its properties are described, so that
the objects that are first met below it come after it (`Explores`); only the root is moved to the
end. A type comes after those that its properties refer to exactly if the root lists them all first
(`nestedFirst_iff`).
-/
namespace SchemaModel

/-- The generated type that a type refers to, by itself or as that of its elements. -/
def TargetType.referred? : TargetType → Option String
  | .reference name => some name
  | .list t => t.referred?
  | .set t => t.referred?
  | _ => none

/-- Every generated type stands behind those that its properties refer to. -/
def Generation.NestedFirst (g : Generation) : Prop :=
  ∀ before t after, g.types = before ++ t :: after →
    ∀ p ∈ t.properties, ∀ name, p.type.referred? = some name → name ∈ before.map (·.name)

/-- One kind decides at most. -/
theorem SchemaNode.KindDecides.unique {n : SchemaNode} {k k' : Option SchemaKind}
    (h : n.KindDecides k) (h' : n.KindDecides k') : k = k' :=
  h.kind.symm.trans h'.kind

namespace Schema

variable {s : Schema} {settings : Settings} {place : Option NodeId} {o u x y : NodeId}
  {n : SchemaNode}

/-! ## References between objects -/

/-- Items lead from a place to an object. -/
def LeadsToObject (s : Schema) (place : Option NodeId) (u : NodeId) : Prop :=
  s.Leads place u ∧ ∃ n, s.node? u = some n ∧ n.KindDecides (some .object)

/-- A property of one object leads to the other. -/
def RefersToObject (s : Schema) (o u : NodeId) : Prop :=
  ∃ entry ∈ s.propertiesOf o, s.LeadsToObject entry.2 u

/-- The root lists every object before those that refer to it, and no object refers to the root. -/
structure ListedFirst (s : Schema) : Prop where
  root : ∀ o, s.ObjectMet o → ¬ s.RefersToObject o s.root
  inner : ∀ o u, s.ObjectMet o → o ≠ s.root → s.RefersToObject o u → ∃ before entry after,
    s.propertiesOf s.root = before ++ entry :: after ∧ s.LeadsToObject entry.2 u ∧
      ∀ e ∈ before ++ [entry], ¬ s.LeadsToObject e.2 o

theorem leadsToObject_iff (hn : s.node? x = some n) : s.LeadsToObject (some x) u ↔
    (n.KindDecides (some .object) ∧ u = x) ∨
      (n.KindDecides (some .array) ∧ s.LeadsToObject n.items u) := by
  constructor
  · rintro ⟨hl, m, hm, hk⟩
    cases hl with
    | self =>
      rw [hn] at hm
      cases hm
      exact .inl ⟨hk, rfl⟩
    | items hx ha hl =>
      rw [hn] at hx
      cases hx
      exact .inr ⟨ha, hl, m, hm, hk⟩
  · rintro (⟨hk, rfl⟩ | ⟨ha, hl, hobject⟩)
    · exact ⟨.self, n, hn, hk⟩
    · exact ⟨.items hn ha hl, hobject⟩

/-- Where neither an object nor an array is declared, there is nothing to lead to. -/
theorem not_leadsToObject (hn : s.node? x = some n) (ho : ¬ n.KindDecides (some .object))
    (ha : ¬ n.KindDecides (some .array)) : ¬ s.LeadsToObject (some x) u := by
  simp [leadsToObject_iff hn, ho, ha]

theorem not_leadsToObject_of_kind (hn : s.node? x = some n) {k : Option SchemaKind}
    (hk : n.KindDecides k) (ho : k ≠ some .object) (ha : k ≠ some .array) :
    ¬ s.LeadsToObject (some x) u :=
  not_leadsToObject hn (fun h => ho (hk.unique h)) (fun h => ha (hk.unique h))

theorem not_leadsToObject_of_absent (h : place.bind s.node? = none) :
    ¬ s.LeadsToObject place u := by
  rintro ⟨hl, m, hm, -⟩
  cases hl with
  | self =>
    rw [Option.bind_some, hm] at h
    cases h
  | items hx _ _ =>
    rw [Option.bind_some, hx] at h
    cases h

/-- By the rules of precedence a place has a type that refers to the object to which its items
lead. -/
theorem HasType.referred?_eq_some {ref enm : NodeId → String} {t : TargetType} {name : String}
    (h : s.HasType settings ref enm place t) :
    t.referred? = some name ↔ ∃ u, s.LeadsToObject place u ∧ ref u = name := by
  induction h with
  | absent h => simp [TargetType.referred?, not_leadsToObject_of_absent h]
  | choices hn hc _ =>
    have hnone : ∀ u, ¬ s.LeadsToObject (some _) u := fun u =>
      not_leadsToObject hn (fun h => h.noChoices ⟨_, _, hc⟩) (fun h => h.noChoices ⟨_, _, hc⟩)
    simp [TargetType.referred?, hnone]
  | millis hn _ hm =>
    have hnone : ∀ u, ¬ s.LeadsToObject (some _) u := fun u =>
      not_leadsToObject hn (fun h => h.noMillis hm) (fun h => h.noMillis hm)
    simp [TargetType.referred?, hnone]
  | formattedDate hn hk _ | date hn hk _ | formattedString hn hk _ | string hn hk _
  | long hn hk _ | integer hn hk _ | number hn hk | boolean hn hk | unrecognized hn hk =>
    have hnone : ∀ u, ¬ s.LeadsToObject (some _) u := fun u =>
      not_leadsToObject_of_kind hn hk nofun nofun
    simp [TargetType.referred?, hnone]
  | list hn hk _ _ ih | set hn hk _ _ ih =>
    have hobject : ¬ SchemaNode.KindDecides _ (some .object) := fun h => nomatch hk.unique h
    simpa [TargetType.referred?, leadsToObject_iff hn, hobject, hk] using ih
  | object hn hk =>
    have harray : ¬ SchemaNode.KindDecides _ (some .array) := fun h => nomatch hk.unique h
    simp [TargetType.referred?, leadsToObject_iff hn, harray, hk]

theorem LeadsToObject.unique (h : s.LeadsToObject place x) (h' : s.LeadsToObject place y) :
    x = y := by
  obtain ⟨hl, n, hn, hk⟩ := h
  induction hl with
  | self =>
    obtain ⟨-, rfl⟩ | ⟨ha, -⟩ := (leadsToObject_iff hn).mp h'
    · rfl
    · cases hk.unique ha
  | items hx ha _ ih =>
    obtain ⟨ho, -⟩ | ⟨-, h'⟩ := (leadsToObject_iff hx).mp h'
    · cases ha.unique ho
    · exact ih h' hn

/-- What an object that is met refers to is met. -/
theorem ObjectMet.refersToObject (ho : s.ObjectMet o) (h : s.RefersToObject o u) :
    s.ObjectMet u := by
  obtain ⟨⟨name, place⟩, he, hl, hobject⟩ := h
  exact .inr ⟨MetUnder.met ⟨o, place, ho, he, hl⟩, hobject⟩

/-! ## Objects in the order in which they are met -/

/-- References lead from one object to another through objects that are not in `met`. -/
def LeadsAround (s : Schema) (met : List NodeId) : NodeId → NodeId → Prop :=
  Relation.ReflTransGen fun a c => s.RefersToObject a c ∧ c ∉ met

theorem LeadsAround.mono {met met' : List NodeId} (h : s.LeadsAround met' y x)
    (hsub : met ⊆ met') : s.LeadsAround met y x :=
  Relation.ReflTransGen.mono (fun _ _ hac => ⟨hac.1, fun hc => hac.2 (hsub hc)⟩) _ _ h

/-- Behind the objects of `met`, the last one first, those of `ids` are met when looking for the
objects that satisfy `start`. -/
structure Explores (s : Schema) (start : NodeId → Prop) (met ids : List NodeId) : Prop where
  reached : ∀ x, start x → x ∈ ids ++ met
  /-- One that is looked for is met first. -/
  first : ids = [] ∨ ∃ rest y, start y ∧ ids = rest ++ [y]
  /-- The others are met on a way through objects that were not met before. -/
  new : ∀ x ∈ ids, ∃ y, start y ∧ y ∉ met ∧ s.LeadsAround met y x

variable {start start' : NodeId → Prop} {met met' ids ids' : List NodeId}
  {ps ps' : List (String × Option NodeId)} {entry : String × Option NodeId}

theorem Explores.nothing (h : ∀ x, start x → x ∈ met) : s.Explores start met [] :=
  ⟨h, .inl rfl, nofun⟩

theorem Explores.trans (h : s.Explores start met ids) (h' : s.Explores start' (ids ++ met) ids') :
    s.Explores (fun x => start x ∨ start' x) met (ids' ++ ids) where
  reached x hx := by
    rw [List.append_assoc]
    rcases hx with hx | hx
    · exact List.mem_append_right ids' (h.reached x hx)
    · exact h'.reached x hx
  first := by
    rcases h.first with rfl | ⟨rest, y, hy, rfl⟩
    · rcases h'.first with rfl | ⟨rest, y, hy, rfl⟩
      · exact .inl rfl
      · exact .inr ⟨rest, y, .inr hy, by simp⟩
    · exact .inr ⟨ids' ++ rest, y, .inl hy, by simp⟩
  new x hx := by
    rcases List.mem_append.mp hx with hx | hx
    · obtain ⟨y, hy, hnew, hpath⟩ := h'.new x hx
      have hsub := List.subset_append_right ids met
      exact ⟨y, .inr hy, fun hm => hnew (hsub hm), hpath.mono hsub⟩
    · obtain ⟨y, hy, hnew, hpath⟩ := h.new x hx
      exact ⟨y, .inl hy, hnew, hpath⟩

/-- A new object is met before those to which it refers. -/
theorem Explores.opened (h : s.Explores (s.RefersToObject o) (o :: met) ids) (hnew : o ∉ met) :
    s.Explores (· = o) met (ids ++ [o]) where
  reached x hx := by simp [hx]
  first := .inr ⟨ids, o, rfl, rfl⟩
  new x hx := by
    refine ⟨o, rfl, hnew, ?_⟩
    rcases List.mem_append.mp hx with hx | hx
    · obtain ⟨y, hy, hy', hpath⟩ := h.new x hx
      have hsub := List.subset_cons_self o met
      exact .head ⟨hy, fun hm => hy' (hsub hm)⟩ (hpath.mono hsub)
    · rw [List.mem_singleton.mp hx]
      exact .refl

/-- The objects that are met when properties are described one after the other. -/
inductive Visits (s : Schema) :
    List (String × Option NodeId) → List NodeId → List NodeId → Prop
  | nil {met : List NodeId} : Visits s [] met met
  | cons {entry : String × Option NodeId} {ps : List (String × Option NodeId)}
      {met ids met' : List NodeId} (h : s.Explores (s.LeadsToObject entry.2) met ids)
      (hps : Visits s ps (ids ++ met) met') : Visits s (entry :: ps) met met'

theorem Visits.explores (h : s.Visits ps met met') : ∃ ids, met' = ids ++ met ∧
    s.Explores (fun x => ∃ entry ∈ ps, s.LeadsToObject entry.2 x) met ids := by
  induction h with
  | nil => exact ⟨[], rfl, .nothing (by simp)⟩
  | cons h _ ih =>
    obtain ⟨ids', rfl, h'⟩ := ih
    refine ⟨_, (List.append_assoc ..).symm, ?_⟩
    simpa using h.trans h'

theorem Visits.split (h : s.Visits (ps ++ ps') met met') :
    ∃ met₁, s.Visits ps met met₁ ∧ s.Visits ps' met₁ met' := by
  induction ps generalizing met with
  | nil => exact ⟨met, .nil, h⟩
  | cons entry ps ih =>
    cases h with
    | cons h hps =>
      obtain ⟨met₁, hfirst, hrest⟩ := ih hps
      exact ⟨met₁, .cons h hfirst, hrest⟩

/-- A property at which an object is first met. -/
theorem Visits.exists_first (h : s.Visits ps met met') (hx : x ∈ met') (hnew : x ∉ met) :
    ∃ before entry after met₁ ids, ps = before ++ entry :: after ∧ s.Visits before met met₁ ∧
      s.Explores (s.LeadsToObject entry.2) met₁ ids ∧ s.Visits after (ids ++ met₁) met' ∧
      x ∈ ids := by
  induction h with
  | nil => exact absurd hx hnew
  | @cons entry ps met ids met' h hps ih =>
    by_cases hids : x ∈ ids
    · exact ⟨[], entry, ps, met, ids, rfl, .nil, h, hps, hids⟩
    · obtain ⟨before, e, after, met₁, ids', rfl, hbefore, he, hafter, hx'⟩ :=
        ih hx (by simp [hids, hnew])
      exact ⟨entry :: before, e, after, met₁, ids', rfl, .cons h hbefore, he, hafter, hx'⟩

theorem Visits.suffix (h : s.Visits ps met met') : met <:+ met' := by
  obtain ⟨ids, rfl, -⟩ := h.explores
  exact List.suffix_append ids met

theorem Visits.reached (h : s.Visits ps met met') (he : entry ∈ ps)
    (hx : s.LeadsToObject entry.2 x) : x ∈ met' := by
  obtain ⟨ids, rfl, hexplores⟩ := h.explores
  exact hexplores.reached x ⟨entry, he, hx⟩

/-! ## The order of the types -/

/-- Objects in the order in which they were met, but the root at the end. -/
def order (s : Schema) (met : List NodeId) : List NodeId :=
  met.reverse.filter (· ≠ s.root) ++ [s.root]

/-- Every object stands behind those to which it refers. -/
def NestedIn (s : Schema) (ids : List NodeId) : Prop :=
  ∀ o ∈ ids, ∀ u, s.RefersToObject o u → ids.idxOf u < ids.idxOf o

theorem idxOf_lt {xs ys : List NodeId} (hx : x ∈ xs) (hy : y ∉ xs) :
    (xs ++ ys).idxOf x < (xs ++ ys).idxOf y := by
  rw [List.idxOf_append_of_mem hx, List.idxOf_append_of_notMem hy]
  have := List.idxOf_lt_length_iff.mpr hx
  omega

theorem idxOf_lt_iff {xs ys : List NodeId} (hn : (xs ++ x :: ys).Nodup) :
    (xs ++ x :: ys).idxOf y < (xs ++ x :: ys).idxOf x ↔ y ∈ xs := by
  have hx : x ∉ xs := fun hx => List.disjoint_of_nodup_append hn hx List.mem_cons_self
  constructor
  · intro hlt
    by_contra hy
    rw [List.idxOf_append_of_notMem hx, List.idxOf_append_of_notMem hy, List.idxOf_cons_self] at hlt
    omega
  · intro hy
    exact idxOf_lt hy hx

/-- What is met earlier stands in front, if it is not the root. -/
theorem idxOf_order_lt (h : met <:+ met') (hx : x ∈ met) (hy : y ∉ met) (hroot : x ≠ s.root) :
    (s.order met').idxOf x < (s.order met').idxOf y := by
  obtain ⟨ids, rfl⟩ := h
  rw [order, List.reverse_append, List.filter_append, List.append_assoc]
  exact idxOf_lt (by simp [hx, hroot]) (by simp [hy])

/-- The root stands behind all others. -/
theorem idxOf_order_root (hx : x ∈ met) (hroot : x ≠ s.root) :
    (s.order met).idxOf x < (s.order met).idxOf s.root :=
  idxOf_lt (by simp [hx, hroot]) (by simp)

theorem mem_order (hroot : s.root ∈ met) : x ∈ s.order met ↔ x ∈ met := by
  by_cases hx : x = s.root
  · simp [order, hx, hroot]
  · simp [order, hx]

/-- What stands in front of a list without `e` stands in front of `e`. -/
theorem subset_of_append_eq {α : Type} {xs ys before after : List α} {e : α}
    (h : before ++ e :: after = xs ++ ys) (he : e ∉ xs) : xs ⊆ before := by
  rcases List.append_eq_append_iff.mp h with ⟨between, rfl, hrest⟩ | ⟨between, rfl, -⟩
  · cases between with
    | nil => simp
    | cons e' between =>
      obtain ⟨rfl, -⟩ := List.cons.inj hrest
      simp at he
  · exact List.subset_append_left xs between

/-- Where the root lists every object before those that refer to it, all objects are met through the
properties of the root. -/
theorem ListedFirst.direct (h : s.ListedFirst) {met₁ : List NodeId}
    (hmet : ∀ x ∈ met₁, s.ObjectMet x) (hsplit : s.propertiesOf s.root = ps ++ ps')
    (hv : s.Visits ps [s.root] met₁) (hx : x ∈ met₁) :
    x = s.root ∨ ∃ e ∈ ps, s.LeadsToObject e.2 x := by
  induction ps using List.reverseRecOn generalizing ps' met₁ x with
  | nil =>
    cases hv
    exact .inl (List.mem_singleton.mp hx)
  | append_singleton ps entry ih =>
    obtain ⟨met₂, hfirst, hlast⟩ := hv.split
    rw [List.append_assoc] at hsplit
    obtain ⟨ids, rfl, he⟩ := hlast.explores
    simp only [List.mem_singleton, exists_eq_left] at he
    rcases List.mem_append.mp hx with hx | hx
    · obtain ⟨y, hy, hnew, hpath⟩ := he.new x hx
      rcases hpath.cases_head with rfl | ⟨c, ⟨hrefers, hc⟩, -⟩
      · exact .inr ⟨entry, by simp, hy⟩
      -- whatever the object refers to was listed, and thus met, before
      · exfalso
        have hroot : y ≠ s.root := by
          rintro rfl
          exact hnew (hfirst.suffix.mem (List.mem_singleton.mpr rfl))
        obtain ⟨before, e, after, hE, hlc, hnone⟩ :=
          h.inner y c (hmet y (he.reached y hy)) hroot hrefers
        rw [hE, List.append_cons] at hsplit
        have hsub := subset_of_append_eq hsplit.symm fun hentry => hnone entry hentry hy
        exact hc (hfirst.reached (hsub (by simp)) hlc)
    · refine (ih (fun z hz => hmet z (List.mem_append_right ids hz)) hsplit hfirst hx).imp_right ?_
      rintro ⟨e, he, hl⟩
      exact ⟨e, List.mem_append_left _ he, hl⟩

section
variable (hv : s.Visits (s.propertiesOf s.root) [s.root] met)
  (hmet : ∀ x, x ∈ met ↔ s.ObjectMet x)
include hv hmet

/-- All that is met through the properties of the root was met in time. -/
theorem ListedFirst.nestedIn (h : s.ListedFirst) : s.NestedIn (s.order met) := by
  have hroot : s.root ∈ met := (hmet _).mpr (.inl rfl)
  intro o ho u hrefers
  rw [mem_order hroot, hmet] at ho
  have hu : u ≠ s.root := by
    rintro rfl
    exact h.root o ho hrefers
  by_cases ho' : o = s.root
  · subst ho'
    exact idxOf_order_root ((hmet u).mpr (ho.refersToObject hrefers)) hu
  · obtain ⟨before, entry, after, hE, hlu, hnone⟩ := h.inner o u ho ho' hrefers
    rw [List.append_cons] at hE
    rw [hE] at hv
    obtain ⟨met₁, hfirst, hrest⟩ := hv.split
    have hmet₁ : ∀ x ∈ met₁, s.ObjectMet x := fun x hx => (hmet x).mp (hrest.suffix.mem hx)
    refine idxOf_order_lt hrest.suffix (hfirst.reached (by simp) hlu) (fun ho₁ => ?_) hu
    rcases h.direct hmet₁ hE hfirst ho₁ with rfl | ⟨e, he, hl⟩
    · exact ho' rfl
    · exact hnone e he hl

omit hv in
/-- References lead forwards only. -/
theorem NestedIn.idxOf_le (h : s.NestedIn (s.order met)) {met₁ : List NodeId} (hy : y ∈ met)
    (hpath : s.LeadsAround met₁ y x) :
    x ∈ met ∧ (s.order met).idxOf x ≤ (s.order met).idxOf y := by
  have hroot : s.root ∈ met := (hmet _).mpr (.inl rfl)
  induction hpath with
  | refl => exact ⟨hy, Nat.le_refl _⟩
  | tail _ hac ih =>
    obtain ⟨ha, hle⟩ := ih
    have hlt := h _ ((mem_order hroot).mpr ha) _ hac.1
    exact ⟨(hmet _).mpr (((hmet _).mp ha).refersToObject hac.1), hlt.le.trans hle⟩

omit hv in
/-- Whatever is first met at a property is what it leads to: anything else would stand behind it,
and be referred to from there. -/
theorem NestedIn.leadsToObject (h : s.NestedIn (s.order met)) {met₁ : List NodeId}
    (hn : (ids ++ met₁).Nodup) (hsuffix : ids ++ met₁ <:+ met) (hroot : s.root ∈ met₁)
    (he : s.Explores (s.LeadsToObject place) met₁ ids) (hx : x ∈ ids) :
    s.LeadsToObject place x := by
  have hdisjoint := List.disjoint_of_nodup_append hn
  rcases he.first with rfl | ⟨rest, y, hy, rfl⟩
  · cases hx
  · obtain ⟨y', hy', -, hpath⟩ := he.new x hx
    obtain rfl := hy'.unique hy
    by_cases hxy : x = y'
    · exact hxy ▸ hy
    · exfalso
      have hle := (h.idxOf_le hmet (hsuffix.mem (by simp)) hpath).2
      have hyroot : y' ≠ s.root := by
        rintro rfl
        exact hdisjoint (by simp) hroot
      rw [List.append_assoc] at hsuffix
      have hfirst : y' :: met₁ <:+ met := (List.suffix_append rest (y' :: met₁)).trans hsuffix
      have hbehind : x ∉ y' :: met₁ := by
        rw [List.mem_cons, not_or]
        exact ⟨hxy, fun hx₁ => hdisjoint hx hx₁⟩
      exact Nat.not_lt.mpr hle (idxOf_order_lt hfirst List.mem_cons_self hbehind hyroot)

/-- The property of the root at which an object is first met leads to this object, and no property
before it leads to one that refers to it. -/
theorem NestedIn.listedFirst (hn : met.Nodup) (h : s.NestedIn (s.order met)) : s.ListedFirst := by
  have hroot : s.root ∈ met := (hmet _).mpr (.inl rfl)
  have hlt : ∀ o u, s.ObjectMet o → s.RefersToObject o u →
      (s.order met).idxOf u < (s.order met).idxOf o := fun o u ho hrefers =>
    h o ((mem_order hroot).mpr ((hmet o).mpr ho)) u hrefers
  have hnoroot : ∀ o, s.ObjectMet o → ¬ s.RefersToObject o s.root := by
    intro o ho hrefers
    by_cases ho' : o = s.root
    · subst ho'
      exact Nat.lt_irrefl _ (hlt _ _ ho hrefers)
    · exact Nat.lt_asymm (hlt _ _ ho hrefers) (idxOf_order_root ((hmet o).mpr ho) ho')
  refine ⟨hnoroot, fun o u ho ho' hrefers => ?_⟩
  have hu : u ≠ s.root := by
    rintro rfl
    exact hnoroot o ho hrefers
  obtain ⟨before, entry, after, met₁, ids, hE, hbefore, he, hafter, hids⟩ :=
    hv.exists_first ((hmet u).mpr (ho.refersToObject hrefers)) (by simpa using hu)
  have hn₁ := hn.sublist hafter.suffix.sublist
  have hroot₁ := hbefore.suffix.mem (List.mem_singleton.mpr rfl)
  have hlu := h.leadsToObject hmet hn₁ hafter.suffix hroot₁ he hids
  refine ⟨before, entry, after, hE, hlu, fun e he' hlo => ?_⟩
  rcases List.mem_append.mp he' with he' | he'
  · have hsuffix := (List.suffix_append ids met₁).trans hafter.suffix
    have hu₁ : u ∉ met₁ := fun hu₁ => List.disjoint_of_nodup_append hn₁ hids hu₁
    exact Nat.lt_asymm (hlt o u ho hrefers)
      (idxOf_order_lt hsuffix (hbefore.reached he' hlo) hu₁ ho')
  · obtain rfl := List.mem_singleton.mp he'
    obtain rfl := hlu.unique hlo
    exact Nat.lt_irrefl _ (hlt u u ho hrefers)

end

end Schema

namespace Building

variable {s : Schema} {settings : Settings} {object : NodeId → String → Action String}
  {b b' : Building}

/-- The building of an object meets it first, if it is new. -/
def ObjectExplores (s : Schema) (object : NodeId → String → Action String) : Prop :=
  ∀ id hint name (b b' : Building), object id hint b = .ok (name, b') →
    ∃ ids, b'.met = ids ++ b.met ∧ s.Explores (· = id) b.met ids

/-- Resolving a property meets the object to which its items lead. -/
theorem resolve_explores (hobj : ObjectExplores s object) {place : Option NodeId} {hint : String}
    {t : TargetType} (hr : resolve s settings object place hint b = .ok (t, b')) :
    ∃ ids, b'.met = ids ++ b.met ∧ s.Explores (s.LeadsToObject place) b.met ids := by
  obtain ⟨o, ho, hr⟩ := resolve_ok hr
  -- a place that leads to an object has it at the end of its outline
  have hnothing : (∀ x, o.leaf ≠ .object x) → s.Explores (s.LeadsToObject place) b.met [] :=
    fun hleaf => .nothing fun x ⟨hl, n, hn, hk⟩ =>
      absurd ((Schema.leaf_of_leads ho hl hn).2.1 hk) (hleaf x)
  cases hl : o.leaf with
  | type u =>
    rw [hl] at hr
    obtain ⟨-, rfl⟩ := hr
    exact ⟨[], rfl, hnothing (by simp [hl])⟩
  | unrecognized kind =>
    rw [hl] at hr
    obtain ⟨-, rfl⟩ := hr
    exact ⟨[], rfl, hnothing (by simp [hl])⟩
  | choices id literals =>
    rw [hl] at hr
    obtain ⟨u, r, -, -, rfl⟩ := hr
    exact ⟨[], rfl, hnothing (by simp [hl])⟩
  | object id =>
    have hat := Schema.leafAt_of_outlineFrom ho
    rw [hl] at hr hat
    obtain ⟨name, -, hname⟩ := hr
    obtain ⟨ids, hmet, hids⟩ := hobj id hint name b b' hname
    have hstart : s.LeadsToObject place = (· = id) := by
      funext x
      exact propext ⟨fun hx => hx.unique hat, fun hx => hx ▸ hat⟩
    exact ⟨ids, hmet, hstart ▸ hids⟩

/-- Describing properties meets one object after the other. -/
theorem properties_visits (hobj : ObjectExplores s object) {fields : Naming.FieldTable}
    {ps : List (String × Option NodeId)} {out : List Property}
    (hr : properties s settings object fields ps b = .ok (out, b')) :
    s.Visits ps b.met b'.met := by
  induction ps generalizing fields b out with
  | nil =>
    obtain ⟨-, rfl⟩ := Stateful.pure_eq_ok.mp hr
    exact .nil
  | cons entry ps ih =>
    obtain ⟨name, place⟩ := entry
    obtain ⟨p, rest, fields', b₁, -, -, htype, -, -, -, -, hrest⟩ := properties_cons_ok hr
    obtain ⟨ids, hmet, hids⟩ := resolve_explores hobj htype
    exact .cons hids (hmet ▸ ih hrest)

theorem object_explores (fuel : Nat) : ObjectExplores s (Building.object s settings fuel) := by
  induction fuel with
  | zero =>
    intro id hint name b b' hr
    cases hr
  | succ fuel ih =>
    intro id hint name b b' hr
    obtain ⟨hknown, rfl⟩ | ⟨hnew, -, out, b₁, hps, rfl⟩ := object_ok hr
    · refine ⟨[], rfl, .nothing ?_⟩
      rintro x rfl
      exact List.mem_map_of_mem (Tables.mem_of_lookup hknown)
    · obtain ⟨ids, hmet, hids⟩ := (properties_visits ih hps).explores
      refine ⟨ids ++ [id], ?_, hids.opened (Tables.lookup_eq_none_iff.mp hnew)⟩
      rw [met_describe, hmet, met_opened, List.append_assoc]
      rfl

theorem Inv.finish_order (h : b.Inv s settings []) {root : String}
    (hroot : (s.root, root) ∈ b.references) :
    (b.finish root).types.map (·.name) = (s.order b.met).map b.refOf := by
  have hnames : b.references.map (·.2) = b.met.map b.refOf := by
    rw [Building.met, List.map_map]
    exact List.map_congr_left fun e he => (h.refOf_eq he).symm
  have hothers : ∀ x ∈ b.met.reverse, (b.refOf x = root ↔ x = s.root) := by
    intro x hx
    obtain ⟨⟨_, name⟩, he, rfl⟩ := List.mem_map.mp (List.mem_reverse.mp hx)
    rw [h.refOf_eq he]
    constructor
    · rintro rfl
      exact h.id_eq_of_name he hroot
    · rintro rfl
      exact h.name_eq_of_id he hroot
  rw [h.finish_names hroot, hnames, ← List.map_reverse, List.filter_map, Schema.order,
    List.map_append, List.map_singleton, h.refOf_eq hroot]
  congr 2
  refine List.filter_congr fun x hx => ?_
  simp [hothers x hx]

/-- What has been met in the end is what there is to meet. -/
theorem Inv.mem_met (h : b.Inv s settings []) {root : String}
    (hroot : (s.root, root) ∈ b.references) {id : NodeId} : id ∈ b.met ↔ s.ObjectMet id := by
  constructor
  · intro hid
    obtain ⟨⟨_, name⟩, hm, rfl⟩ := List.mem_map.mp hid
    exact h.met _ name hm
  · intro hid
    obtain ⟨name, hm⟩ := h.named_of_objectMet hroot hid
    exact List.mem_map_of_mem hm

end Building

namespace Generation

variable {s : Schema} {settings : Settings} {name : String} {g : Generation}

/-- The names to which the properties of a type refer are those of the objects to which its object
refers. -/
theorem Represents.referred {ref enm : NodeId → String} (h : g.Represents s settings ref enm)
    {o : NodeId} (ho : s.ObjectMet o) {t : GeneratedType} (ht : t ∈ g.types)
    (hname : t.name = ref o) {name : String} : (∃ p ∈ t.properties, p.type.referred? = some name) ↔
      ∃ u, s.RefersToObject o u ∧ ref u = name := by
  obtain ⟨t', ht', -, hall⟩ := h.described o ho
  rw [← hname, type?, Tables.find?_of_mem h.typesOnce ht] at ht'
  cases ht'
  constructor
  · rintro ⟨p, hp, hreferred⟩
    obtain ⟨entry, he, hd⟩ := exists_of_forall₂ hall.flip hp
    obtain ⟨u, hu, hname⟩ := hd.type.referred?_eq_some.mp hreferred
    exact ⟨u, ⟨entry, he, hu⟩, hname⟩
  · rintro ⟨u, ⟨entry, he, hu⟩, hname⟩
    obtain ⟨p, hp, hd⟩ := exists_of_forall₂ hall he
    exact ⟨p, hp, hd.type.referred?_eq_some.mpr ⟨u, hu, hname⟩⟩

/-- Types whose names are those of objects in some order are nested as these are. -/
theorem Represents.nestedFirst_iff_nestedIn {ref enm : NodeId → String}
    (h : g.Represents s settings ref enm) {ids : List NodeId}
    (hnames : g.types.map (·.name) = ids.map ref) (hmet : ∀ o ∈ ids, s.ObjectMet o) :
    g.NestedFirst ↔ s.NestedIn ids := by
  have hn : ids.Nodup := .of_map ref (hnames ▸ h.typesOnce)
  constructor
  · intro hnested o ho u hrefers
    obtain ⟨before, after, rfl⟩ := List.append_of_mem ho
    have hmeto := hmet o ho
    rw [List.map_append, List.map_cons] at hnames
    obtain ⟨front, rest, htypes, hfront, hrest⟩ := List.map_eq_append_iff.mp hnames
    obtain ⟨t, behind, rfl, hname, -⟩ := List.map_eq_cons_iff.mp hrest
    obtain ⟨p, hp, hreferred⟩ :=
      (h.referred hmeto (htypes ▸ by simp) hname).mpr ⟨u, hrefers, rfl⟩
    have hu := hnested front t behind htypes p hp _ hreferred
    rw [hfront] at hu
    obtain ⟨u', hu', heq⟩ := List.mem_map.mp hu
    have hmetu := hmet u' (List.mem_append_left _ hu')
    obtain rfl := h.types.injOn hmetu (hmeto.refersToObject hrefers) heq
    exact (Schema.idxOf_lt_iff hn).mpr hu'
  · intro hnested front t behind htypes p hp name hreferred
    rw [htypes, List.map_append, List.map_cons] at hnames
    obtain ⟨before, rest, rfl, hbefore, hrest⟩ := List.map_eq_append_iff.mp hnames.symm
    obtain ⟨o, after, rfl, hname, -⟩ := List.map_eq_cons_iff.mp hrest
    obtain ⟨u, hrefers, rfl⟩ :=
      (h.referred (hmet o (by simp)) (htypes ▸ by simp) hname.symm).mp ⟨p, hp, hreferred⟩
    have hu := (Schema.idxOf_lt_iff hn).mp (hnested o (by simp) u hrefers)
    rw [← hbefore]
    exact List.mem_map_of_mem hu

/-- The types of a generation stand in the order in which their objects were met, the root at the
end. So every type stands behind those that its properties refer to exactly if the root lists every
object before those that refer to it, and no object refers to the root. The classes of a module are
defined in the order of their types. -/
theorem nestedFirst_iff (h : ofSchema s settings name = .ok g) :
    g.types.getLast? = some g.root ∧ (g.NestedFirst ↔ s.ListedFirst) ∧
      ∀ text, Emission.moduleText g = .ok text →
        Emission.Defines text (g.enums.map (·.name) ++ g.types.map (·.name)) := by
  obtain ⟨b, hb, rfl⟩ := exists_built h
  obtain ⟨hinv, -, hroot⟩ := Building.object_keeps _ [] _ _ _ _ b .empty (.inl rfl) hb
  have hrep := hinv.represents hroot
  refine ⟨hrep.rootLast, ?_, fun text htext => Emission.defines_moduleText htext⟩
  have hmet : ∀ id, id ∈ b.met ↔ s.ObjectMet id := fun _ => hinv.mem_met hroot
  have hmem := fun id hid => (hmet id).mp ((Schema.mem_order ((hmet s.root).mpr (.inl rfl))).mp hid)
  rw [hrep.nestedFirst_iff_nestedIn (hinv.finish_order hroot) hmem]
  -- the run of the root is one of its properties, with nothing but the root met before
  obtain ⟨hknown, -⟩ | ⟨-, -, out, b₁, hps, rfl⟩ := Building.object_ok hb
  · cases hknown
  · have hvisits : s.Visits (s.propertiesOf s.root) [s.root] b₁.met :=
      Building.properties_visits (Building.object_explores _) hps
    exact ⟨Schema.NestedIn.listedFirst hvisits hmet hinv.once,
      Schema.ListedFirst.nestedIn hvisits hmet⟩

/-- A house with a garage, and what is listed before it. -/
def estate (listed : List (String × Option NodeId)) : Schema :=
  { nodes := #[
      { properties := some (listed ++ [("house", some 1)]) },
      { kind := .text "object", properties := some [("garage", some 2)] },
      { kind := .text "object" }]
    root := 0 }

theorem nestedFirst_estate : ∃ g, ofSchema (estate [("garage", some 2)]) {} "estate" = .ok g ∧
    g.types.map (·.name) = ["Garage", "House", "Estate"] ∧
    g.types.getLast? = some g.root ∧
      (g.NestedFirst ↔ (estate [("garage", some 2)]).ListedFirst) ∧
      ∀ text, Emission.moduleText g = .ok text →
        Emission.Defines text (g.enums.map (·.name) ++ g.types.map (·.name)) := by
  obtain ⟨g, hg, hnames, -⟩ := exists_of_names (estate [("garage", some 2)]) {} "estate"
    ["Garage", "House", "Estate"] [] (by decide +kernel)
  exact ⟨g, hg, hnames, nestedFirst_iff hg⟩

/-- A garage that only the house refers to comes behind the house. -/
theorem not_nestedFirst_estate : ¬ ∀ (s : Schema) (settings : Settings) (name : String)
    (g : Generation), (∀ o, ¬ Relation.TransGen s.RefersToObject o o) →
    ofSchema s settings name = .ok g → g.NestedFirst := by
  intro h
  have hend : ∀ o, ¬ Relation.TransGen (estate []).RefersToObject o o := by
    have hlower : ∀ a < 3, ∀ e ∈ (estate []).propertiesOf a, ∀ c ∈ e.2, a < c ∧ c < 3 := by decide
    have hitems : ∀ a < 3, ((estate []).node? a).bind (·.items) = none := by decide
    refine not_transGen_of_rank (3 - ·) fun a c ⟨⟨_, place⟩, he, hl, _⟩ => ?_
    have ha : a < 3 := by
      by_contra ha
      rw [Schema.propertiesOf, Schema.node?, Array.getElem?_eq_none (Nat.not_lt.mp ha)] at he
      simp [SchemaNode.propertyList] at he
    cases hl with
    | self =>
      obtain ⟨hlt, hc⟩ := hlower a ha _ he c rfl
      exact Nat.sub_lt_sub_left (hlt.trans hc) hlt
    | @items x n _ hn _ hl =>
      have hx := hlower a ha _ he x rfl
      have hnone := hitems x hx.2
      rw [hn, Option.bind_some] at hnone
      rw [hnone] at hl
      cases hl
  obtain ⟨g, hg, htypes⟩ := exists_of_run (estate []) {} "estate"
    (fun g => g.types.map fun t => (t.name, t.properties.map (·.type)))
    [("House", [.reference "Garage"]), ("Garage", []), ("Estate", [.reference "House"])]
    (by decide +kernel)
  obtain ⟨house, others, htypes, hhouse, -⟩ := List.map_eq_cons_iff.mp htypes
  have hproperties : house.properties.map (·.type) = [.reference "Garage"] :=
    congrArg Prod.snd hhouse
  obtain ⟨p, hp, htype⟩ : ∃ p ∈ house.properties, p.type = .reference "Garage" := by
    rw [← List.mem_map, hproperties]
    exact List.mem_singleton.mpr rfl
  have hname := h _ _ _ g hend hg [] house others htypes p hp "Garage" (by rw [htype]; rfl)
  exact absurd hname List.not_mem_nil

end Generation
end SchemaModel
