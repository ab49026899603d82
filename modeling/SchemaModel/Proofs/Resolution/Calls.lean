import Mathlib.Data.List.Induction
import SchemaModel.Proofs.Naming.Lawful
import SchemaModel.Proofs.Resolution.Actions
import SchemaModel.Proofs.Resolution.ItemChains

/-!
Resolvers on their own, asked for one type after the other. Whatever they were asked before, and
whether or not there was an answer, one call takes one of a few courses (`step_call`). The
enumerated types that a resolver keeps are those that it returned (`mem_enumOf_after`), and names
that it returned belong to the nodes for which it returned them (`owner?_of_given`).
-/
namespace SchemaModel

namespace TargetType

/-- A type without the name that it was given. -/
def nameless : TargetType → TargetType
  | .enum t => .enum { t with name := "" }
  | .reference _ => .reference ""
  | .list t => .list t.nameless
  | .set t => .set t.nameless
  | t => t

/-- The name that a type was given. -/
def givenName? : TargetType → Option String
  | .enum t => some t.name
  | .reference name => some name
  | .list t => t.givenName?
  | .set t => t.givenName?
  | _ => none

@[simp] theorem nameless_wrap (arrays : List Bool) (t : TargetType) :
    (wrap arrays t).nameless = wrap arrays t.nameless := by
  induction arrays with
  | nil => rfl
  | cons unique arrays ih => cases unique <;> simp [wrap, nameless] <;> exact ih

@[simp] theorem givenName?_wrap (arrays : List Bool) (t : TargetType) :
    (wrap arrays t).givenName? = t.givenName? := by
  induction arrays with
  | nil => rfl
  | cons unique arrays ih => cases unique <;> simp [wrap, givenName?] <;> exact ih

theorem wrap_inj {arrays : List Bool} {t t' : TargetType} (h : wrap arrays t = wrap arrays t') :
    t = t' := by
  induction arrays with
  | nil => exact h
  | cons unique arrays ih =>
    cases unique with
    | false => exact ih (TargetType.list.inj h)
    | true => exact ih (TargetType.set.inj h)

end TargetType

/-- Only choices and objects are given names. -/
theorem SchemaNode.givenName?_of_form {settings : Settings} {n : SchemaNode} {t : TargetType}
    (h : n.form settings = .type t) : t.givenName? = none := by
  unfold form at h
  split at h
  · cases h
  · split at h
    · cases h
      rfl
    · unfold formOfKind at h
      repeat' split at h
      all_goals cases h
      all_goals rfl

theorem SchemaNode.form_eq_choices {settings : Settings} {n : SchemaNode} {literals : List Literal}
    (h : n.form settings = .choices literals) : literals ≠ [] ∧ n.enum = some literals := by
  rcases n.decides with ⟨l, ls, hc⟩ | ⟨hc, hm⟩ | hk
  · rw [form_of_choices settings hc] at h
    cases h
    exact ⟨List.cons_ne_nil l ls, hc⟩
  · rw [form_of_millis settings hc hm] at h
    cases h
  · rw [form_of_kindDecides settings hk] at h
    exact absurd h n.formOfKind_ne_choices

namespace Schema

variable {s : Schema} {settings : Settings} {place last : Option NodeId} {arrays : List Bool}
  {leaf : Leaf}

/-- The last place of the items says what the whole place says. -/
theorem exists_last (h : s.outline? settings place = some ⟨arrays, leaf⟩) :
    ∃ last, s.Through place arrays last ∧ s.outlineFrom settings 1 last = some ⟨[], leaf⟩ :=
  through_of_outlineFrom h

theorem outline?_of_through (hp : s.Through place arrays last)
    (hl : s.outlineFrom settings 1 last = some ⟨[], leaf⟩) :
    s.outline? settings place = some ⟨arrays, leaf⟩ := by
  obtain ⟨⟨arrays', leaf'⟩, ho⟩ := outline?_isSome hp.itemsEndFrom settings
  obtain ⟨last', hp', hl'⟩ := exists_last ho
  obtain ⟨rfl, rfl⟩ := hp.unique hp'
  rw [hl] at hl'
  cases hl'
  exact ho

/-- A node declares choices. -/
def ChoicesAt (s : Schema) (id : NodeId) (literals : List Literal) : Prop :=
  literals ≠ [] ∧ ∃ n, s.node? id = some n ∧ n.enum = some literals

/-- What the last place of the items is for its leaf. -/
def LastOf (s : Schema) (last : Option NodeId) : Leaf → Prop
  | .type t => t.givenName? = none
  | .choices id literals => last = some id ∧ s.ChoicesAt id literals
  | .object id => last = some id
  | .unrecognized _ => True

theorem lastOf (h : s.outlineFrom settings 1 last = some ⟨[], leaf⟩) : s.LastOf last leaf := by
  cases last with
  | none =>
    cases h
    rfl
  | some id =>
    cases hn : s.node? id with
    | none =>
      rw [outlineFrom, hn] at h
      cases h
      rfl
    | some n =>
      rw [outlineFrom, hn] at h
      cases hf : n.form settings with
      | type t =>
        simp only [hf] at h
        cases h
        exact SchemaNode.givenName?_of_form hf
      | choices literals =>
        simp only [hf] at h
        cases h
        obtain ⟨hne, hc⟩ := SchemaNode.form_eq_choices hf
        exact ⟨rfl, hne, n, hn, hc⟩
      | object =>
        simp only [hf] at h
        cases h
        rfl
      | unrecognized =>
        simp only [hf] at h
        cases h
        trivial
      | array unique items =>
        simp only [hf] at h
        obtain ⟨p, -, hp⟩ := Option.map_eq_some_iff.mp h
        cases hp

/-- An unknown kind is that of the node at the end. -/
theorem exists_unrecognized {kind : Value}
    (h : s.outlineFrom settings 1 last = some ⟨[], .unrecognized kind⟩) :
    ∃ id n, last = some id ∧ s.node? id = some n ∧ n.KindDecides none ∧ n.kind = kind := by
  obtain ⟨-, ⟨⟩⟩ | ⟨m, id, n, -, rfl, hn, hcases⟩ := outlineFrom_cases h
  obtain ⟨l, ls, -, ⟨⟩⟩ | ⟨t, ⟨⟩, -⟩ | ⟨-, ⟨⟩⟩ | ⟨hk, ⟨⟩⟩ | ⟨-, p, -, ⟨⟩⟩ := hcases
  exact ⟨id, n, rfl, hn, hk, rfl⟩

theorem outline?_eq_choices_iff {id : NodeId} {literals : List Literal} :
    s.outline? settings place = some ⟨arrays, .choices id literals⟩ ↔
      s.Through place arrays (some id) ∧ s.ChoicesAt id literals := by
  constructor
  · intro ho
    obtain ⟨last, hp, hl⟩ := exists_last ho
    obtain ⟨rfl, hc⟩ := lastOf hl
    exact ⟨hp, hc⟩
  · rintro ⟨hp, hne, n, hn, hc⟩
    obtain ⟨l, ls, rfl⟩ := List.exists_cons_of_ne_nil hne
    exact outline?_of_through hp (outlineFrom_of_choices hn hc)

theorem outline?_of_choices (settings : Settings) {id : NodeId} {literals : List Literal}
    (hp : s.Through place arrays (some id)) (hc : s.ChoicesAt id literals) :
    s.outline? settings place = some ⟨arrays, .choices id literals⟩ :=
  outline?_eq_choices_iff.mpr ⟨hp, hc⟩

theorem through_of_object {id : NodeId}
    (ho : s.outline? settings place = some ⟨arrays, .object id⟩) :
    s.Through place arrays (some id) := by
  obtain ⟨last, hp, hl⟩ := exists_last ho
  obtain rfl := lastOf hl
  exact hp

theorem givenName?_of_type {t : TargetType}
    (ho : s.outline? settings place = some ⟨arrays, .type t⟩) : t.givenName? = none := by
  obtain ⟨last, -, hl⟩ := exists_last ho
  exact lastOf hl

end Schema

namespace Resolver

/-! ## One call -/

/-- What a resolver is asked: the type of a place, under a hint. -/
structure Call where
  place : Option NodeId
  hint : String

/-- What a resolver answers to a call, and the resolver after it. -/
def call (s : Schema) (settings : Settings) (r : Resolver) (c : Call) :
    Except ResolveError TargetType × Resolver :=
  (resolve s settings c.place c.hint).run.run r

/-- The courses that a call can take, by what its place says. -/
inductive Step (s : Schema) (settings : Settings) (r : Resolver) (c : Call) :
    Except ResolveError TargetType → Resolver → Prop
  | endless (ho : s.outline? settings c.place = none) :
      Step s settings r c (.error .endlessItems) r
  | type {arrays t} (ho : s.outline? settings c.place = some ⟨arrays, .type t⟩) :
      Step s settings r c (.ok (wrap arrays t)) r
  | unrecognized {arrays kind}
      (ho : s.outline? settings c.place = some ⟨arrays, .unrecognized kind⟩)
      (hshort : kind.hasLong = false) :
      Step s settings r c (.ok (wrap arrays (.scalar .string)))
        (r.warned (unrecognizedWarning kind c.hint))
  /-- An unknown kind that no warning can show. -/
  | unshown {arrays kind}
      (ho : s.outline? settings c.place = some ⟨arrays, .unrecognized kind⟩)
      (hlong : kind.hasLong = true) : Step s settings r c (.error .digits) r
  | object {arrays id} (ho : s.outline? settings c.place = some ⟨arrays, .object id⟩) :
      Step s settings r c
        (.ok (wrap arrays (.reference (r.names.allocate (Naming.className c.hint) id).1)))
        (r.allocated (Naming.className c.hint) id)
  /-- A node with choices that was met before. -/
  | known {arrays id literals t}
      (ho : s.outline? settings c.place = some ⟨arrays, .choices id literals⟩)
      (hl : r.enumOf.lookup id = some t) : Step s settings r c (.ok (wrap arrays (.enum t))) r
  | new {arrays id literals t}
      (ho : s.outline? settings c.place = some ⟨arrays, .choices id literals⟩)
      (hl : r.enumOf.lookup id = none)
      (ht : Enumeration.type (r.names.allocate (Naming.className c.hint "Enum") id).1 literals =
        .ok t) :
      Step s settings r c (.ok (wrap arrays (.enum t)))
        (r.enumerated (Naming.className c.hint "Enum") id t)
  /-- The name of choices that have no type stays with their node. -/
  | refused {arrays id literals e}
      (ho : s.outline? settings c.place = some ⟨arrays, .choices id literals⟩)
      (hl : r.enumOf.lookup id = none)
      (ht : Enumeration.type (r.names.allocate (Naming.className c.hint "Enum") id).1 literals =
        .error e) :
      Step s settings r c (.error (.ofEnumeration e))
        (r.allocated (Naming.className c.hint "Enum") id)

variable {s : Schema} {settings : Settings}

theorem step_call (r : Resolver) (c : Call) :
    Step s settings r c (r.call s settings c).1 (r.call s settings c).2 := by
  have houtline := r.run_outline s settings c.place
  unfold call resolve
  cases ho : s.outline? settings c.place with
  | none =>
    rw [ho] at houtline
    rw [Recorded.run_bind_of_error houtline]
    exact .endless ho
  | some o =>
    rw [ho] at houtline
    rw [Recorded.run_bind_of_ok houtline]
    obtain ⟨arrays, leaf⟩ := o
    cases leaf with
    | type t => exact .type ho
    | unrecognized kind =>
      have hrun := Recorded.run_bind_pure (warn kind c.hint)
        (fun _ => SchemaModel.Resolved.type (.scalar .string)) r
      rw [run_warn] at hrun
      simp only [leaf]
      cases hlong : kind.hasLong with
      | true =>
        simp only [hlong] at hrun
        rw [Recorded.run_bind_of_error hrun]
        exact .unshown ho hlong
      | false =>
        simp only [hlong] at hrun
        rw [Recorded.run_bind_of_ok hrun]
        exact .unrecognized ho hlong
    | object id => exact .object ho
    | choices id literals =>
      have hrun := Recorded.run_bind_pure (enumType id literals c.hint)
        (fun t => SchemaModel.Resolved.type (.enum t)) r
      simp only [leaf]
      rw [run_enumType] at hrun
      cases hl : r.enumOf.lookup id with
      | some t =>
        simp only [hl] at hrun
        rw [Recorded.run_bind_of_ok hrun]
        exact .known ho hl
      | none =>
        simp only [hl] at hrun
        cases ht : Enumeration.type (r.names.allocate (Naming.className c.hint "Enum") id).1
            literals with
        | ok t =>
          simp only [ht] at hrun
          rw [Recorded.run_bind_of_ok hrun]
          exact .new ho hl ht
        | error e =>
          simp only [ht] at hrun
          rw [Recorded.run_bind_of_error hrun]
          exact .refused ho hl ht

/-- A call takes one course only. -/
theorem Step.unique {r r' r'' : Resolver} {c : Call} {res res' : Except ResolveError TargetType}
    (h : Step s settings r c res r') (h' : Step s settings r c res' r'') :
    res' = res ∧ r'' = r' := by
  cases h with
  | endless ho => cases h' <;> simp_all
  | type ho => cases h' <;> simp_all
  | unrecognized ho => cases h' <;> simp_all
  | unshown ho => cases h' <;> simp_all
  | object ho => cases h' <;> simp_all
  | known ho hl => cases h' <;> simp_all
  | new ho hl ht => cases h' <;> simp_all [-List.lookup_eq_none_iff]
  | refused ho hl ht => cases h' <;> simp_all [-List.lookup_eq_none_iff]

theorem Sound.step {r r' : Resolver} {c : Call} {res : Except ResolveError TargetType}
    (h : r.Sound s) (hs : Step s settings r c res r') : r'.Sound s := by
  cases hs with
  | endless _ | type _ | known _ _ | unshown _ _ => exact h
  | unrecognized _ _ => exact h.warned _
  | object _ | refused _ _ _ => exact h.allocated _ _
  | new ho hl ht =>
    obtain ⟨-, hne, n, hn, hc⟩ := Schema.outline?_eq_choices_iff.mp ho
    obtain ⟨l, ls, rfl⟩ := List.exists_cons_of_ne_nil hne
    exact h.enumerated hn hc hl ht

/-- A call adds the enumerated type that it returns, and no other. -/
theorem Step.mem_enumOf {r r' : Resolver} {c : Call} {res : Except ResolveError TargetType}
    (hs : Step s settings r c res r') {id : NodeId} {t : EnumType} :
    (id, t) ∈ r'.enumOf ↔ (id, t) ∈ r.enumOf ∨ ∃ arrays literals,
      s.outline? settings c.place = some ⟨arrays, .choices id literals⟩ ∧
      res = .ok (wrap arrays (.enum t)) := by
  cases hs with
  | endless ho | type ho | unrecognized ho | unshown ho | object ho => simp [ho]
  | refused ho _ _ => simp
  | known ho hl =>
    refine ⟨.inl, ?_⟩
    rintro (hm | ⟨arrays, literals, ho', he⟩)
    · exact hm
    · rw [ho] at ho'
      cases ho'
      cases TargetType.wrap_inj (Except.ok.inj he)
      exact Tables.mem_of_lookup hl
  | new ho hl ht =>
    rw [enumOf_enumerated, List.mem_append, List.mem_singleton]
    refine or_congr_right ?_
    constructor
    · rintro ⟨⟩
      exact ⟨_, _, ho, rfl⟩
    · rintro ⟨arrays, literals, ho', he⟩
      rw [ho] at ho'
      cases ho'
      cases TargetType.wrap_inj (Except.ok.inj he)
      rfl

/-- A node with choices is answered with its enumerated type, which is kept. -/
theorem Step.exists_enum {r r' : Resolver} {c : Call} {arrays : List Bool} {id : NodeId}
    {literals : List Literal} {t : TargetType} (hs : Step s settings r c (.ok t) r')
    (ho : s.outline? settings c.place = some ⟨arrays, .choices id literals⟩) :
    ∃ e, t = wrap arrays (.enum e) ∧ (id, e) ∈ r'.enumOf := by
  cases hs with
  | type ho' | unrecognized ho' | object ho' =>
    rw [ho] at ho'
    cases ho'
  | known ho' hl =>
    rw [ho] at ho'
    cases ho'
    exact ⟨_, rfl, Tables.mem_of_lookup hl⟩
  | new ho' =>
    rw [ho] at ho'
    cases ho'
    exact ⟨_, rfl, List.mem_append_right _ (List.mem_singleton.mpr rfl)⟩

/-- The name of a type that is returned belongs to the node that the items come to. -/
theorem Step.owner? {r r' : Resolver} {c : Call} {t : TargetType} {name : String} {id : NodeId}
    {arrays : List Bool} (hs : Step s settings r c (.ok t) r') (h : r.Sound s)
    (hp : s.Through c.place arrays (some id)) (hname : t.givenName? = some name) :
    r'.names.owner? name = some id := by
  cases hs with
  | type ho => simp [Schema.givenName?_of_type ho] at hname
  | unrecognized ho => simp [TargetType.givenName?] at hname
  | object ho =>
    obtain ⟨-, ⟨⟩⟩ := hp.unique (Schema.through_of_object ho)
    simp only [TargetType.givenName?_wrap, TargetType.givenName?, Option.some.injEq] at hname
    subst hname
    exact Naming.Allocator.owner?_allocate _ _ _
  | known ho hl =>
    obtain ⟨-, ⟨⟩⟩ := hp.unique (Schema.outline?_eq_choices_iff.mp ho).1
    simp only [TargetType.givenName?_wrap, TargetType.givenName?, Option.some.injEq] at hname
    subst hname
    exact h.owned _ _ (Tables.mem_of_lookup hl)
  | new ho hl ht =>
    obtain ⟨-, ⟨⟩⟩ := hp.unique (Schema.outline?_eq_choices_iff.mp ho).1
    simp only [TargetType.givenName?_wrap, TargetType.givenName?, Option.some.injEq] at hname
    subst hname
    rw [Enumeration.name_of_type ht]
    exact Naming.Allocator.owner?_allocate _ _ _

/-- Nothing that was named is forgotten. -/
structure Grows (r r' : Resolver) : Prop where
  names : ∃ asked, r'.names = r.names.run asked
  enumOf : r.enumOf ⊆ r'.enumOf

theorem Grows.refl (r : Resolver) : r.Grows r := ⟨⟨[], rfl⟩, fun _ h => h⟩

theorem Grows.trans {r r' r'' : Resolver} (h : r.Grows r') (h' : r'.Grows r'') : r.Grows r'' := by
  obtain ⟨asked, hnames⟩ := h.names
  obtain ⟨asked', hnames'⟩ := h'.names
  refine ⟨⟨asked ++ asked', ?_⟩, fun _ hm => h'.enumOf (h.enumOf hm)⟩
  rw [hnames', hnames, Naming.Allocator.run, Naming.Allocator.run, Naming.Allocator.run,
    List.foldl_append]

theorem Grows.owner? {r r' : Resolver} (h : r.Grows r') {name : String} {id : NodeId}
    (ho : r.names.owner? name = some id) : r'.names.owner? name = some id := by
  obtain ⟨asked, hnames⟩ := h.names
  rw [hnames]
  exact Naming.Allocator.owner?_run ho asked

theorem Step.grows {r r' : Resolver} {c : Call} {res : Except ResolveError TargetType}
    (hs : Step s settings r c res r') : r.Grows r' := by
  refine ⟨?_, fun _ hm => hs.mem_enumOf.mpr (.inl hm)⟩
  cases hs with
  | endless _ | type _ | known _ _ | unrecognized _ _ | unshown _ _ => exact ⟨[], rfl⟩
  | object _ | refused _ _ _ | new _ _ _ => exact ⟨[(_, _)], rfl⟩

/-! ## Many calls -/

/-- The resolver after a sequence of calls, of which some may have failed. -/
def after (s : Schema) (settings : Settings) (calls : List Call) : Resolver :=
  calls.foldl (fun r c => (r.call s settings c).2) .empty

/-- What is answered to a call after others. -/
def answer (s : Schema) (settings : Settings) (calls : List Call) (c : Call) :
    Except ResolveError TargetType :=
  ((after s settings calls).call s settings c).1

/-- One of the calls came to a node through arrays, and a type was returned. -/
def Returned (s : Schema) (settings : Settings) (calls : List Call) (id : NodeId)
    (arrays : List Bool) (t : TargetType) : Prop :=
  ∃ before c, before ++ [c] <+: calls ∧ s.Through c.place arrays (some id) ∧
    answer s settings before c = .ok t

/-- A name was returned for a node. -/
def Given (s : Schema) (settings : Settings) (calls : List Call) (id : NodeId) (name : String) :
    Prop :=
  ∃ arrays t, Returned s settings calls id arrays t ∧ t.givenName? = some name

variable {calls : List Call}

theorem after_append_singleton (calls : List Call) (c : Call) :
    after s settings (calls ++ [c]) = ((after s settings calls).call s settings c).2 :=
  List.foldl_append

theorem step_after (s : Schema) (settings : Settings) (calls : List Call) (c : Call) :
    Step s settings (after s settings calls) c (answer s settings calls c)
      (after s settings (calls ++ [c])) := by
  rw [after_append_singleton]
  exact step_call _ c

theorem Step.answer {r' : Resolver} {c : Call} {res : Except ResolveError TargetType}
    (h : Step s settings (after s settings calls) c res r') : answer s settings calls c = res :=
  (h.unique (step_call _ c)).1

theorem exists_step {calls : List Call} {c : Call} {res : Except ResolveError TargetType}
    (h : answer s settings calls c = res) :
    ∃ r', Step s settings (after s settings calls) c res r' := by
  subst h
  exact ⟨_, step_call _ c⟩

theorem not_returned_nil {id : NodeId} {arrays : List Bool} {t : TargetType} :
    ¬ Returned s settings [] id arrays t := by
  rintro ⟨before, c, hpre, -⟩
  simp at hpre

theorem returned_append_singleton {c : Call} {id : NodeId} {arrays : List Bool} {t : TargetType} :
    Returned s settings (calls ++ [c]) id arrays t ↔ Returned s settings calls id arrays t ∨
      (s.Through c.place arrays (some id) ∧ answer s settings calls c = .ok t) := by
  constructor
  · rintro ⟨before, c', hpre, hp, ha⟩
    rcases List.prefix_concat_iff.mp hpre with heq | hpre
    · obtain ⟨rfl, hlast⟩ := List.append_inj' heq rfl
      obtain rfl := List.singleton_inj.mp hlast
      exact .inr ⟨hp, ha⟩
    · exact .inl ⟨before, c', hpre, hp, ha⟩
  · rintro (⟨before, c', hpre, hp, ha⟩ | ⟨hp, ha⟩)
    · exact ⟨before, c', hpre.trans (List.prefix_append calls [c]), hp, ha⟩
    · exact ⟨calls, c, List.prefix_rfl, hp, ha⟩

theorem sound_after (calls : List Call) : (after s settings calls).Sound s := by
  induction calls using List.reverseRecOn with
  | nil => exact .empty
  | append_singleton calls c ih => exact ih.step (step_after s settings calls c)

theorem grows_after (s : Schema) (settings : Settings) (calls later : List Call) :
    (after s settings calls).Grows (after s settings (calls ++ later)) := by
  induction later using List.reverseRecOn with
  | nil =>
    rw [List.append_nil]
    exact .refl _
  | append_singleton later c ih =>
    rw [← List.append_assoc]
    exact ih.trans (step_after s settings (calls ++ later) c).grows

/-- The enumerated types that are kept are those that were returned. -/
theorem mem_enumOf_after {id : NodeId} {t : EnumType} :
    (id, t) ∈ (after s settings calls).enumOf ↔ (∃ literals, s.ChoicesAt id literals) ∧
      ∃ arrays, Returned s settings calls id arrays (wrap arrays (.enum t)) := by
  induction calls using List.reverseRecOn with
  | nil => simp [not_returned_nil, after, empty]
  | append_singleton calls c ih =>
    simp only [(step_after s settings calls c).mem_enumOf, ih, returned_append_singleton,
      Schema.outline?_eq_choices_iff]
    constructor
    · rintro (⟨hc, arrays, hr⟩ | ⟨arrays, literals, ⟨hp, hc⟩, ha⟩)
      · exact ⟨hc, arrays, .inl hr⟩
      · exact ⟨⟨literals, hc⟩, arrays, .inr ⟨hp, ha⟩⟩
    · rintro ⟨⟨literals, hc⟩, arrays, hr | ⟨hp, ha⟩⟩
      · exact .inl ⟨⟨literals, hc⟩, arrays, hr⟩
      · exact .inr ⟨arrays, literals, ⟨hp, hc⟩, ha⟩

/-- Names that were returned belong to the nodes for which they were. -/
theorem owner?_of_given {id : NodeId} {name : String} (h : Given s settings calls id name) :
    (after s settings calls).names.owner? name = some id := by
  obtain ⟨arrays, t, hr, hname⟩ := h
  induction calls using List.reverseRecOn with
  | nil => exact absurd hr not_returned_nil
  | append_singleton calls c ih =>
    have hstep := step_after s settings calls c
    rcases returned_append_singleton.mp hr with hr | ⟨hp, ha⟩
    · exact hstep.grows.owner? (ih hr)
    · rw [ha] at hstep
      exact hstep.owner? (sound_after calls) hp hname

end Resolver
end SchemaModel
