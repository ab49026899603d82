import SchemaModel.Proofs.Number.Limit
import SchemaModel.Proofs.Resolution.Calls

/-!
When resolution gives a type. Whatever a resolver was asked before, a place whose items end is
answered with the type that the rules of precedence give for its last place, in one collection for
each array on the way. There is no answer only if the last place holds choices of which two make one
member name, or an integer that is too long to be written (`resolves_of_itemsEnd`).
-/
namespace SchemaModel

/-- Types that the rules of precedence give for one leaf differ by their names only. -/
theorem Schema.LeafType.nameless_eq {ref ref' enm enm' : NodeId → String} {leaf : Leaf}
    {t t' : TargetType} (h : LeafType ref enm leaf t) (h' : LeafType ref' enm' leaf t') :
    t'.nameless = t.nameless := by
  cases leaf with
  | type u =>
    cases h
    cases h'
    rfl
  | choices id literals =>
    obtain ⟨e, he, rfl⟩ := h
    obtain ⟨e', he', rfl⟩ := h'
    simp only [TargetType.nameless, Enumeration.members_eq_of_type he he']
  | object id =>
    cases h
    cases h'
    rfl
  | unrecognized kind =>
    cases h
    cases h'
    rfl

namespace Resolver

variable {s : Schema} {settings : Settings} {place last : Option NodeId} {arrays : List Bool}

/-- A type was returned for a node by one of the calls. -/
def Resolved (s : Schema) (settings : Settings) (calls : List Call) (id : NodeId) : Prop :=
  ∃ arrays t, Returned s settings calls id arrays t

/-- The last place of items holds choices that no call has resolved, all of them can be written, and
two make one member name. -/
def Collides (s : Schema) (settings : Settings) (calls : List Call) (last : Option NodeId) : Prop :=
  ∃ id literals, last = some id ∧ s.ChoicesAt id literals ∧ ¬ Resolved s settings calls id ∧
    literals.any Literal.isLong = false ∧ Enumeration.Clash (Enumeration.texts literals)

/-- The last place of items holds an integer that has too many digits: among choices that no call has
resolved, or in a kind that is not known. -/
inductive Unwritable (s : Schema) (settings : Settings) (calls : List Call) : Option NodeId → Prop
  | choices {id literals} (hc : s.ChoicesAt id literals) (hnew : ¬ Resolved s settings calls id)
      (hlong : literals.any Literal.isLong = true) : Unwritable s settings calls (some id)
  | kind {id n} (hn : s.node? id = some n) (hk : n.KindDecides none)
      (hlong : n.kind.hasLong = true) : Unwritable s settings calls (some id)

/-- A type that is returned is that of the leaf at the end of the items. -/
theorem Step.leafType {r r' : Resolver} {c : Call} {t : TargetType}
    (hs : Step s settings r c (.ok t) r') (h : r.Sound s) : ∃ arrays leaf ref enm u,
      s.outline? settings c.place = some ⟨arrays, leaf⟩ ∧ Schema.LeafType ref enm leaf u ∧
      t = wrap arrays u := by
  cases hs with
  | @type arrays u ho => exact ⟨_, _, fun _ => "", fun _ => "", u, ho, rfl, rfl⟩
  | unrecognized ho => exact ⟨_, _, fun _ => "", fun _ => "", _, ho, rfl, rfl⟩
  | object ho => exact ⟨_, _, fun _ => _, fun _ => "", _, ho, rfl, rfl⟩
  | new ho hl ht => exact ⟨_, _, fun _ => "", fun _ => _, _, ho, ⟨_, ht, rfl⟩, rfl⟩
  | @known arrays id literals e ho hl =>
    -- the type was made of the same choices when the node was met first
    obtain ⟨n, l, ls, hn, hc, ht⟩ := h.type id e (Tables.mem_of_lookup hl)
    obtain ⟨-, -, m, hm, hliterals⟩ := Schema.outline?_eq_choices_iff.mp ho
    rw [hn] at hm
    cases hm
    rw [hc] at hliterals
    cases hliterals
    exact ⟨_, _, fun _ => "", fun _ => e.name, _, ho, ⟨e, ht, rfl⟩, rfl⟩

/-- A node with choices that was resolved is kept. -/
theorem lookup_eq_none_iff {calls : List Call} {id : NodeId} {literals : List Literal}
    (hc : s.ChoicesAt id literals) :
    (after s settings calls).enumOf.lookup id = none ↔ ¬ Resolved s settings calls id := by
  rw [Tables.lookup_eq_none_iff, not_iff_not]
  constructor
  · intro hm
    obtain ⟨⟨_, t⟩, ht, rfl⟩ := List.mem_map.mp hm
    obtain ⟨-, arrays, hr⟩ := mem_enumOf_after.mp ht
    exact ⟨arrays, _, hr⟩
  · rintro ⟨arrays, t, before, c, hpre, hp, ha⟩
    obtain ⟨r', hstep⟩ := exists_step ha
    obtain ⟨e, rfl, -⟩ := hstep.exists_enum (Schema.outline?_of_choices settings hp hc)
    exact List.mem_map.mpr
      ⟨_, mem_enumOf_after.mpr ⟨⟨literals, hc⟩, arrays, before, c, hpre, hp, ha⟩, rfl⟩

/-- How a place is answered whose items lead through `arrays` to `last`, under any hint and after
any calls. -/
structure Resolves (s : Schema) (settings : Settings) (place : Option NodeId) (arrays : List Bool)
    (last : Option NodeId) : Prop where
  /-- The items come to one last place in one way. -/
  through : ∀ arrays' last', s.Through place arrays' last' ↔ arrays' = arrays ∧ last' = last
  fails : ∀ calls hint, Collides s settings calls last →
    ∃ e, answer s settings calls ⟨place, hint⟩ = .error (.collision e)
  breaks : ∀ calls hint, Unwritable s settings calls last →
    answer s settings calls ⟨place, hint⟩ = .error .digits
  returns : ∀ calls hint, ¬ Collides s settings calls last → ¬ Unwritable s settings calls last →
    ∃ ref enm t, s.HasType settings ref enm last t ∧
      answer s settings calls ⟨place, hint⟩ = .ok (wrap arrays t)
  /-- Two answers differ by the names in them only. -/
  nameless : ∀ calls hint t calls' hint' t', answer s settings calls ⟨place, hint⟩ = .ok t →
    answer s settings calls' ⟨place, hint'⟩ = .ok t' → t'.nameless = t.nameless

theorem fails_of_collides (hp : s.Through place arrays last) {calls : List Call} (hint : String)
    (h : Collides s settings calls last) :
    ∃ e, answer s settings calls ⟨place, hint⟩ = .error (.collision e) := by
  obtain ⟨id, literals, rfl, hc, hnew, hshort, hclash⟩ := h
  have ho := Schema.outline?_of_choices settings hp hc
  have hl := (lookup_eq_none_iff hc).mpr hnew
  cases ht : Enumeration.type ((after s settings calls).names.allocate
      (Naming.className hint "Enum") id).1 literals with
  | ok t => exact absurd hclash (Enumeration.type_ok_iff.mp ⟨t, ht⟩).2
  | error e =>
    have hstep := Step.refused (c := ⟨place, hint⟩) ho hl ht
    cases e with
    | collision c => exact ⟨c, hstep.answer⟩
    | digits =>
      rw [Enumeration.type_eq_digits, hshort] at ht
      cases ht

theorem breaks_of_unwritable (hp : s.Through place arrays last) {calls : List Call} (hint : String)
    (h : Unwritable s settings calls last) :
    answer s settings calls ⟨place, hint⟩ = .error .digits := by
  cases h with
  | choices hc hnew hlong =>
    have ho := Schema.outline?_of_choices settings hp hc
    exact (Step.refused (c := ⟨place, hint⟩) ho ((lookup_eq_none_iff hc).mpr hnew)
      (Enumeration.type_eq_digits.mpr hlong)).answer
  | @kind _ n hn hk hlong =>
    have ho : s.outline? settings place = some ⟨arrays, .unrecognized n.kind⟩ :=
      Schema.outline?_of_through hp (Schema.outlineFrom_of_unrecognized hn hk)
    exact (Step.unshown (c := ⟨place, hint⟩) ho hlong).answer

theorem returns_of_not_collides (hp : s.Through place arrays last) {calls : List Call}
    (hint : String) (hcollides : ¬ Collides s settings calls last)
    (hwritable : ¬ Unwritable s settings calls last) : ∃ ref enm t,
      s.HasType settings ref enm last t ∧
      answer s settings calls ⟨place, hint⟩ = .ok (wrap arrays t) := by
  cases ha : answer s settings calls ⟨place, hint⟩ with
  | ok t =>
    obtain ⟨r', hstep⟩ := exists_step ha
    obtain ⟨arrays', leaf, ref, enm, u, ho, hu, rfl⟩ := hstep.leafType (sound_after calls)
    obtain ⟨last', hp', hl⟩ := Schema.exists_last ho
    obtain ⟨rfl, rfl⟩ := hp.unique hp'
    exact ⟨ref, enm, u, .ofOutline hl hu, rfl⟩
  | error e =>
    exfalso
    obtain ⟨r', hstep⟩ := exists_step ha
    cases hstep with
    | endless ho =>
      obtain ⟨o, ho'⟩ := Schema.outline?_isSome hp.itemsEndFrom settings
      rw [ho] at ho'
      cases ho'
    | unshown ho hlong =>
      obtain ⟨last', hp', hl⟩ := Schema.exists_last ho
      obtain ⟨-, rfl⟩ := hp.unique hp'
      obtain ⟨id, n, rfl, hn, hk, rfl⟩ := Schema.exists_unrecognized hl
      exact hwritable (.kind hn hk hlong)
    | @refused _ _ _ e ho hl ht =>
      obtain ⟨hp', hc⟩ := Schema.outline?_eq_choices_iff.mp ho
      obtain ⟨-, rfl⟩ := hp.unique hp'
      have hnew := (lookup_eq_none_iff hc).mp hl
      cases e with
      | digits => exact hwritable (.choices hc hnew (Enumeration.type_eq_digits.mp ht))
      | collision e =>
        obtain ⟨hshort, hms⟩ := Enumeration.type_eq_collision.mp ht
        exact hcollides ⟨_, _, rfl, hc, hnew, hshort,
          (Enumeration.firstClash_of_error hms).1.clash⟩

/-- Whatever was asked before, a place whose items do not lead back to themselves is answered by the
rules of precedence, unless choices collide that were not resolved before, or an integer has to be
written that is too long. -/
theorem resolves_of_itemsEnd (settings : Settings) (h : s.ItemsEndFrom place) :
    ∃ arrays last, Resolves s settings place arrays last := by
  obtain ⟨⟨arrays, leaf⟩, ho⟩ := Schema.outline?_isSome h settings
  obtain ⟨last, hp, -⟩ := Schema.exists_last ho
  refine ⟨arrays, last, ?_, fun _ hint hc => fails_of_collides hp hint hc,
    fun _ hint hu => breaks_of_unwritable hp hint hu,
    fun _ hint hc hu => returns_of_not_collides hp hint hc hu, ?_⟩
  · intro arrays' last'
    constructor
    · exact hp.unique
    · rintro ⟨rfl, rfl⟩
      exact hp
  · intro calls hint t calls' hint' t' ha ha'
    obtain ⟨r, hstep⟩ := exists_step ha
    obtain ⟨r', hstep'⟩ := exists_step ha'
    obtain ⟨_, _, ref, enm, u, ho₁, hu, rfl⟩ := hstep.leafType (sound_after calls)
    obtain ⟨_, _, ref', enm', u', ho₂, hu', rfl⟩ := hstep'.leafType (sound_after calls')
    rw [ho] at ho₁ ho₂
    cases ho₁
    cases ho₂
    simp only [TargetType.nameless_wrap, hu.nameless_eq hu']

/-- A set of turns, two of which make one member name. -/
def turns : Schema :=
  .ofNodes [{ kind := .text "array", unique := true, items := some 1 },
    { enum := some [.text "left", .text "Left"] }]

theorem itemsEndFrom_turns : turns.ItemsEndFrom (some 0) := by
  have hlast : turns.Through (some 1) [] (some 1) := by
    refine .here ?_
    rintro _ n ⟨⟩ ⟨⟩ hk
    exact hk.noChoices ⟨_, _, rfl⟩
  have harray : SchemaNode.KindDecides
      { kind := .text "array", unique := true, items := some 1 } (some .array) :=
    ⟨by simp [SchemaNode.HasChoices], by simp [SchemaNode.CountsMillis], by decide⟩
  exact (Schema.Through.items rfl harray hlast).itemsEndFrom

theorem resolves_turns : turns.ItemsEndFrom (some 0) ∧
    ∃ arrays last, Resolves turns {} (some 0) arrays last :=
  ⟨itemsEndFrom_turns, resolves_of_itemsEnd {} itemsEndFrom_turns⟩

example : ∃ e, answer turns {} [] ⟨some 0, "turn"⟩ = .error (.collision e) := ⟨_, by rfl⟩

/-- The least integer that is too long, as a kind and as a choice. -/
def heights : Schema :=
  .ofNodes [{ kind := .int (10 ^ Numeral.maxDigits : Nat) },
    { enum := some [.int (10 ^ Numeral.maxDigits : Nat)] }]

theorem through_heights {id : NodeId} (h : id = 0 ∨ id = 1) :
    heights.Through (some id) [] (some id) := by
  refine .here ?_
  rintro _ n ⟨⟩ hn hk
  obtain rfl | rfl := h
  · cases hn
    cases hk.kind
  · cases hn
    exact hk.noChoices ⟨_, _, rfl⟩

/-- A single choice has one text at most. -/
theorem not_clash_heights {literals : List Literal} (hc : heights.ChoicesAt 1 literals) :
    ¬ Enumeration.Clash (Enumeration.texts literals) := by
  obtain ⟨-, n, hn, hliterals⟩ := hc
  cases hn
  cases hliterals
  rintro ⟨a, ha, b, hb, hne, -⟩
  obtain ⟨l, hl, hal⟩ := List.mem_filterMap.mp ha
  obtain ⟨l', hl', hbl⟩ := List.mem_filterMap.mp hb
  rw [List.mem_singleton.mp hl] at hal
  rw [List.mem_singleton.mp hl', hal] at hbl
  exact hne (Option.some.inj hbl)

theorem unwritable_heights {id : NodeId} (h : id = 0 ∨ id = 1) :
    Unwritable heights {} [] (some id) := by
  obtain rfl | rfl := h
  · have hk : SchemaNode.KindDecides { kind := .int (10 ^ Numeral.maxDigits : Nat) } none :=
      ⟨by simp [SchemaNode.HasChoices], by simp [SchemaNode.CountsMillis], rfl⟩
    exact .kind rfl hk Numeral.isLong_power
  · refine .choices ⟨List.cons_ne_nil _ _, _, rfl, rfl⟩ ?_ ?_
    · rintro ⟨arrays, t, hr⟩
      exact not_returned_nil hr
    · rw [List.any_cons, List.any_nil, Bool.or_false]
      exact Numeral.isLong_power

/-- Neither an unknown kind nor a single choice collides with anything, and yet they have no type. -/
theorem not_resolves_heights :
    (heights.ItemsEndFrom (some 0) ∧ answer heights {} [] ⟨some 0, "height"⟩ = .error .digits) ∧
      heights.ItemsEndFrom (some 1) ∧
      (∀ literals, heights.ChoicesAt 1 literals →
        ¬ Enumeration.Clash (Enumeration.texts literals)) ∧
      answer heights {} [] ⟨some 1, "height"⟩ = .error .digits := by
  have hfirst := through_heights (.inl rfl)
  have hsecond := through_heights (.inr rfl)
  exact ⟨⟨hfirst.itemsEndFrom, breaks_of_unwritable hfirst "height" (unwritable_heights (.inl rfl))⟩,
    hsecond.itemsEndFrom, fun _ => not_clash_heights,
    breaks_of_unwritable hsecond "height" (unwritable_heights (.inr rfl))⟩

end Resolver
end SchemaModel
