import SchemaModel.Enumeration
import SchemaModel.Resolution.Form

/-!
The rules of precedence as a relation. What decides the type of a node is said of the node's own
entries: declared choices, then the format of epoch milliseconds, then the kind. Objects and
enumerated types are named from outside, so that the rules say nothing of how names are found.
Outlines follow the rules (`HasType.ofOutline`), and end where the rules look (`leaf_of_leads`).
-/
namespace SchemaModel

namespace SchemaNode

/-- At least one choice is declared. -/
def HasChoices (n : SchemaNode) : Prop := ∃ l ls, n.enum = some (l :: ls)

/-- The format is that of epoch milliseconds. -/
def CountsMillis (n : SchemaNode) : Prop := n.format = .text epochMillisFormat

/-- Neither choices nor the format decide, and the kind is `k`, or unknown if `k` is missing. -/
structure KindDecides (n : SchemaNode) (k : Option SchemaKind) : Prop where
  noChoices : ¬ n.HasChoices
  noMillis : ¬ n.CountsMillis
  kind : n.knownKind? = k

theorem form_of_choices (settings : Settings) {n : SchemaNode} {l : Literal} {ls : List Literal}
    (h : n.enum = some (l :: ls)) : n.form settings = .choices (l :: ls) := by
  simp [form, choices?, h]

theorem choices?_eq_none {n : SchemaNode} (h : ¬ n.HasChoices) : n.choices? = none := by
  unfold choices?
  split
  · rename_i l ls he
    exact absurd ⟨l, ls, he⟩ h
  · rfl

theorem countsMillis_iff {n : SchemaNode} :
    n.CountsMillis ↔ n.format.text? = some epochMillisFormat := by
  unfold CountsMillis
  cases n.format <;> simp [Value.text?]

theorem form_of_millis (settings : Settings) {n : SchemaNode} (hc : ¬ n.HasChoices)
    (h : n.CountsMillis) :
    n.form settings = .type (.date .epochMillisAsLong (some epochMillisFormat)) := by
  rw [form, choices?_eq_none hc]
  exact if_pos (countsMillis_iff.mp h)

theorem form_of_kindDecides (settings : Settings) {n : SchemaNode} {k : Option SchemaKind}
    (h : n.KindDecides k) : n.form settings = n.formOfKind settings := by
  rw [form, choices?_eq_none h.noChoices]
  exact if_neg (fun hm => h.noMillis (countsMillis_iff.mpr hm))

theorem formOfKind_ne_choices {settings : Settings} (n : SchemaNode) {literals : List Literal} :
    n.formOfKind settings ≠ .choices literals := by
  unfold formOfKind
  repeat' split
  all_goals simp

/-- Only an array has the form of an array, only an object that of an object, and only an unknown
kind that of an unrecognized one. -/
theorem knownKind?_of_formOfKind {settings : Settings} (n : SchemaNode) :
    (∀ unique items, n.formOfKind settings = .array unique items → n.knownKind? = some .array) ∧
    (n.formOfKind settings = .object → n.knownKind? = some .object) ∧
    (n.formOfKind settings = .unrecognized → n.knownKind? = none) := by
  unfold formOfKind
  repeat' split
  all_goals simp_all

/-- One of the three levels decides. -/
theorem decides (n : SchemaNode) :
    n.HasChoices ∨ (¬ n.HasChoices ∧ n.CountsMillis) ∨ n.KindDecides n.knownKind? := by
  by_cases hc : n.HasChoices
  · exact .inl hc
  · by_cases hm : n.CountsMillis
    · exact .inr (.inl ⟨hc, hm⟩)
    · exact .inr (.inr ⟨hc, hm, rfl⟩)

end SchemaNode

namespace Schema

/-- The type of a place by the rules of precedence. The generated type of an object `id` is called
`ref id`, the enumerated type of a node `id` with choices `enm id`. -/
inductive HasType (s : Schema) (settings : Settings) (ref enm : NodeId → String) :
    Option NodeId → TargetType → Prop
  | absent {place} (h : place.bind s.node? = none) :
      HasType s settings ref enm place (.scalar .string)
  | choices {id n l ls t} (hn : s.node? id = some n) (hc : n.enum = some (l :: ls))
      (ht : Enumeration.type (enm id) (l :: ls) = .ok t) :
      HasType s settings ref enm (some id) (.enum t)
  | millis {id n} (hn : s.node? id = some n) (hc : ¬ n.HasChoices) (hm : n.CountsMillis) :
      HasType s settings ref enm (some id) (.date .epochMillisAsLong (some epochMillisFormat))
  | formattedDate {id n f} (hn : s.node? id = some n) (hk : n.KindDecides (some .date))
      (hf : settings.dateFormat? n.format = some f) :
      HasType s settings ref enm (some id) (.date .formatted (some f))
  | date {id n} (hn : s.node? id = some n) (hk : n.KindDecides (some .date))
      (hf : settings.dateFormat? n.format = none) :
      HasType s settings ref enm (some id) (.date .epochMillis none)
  | formattedString {id n f} (hn : s.node? id = some n) (hk : n.KindDecides (some .string))
      (hf : settings.dateFormat? n.format = some f) :
      HasType s settings ref enm (some id) (.date .formatted (some f))
  | string {id n} (hn : s.node? id = some n) (hk : n.KindDecides (some .string))
      (hf : settings.dateFormat? n.format = none) :
      HasType s settings ref enm (some id) (.scalar .string)
  | long {id n} (hn : s.node? id = some n) (hk : n.KindDecides (some .integer))
      (hl : settings.longIntegers = true) : HasType s settings ref enm (some id) (.scalar .long)
  | integer {id n} (hn : s.node? id = some n) (hk : n.KindDecides (some .integer))
      (hl : settings.longIntegers = false) : HasType s settings ref enm (some id) (.scalar .integer)
  | number {id n} (hn : s.node? id = some n) (hk : n.KindDecides (some .number)) :
      HasType s settings ref enm (some id) (.scalar .double)
  | boolean {id n} (hn : s.node? id = some n) (hk : n.KindDecides (some .boolean)) :
      HasType s settings ref enm (some id) (.scalar .boolean)
  | list {id n t} (hn : s.node? id = some n) (hk : n.KindDecides (some .array))
      (hu : n.unique = false) (hi : HasType s settings ref enm n.items t) :
      HasType s settings ref enm (some id) (.list t)
  | set {id n t} (hn : s.node? id = some n) (hk : n.KindDecides (some .array))
      (hu : n.unique = true) (hi : HasType s settings ref enm n.items t) :
      HasType s settings ref enm (some id) (.set t)
  | object {id n} (hn : s.node? id = some n) (hk : n.KindDecides (some .object)) :
      HasType s settings ref enm (some id) (.reference (ref id))
  | unrecognized {id n} (hn : s.node? id = some n) (hk : n.KindDecides none) :
      HasType s settings ref enm (some id) (.scalar .string)

/-- Items of arrays lead from a place to a node. -/
inductive Leads (s : Schema) : Option NodeId → NodeId → Prop
  | self {id} : Leads s (some id) id
  | items {a n id} (hn : s.node? a = some n) (hk : n.KindDecides (some .array))
      (h : Leads s n.items id) : Leads s (some a) id

/-- The type that a leaf stands for under given names. -/
def LeafType (ref enm : NodeId → String) : Leaf → TargetType → Prop
  | .type t, u => u = t
  | .choices id literals, u => ∃ t, Enumeration.type (enm id) literals = .ok t ∧ u = .enum t
  | .object id, u => u = .reference (ref id)
  | .unrecognized _, u => u = .scalar .string

/-- The node that a leaf was read from, at the end of the items of a place. -/
def LeafAt (s : Schema) (place : Option NodeId) : Leaf → Prop
  | .type _ => True
  | .choices id literals => s.Leads place id ∧
      ∃ n l ls, s.node? id = some n ∧ n.enum = some (l :: ls) ∧ literals = l :: ls
  | .object id => s.Leads place id ∧ ∃ n, s.node? id = some n ∧ n.KindDecides (some .object)
  | .unrecognized kind => ∃ id n, s.Leads place id ∧ s.node? id = some n ∧ n.KindDecides none ∧
      kind = n.kind

variable {s : Schema} {settings : Settings} {ref enm : NodeId → String}

theorem HasType.wrap_cons {id : NodeId} {n : SchemaNode} {bs : List Bool} {t : TargetType}
    (hn : s.node? id = some n) (hk : n.KindDecides (some .array))
    (hi : HasType s settings ref enm n.items (wrap bs t)) :
    HasType s settings ref enm (some id) (wrap (n.unique :: bs) t) := by
  cases hu : n.unique with
  | false => exact .list hn hk hu hi
  | true => exact .set hn hk hu hi

/-- A node whose kind decides has the type of its form, if the form is not that of an array. -/
theorem HasType.ofKind {id : NodeId} {n : SchemaNode} {t : TargetType} (hn : s.node? id = some n)
    (hk : n.KindDecides n.knownKind?) (hf : n.formOfKind settings = .type t) :
    HasType s settings ref enm (some id) t := by
  cases hkind : n.knownKind? with
  | none => simp [SchemaNode.formOfKind, hkind] at hf
  | some k =>
    rw [hkind] at hk
    simp only [SchemaNode.formOfKind, hkind] at hf
    cases k with
    | string =>
      cases hd : settings.dateFormat? n.format with
      | some f =>
        simp only [hd] at hf
        cases hf
        exact .formattedString hn hk hd
      | none =>
        simp only [hd] at hf
        cases hf
        exact .string hn hk hd
    | date =>
      cases hd : settings.dateFormat? n.format with
      | some f =>
        simp only [hd] at hf
        cases hf
        exact .formattedDate hn hk hd
      | none =>
        simp only [hd] at hf
        cases hf
        exact .date hn hk hd
    | integer =>
      cases hl : settings.longIntegers with
      | false =>
        simp only [hl] at hf
        cases hf
        exact .integer hn hk hl
      | true =>
        simp only [hl] at hf
        cases hf
        exact .long hn hk hl
    | number =>
      cases hf
      exact .number hn hk
    | boolean =>
      cases hf
      exact .boolean hn hk
    | array => cases hf
    | object => cases hf

/-! ## Outlines -/

section
variable {fuel : Nat} {id : NodeId} {n : SchemaNode}

theorem outlineFrom_of_choices {l : Literal} {ls : List Literal} (hn : s.node? id = some n)
    (hc : n.enum = some (l :: ls)) :
    s.outlineFrom settings (fuel + 1) (some id) = some ⟨[], .choices id (l :: ls)⟩ := by
  simp [outlineFrom, hn, SchemaNode.form_of_choices settings hc]

theorem outlineFrom_of_millis (hn : s.node? id = some n) (hc : ¬ n.HasChoices)
    (hm : n.CountsMillis) : s.outlineFrom settings (fuel + 1) (some id) =
      some ⟨[], .type (.date .epochMillisAsLong (some epochMillisFormat))⟩ := by
  simp [outlineFrom, hn, SchemaNode.form_of_millis settings hc hm]

theorem outlineFrom_of_array (hn : s.node? id = some n) (hk : n.KindDecides (some .array)) :
    s.outlineFrom settings (fuel + 1) (some id) =
      (s.outlineFrom settings fuel n.items).map fun o =>
        { o with arrays := n.unique :: o.arrays } := by
  simp [outlineFrom, hn, SchemaNode.form_of_kindDecides settings hk, SchemaNode.formOfKind, hk.kind]

theorem outlineFrom_of_object (hn : s.node? id = some n) (hk : n.KindDecides (some .object)) :
    s.outlineFrom settings (fuel + 1) (some id) = some ⟨[], .object id⟩ := by
  simp [outlineFrom, hn, SchemaNode.form_of_kindDecides settings hk, SchemaNode.formOfKind, hk.kind]

theorem outlineFrom_of_unrecognized (hn : s.node? id = some n) (hk : n.KindDecides none) :
    s.outlineFrom settings (fuel + 1) (some id) = some ⟨[], .unrecognized n.kind⟩ := by
  simp [outlineFrom, hn, SchemaNode.form_of_kindDecides settings hk, SchemaNode.formOfKind, hk.kind]

end

/-- What an outline can be: that of a missing node, of a node whose type needs no name, or of a
node with choices, of an array, an object or an unknown kind. -/
theorem outlineFrom_cases {fuel : Nat} {place : Option NodeId} {o : Outline}
    (h : s.outlineFrom settings fuel place = some o) :
    (place.bind s.node? = none ∧ o = ⟨[], .type (.scalar .string)⟩) ∨
    ∃ m id n, fuel = m + 1 ∧ place = some id ∧ s.node? id = some n ∧
      ((∃ l ls, n.enum = some (l :: ls) ∧ o = ⟨[], .choices id (l :: ls)⟩) ∨
       (∃ t, o = ⟨[], .type t⟩ ∧ ∀ ref enm, HasType s settings ref enm (some id) t) ∨
       (n.KindDecides (some .object) ∧ o = ⟨[], .object id⟩) ∨
       (n.KindDecides none ∧ o = ⟨[], .unrecognized n.kind⟩) ∨
       (n.KindDecides (some .array) ∧ ∃ p, s.outlineFrom settings m n.items = some p ∧
          o = { p with arrays := n.unique :: p.arrays })) := by
  cases place with
  | none =>
    simp only [outlineFrom, Option.some.injEq] at h
    exact .inl ⟨rfl, h.symm⟩
  | some id =>
    cases fuel with
    | zero => simp [outlineFrom] at h
    | succ m =>
      cases hn : s.node? id with
      | none =>
        simp only [outlineFrom, hn, Option.some.injEq] at h
        exact .inl ⟨by simpa using hn, h.symm⟩
      | some n =>
        refine .inr ⟨m, id, n, rfl, rfl, hn, ?_⟩
        -- choices come before the format of milliseconds, and both come before the kind
        rcases n.decides with ⟨l, ls, hc⟩ | ⟨hc, hm⟩ | hk
        · rw [outlineFrom_of_choices hn hc, Option.some.injEq] at h
          exact .inl ⟨l, ls, hc, h.symm⟩
        · rw [outlineFrom_of_millis hn hc hm, Option.some.injEq] at h
          exact .inr (.inl ⟨_, h.symm, fun _ _ => .millis hn hc hm⟩)
        · cases hf : n.formOfKind settings with
          | type t =>
            have ho : s.outlineFrom settings (m + 1) (some id) = some ⟨[], .type t⟩ := by
              simp [outlineFrom, hn, SchemaNode.form_of_kindDecides settings hk, hf]
            rw [ho, Option.some.injEq] at h
            exact .inr (.inl ⟨t, h.symm, fun _ _ => .ofKind hn hk hf⟩)
          | choices literals => exact absurd hf n.formOfKind_ne_choices
          | object =>
            have hk' := n.knownKind?_of_formOfKind.2.1 hf ▸ hk
            rw [outlineFrom_of_object hn hk', Option.some.injEq] at h
            exact .inr (.inr (.inl ⟨hk', h.symm⟩))
          | unrecognized =>
            have hk' := n.knownKind?_of_formOfKind.2.2 hf ▸ hk
            rw [outlineFrom_of_unrecognized hn hk', Option.some.injEq] at h
            exact .inr (.inr (.inr (.inl ⟨hk', h.symm⟩)))
          | array unique items =>
            have hk' := n.knownKind?_of_formOfKind.1 _ _ hf ▸ hk
            rw [outlineFrom_of_array hn hk', Option.map_eq_some_iff] at h
            obtain ⟨p, hp, rfl⟩ := h
            exact .inr (.inr (.inr (.inr ⟨hk', p, hp, rfl⟩)))

/-- Outlines follow the rules of precedence. -/
theorem HasType.ofOutline {fuel : Nat} {place : Option NodeId} {o : Outline} {t : TargetType}
    (h : s.outlineFrom settings fuel place = some o) (ht : LeafType ref enm o.leaf t) :
    HasType s settings ref enm place (wrap o.arrays t) := by
  induction fuel generalizing place o with
  | zero =>
    obtain ⟨hp, rfl⟩ | ⟨m, id, n, hm, -⟩ := outlineFrom_cases h
    · cases ht
      exact .absent hp
    · cases hm
  | succ fuel ih =>
    obtain ⟨hp, rfl⟩ | ⟨m, id, n, hm, rfl, hn, hcases⟩ := outlineFrom_cases h
    · cases ht
      exact .absent hp
    · cases hm
      obtain ⟨l, ls, hc, rfl⟩ | ⟨u, rfl, hu⟩ | ⟨hk, rfl⟩ | ⟨hk, rfl⟩ | ⟨hk, p, hp, rfl⟩ := hcases
      · obtain ⟨u, hu, rfl⟩ := ht
        exact .choices hn hc hu
      · cases ht
        exact hu ref enm
      · cases ht
        exact .object hn hk
      · cases ht
        exact .unrecognized hn hk
      · exact .wrap_cons hn hk (ih hp ht)

/-- Where items lead from a place, there its outline ends, unless an array is met. -/
theorem leaf_of_leads {fuel : Nat} {place : Option NodeId} {o : Outline} {id : NodeId}
    {n : SchemaNode} (h : s.outlineFrom settings fuel place = some o) (hl : s.Leads place id)
    (hn : s.node? id = some n) :
    (∀ l ls, n.enum = some (l :: ls) → o.leaf = .choices id (l :: ls)) ∧
    (n.KindDecides (some .object) → o.leaf = .object id) ∧
    (n.KindDecides none → o.leaf = .unrecognized n.kind) := by
  induction hl generalizing fuel o with
  | self =>
    cases fuel with
    | zero => simp [outlineFrom] at h
    | succ m =>
      refine ⟨fun l ls hc => ?_, fun hk => ?_, fun hk => ?_⟩
      · rw [outlineFrom_of_choices hn hc] at h
        cases h
        rfl
      · rw [outlineFrom_of_object hn hk] at h
        cases h
        rfl
      · rw [outlineFrom_of_unrecognized hn hk] at h
        cases h
        rfl
  | items ha hk _ ih =>
    cases fuel with
    | zero => simp [outlineFrom] at h
    | succ m =>
      rw [outlineFrom_of_array ha hk, Option.map_eq_some_iff] at h
      obtain ⟨p, hp, rfl⟩ := h
      -- an array adds to the arrays of the outline and leaves its leaf alone
      have hleaf := ih hp hn
      exact hleaf

theorem LeafAt.items {a : NodeId} {n : SchemaNode} {leaf : Leaf} (hn : s.node? a = some n)
    (hk : n.KindDecides (some .array)) (h : s.LeafAt n.items leaf) : s.LeafAt (some a) leaf := by
  cases leaf with
  | type t => trivial
  | choices id literals => exact ⟨.items hn hk h.1, h.2⟩
  | object id => exact ⟨.items hn hk h.1, h.2⟩
  | unrecognized kind =>
    obtain ⟨id, m, hl, hm⟩ := h
    exact ⟨id, m, .items hn hk hl, hm⟩

/-- An outline ends at a node that items lead to. -/
theorem leafAt_of_outlineFrom {fuel : Nat} {place : Option NodeId} {o : Outline}
    (h : s.outlineFrom settings fuel place = some o) : s.LeafAt place o.leaf := by
  induction fuel generalizing place o with
  | zero =>
    obtain ⟨-, rfl⟩ | ⟨m, a, n, hm, -⟩ := outlineFrom_cases h
    · trivial
    · cases hm
  | succ fuel ih =>
    obtain ⟨-, rfl⟩ | ⟨m, a, n, hm, rfl, hn, hcases⟩ := outlineFrom_cases h
    · trivial
    · cases hm
      obtain ⟨l, ls, hc, rfl⟩ | ⟨u, rfl, -⟩ | ⟨hk, rfl⟩ | ⟨hk, rfl⟩ | ⟨hk, p, hp, rfl⟩ := hcases
      · exact ⟨.self, n, l, ls, hn, hc, rfl⟩
      · trivial
      · exact ⟨.self, n, hn, hk⟩
      · exact ⟨a, n, .self, hn, hk, rfl⟩
      · have hleaf := ih hp
        exact .items hn hk hleaf

end Schema
end SchemaModel
