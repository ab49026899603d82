import SchemaModel.Proofs.Ancestors
import SchemaModel.Proofs.Resolution.Precedence

/-!
Chains of items. Where no array is among the items inside itself, however deep, every place has an
outline: a way through arrays is no longer than there are nodes. It says what the place says to
which the items lead in the end.
-/
namespace SchemaModel

/-- Only the kind makes the form of an array. -/
theorem SchemaNode.form_eq_array {settings : Settings} {n : SchemaNode} {unique : Bool}
    {items : Option NodeId} (h : n.form settings = .array unique items) :
    n.KindDecides (some .array) ∧ n.items = items := by
  rcases n.decides with ⟨l, ls, hc⟩ | ⟨hc, hm⟩ | hk
  · rw [form_of_choices settings hc] at h
    cases h
  · rw [form_of_millis settings hc hm] at h
    cases h
  · rw [form_of_kindDecides settings hk] at h
    have harray := n.knownKind?_of_formOfKind.1 _ _ h
    rw [formOfKind, harray] at h
    cases h
    exact ⟨harray ▸ hk, rfl⟩

namespace Schema

/-- The step from an array to its items. -/
def ItemsStep (s : Schema) (a c : NodeId) : Prop :=
  ∃ n, s.node? a = some n ∧ n.KindDecides (some .array) ∧ n.items = some c

/-- No chain of such steps returns to where it began. -/
def ItemsEnd (s : Schema) : Prop := ∀ id, ¬ Relation.TransGen s.ItemsStep id id

/-- No chain of such steps from a place returns to where it began. -/
def ItemsEndFrom (s : Schema) (place : Option NodeId) : Prop :=
  ∀ a, place = some a → ∀ c, Relation.ReflTransGen s.ItemsStep a c →
    ¬ Relation.TransGen s.ItemsStep c c

/-- Items lead from a place through arrays, sets or not, to the last place, where no array is. -/
inductive Through (s : Schema) : Option NodeId → List Bool → Option NodeId → Prop
  | here {place} (h : ∀ id n, place = some id → s.node? id = some n →
      ¬ n.KindDecides (some .array)) : Through s place [] place
  | items {id n arrays last} (hn : s.node? id = some n) (hk : n.KindDecides (some .array))
      (h : Through s n.items arrays last) : Through s (some id) (n.unique :: arrays) last

variable {s : Schema} {settings : Settings}

theorem ItemsEnd.from (hs : s.ItemsEnd) (place : Option NodeId) : s.ItemsEndFrom place :=
  fun _ _ c _ => hs c

theorem ItemsEndFrom.items {id : NodeId} {n : SchemaNode} (h : s.ItemsEndFrom (some id))
    (hn : s.node? id = some n) (hk : n.KindDecides (some .array)) : s.ItemsEndFrom n.items := by
  intro a ha c hc
  exact h id rfl c (.head ⟨n, hn, hk, ha⟩ hc)

theorem Through.unique {place last last' : Option NodeId} {arrays arrays' : List Bool}
    (h : s.Through place arrays last) (h' : s.Through place arrays' last') :
    arrays' = arrays ∧ last' = last := by
  induction h generalizing arrays' with
  | here hend =>
    cases h' with
    | here => exact ⟨rfl, rfl⟩
    | items hn hk => exact absurd hk (hend _ _ rfl hn)
  | items hn hk _ ih =>
    cases h' with
    | here hend => exact absurd hk (hend _ _ rfl hn)
    | items hn' _ h' =>
      rw [hn] at hn'
      cases hn'
      obtain ⟨rfl, rfl⟩ := ih h'
      exact ⟨rfl, rfl⟩

/-- Items that come to a last place have not led back to an array on the way. -/
theorem Through.itemsEndFrom {place last : Option NodeId} {arrays : List Bool}
    (h : s.Through place arrays last) : s.ItemsEndFrom place := by
  induction h with
  | here hend =>
    rintro a rfl c hc
    -- there is no step from a place without an array
    have hstep : ∀ b, ¬ s.ItemsStep a b := fun b ⟨n, hn, hk, _⟩ => hend a n rfl hn hk
    rcases hc.cases_head with rfl | ⟨b, hb, -⟩
    · intro hcycle
      obtain ⟨b, hb, -⟩ := Relation.TransGen.head'_iff.mp hcycle
      exact hstep b hb
    · exact absurd hb (hstep b)
  | @items id n arrays last hn hk h ih =>
    rintro a ⟨⟩ c hc
    have hnext : ∀ b, s.ItemsStep id b → n.items = some b := by
      rintro b ⟨m, hm, -, hb⟩
      rw [hn] at hm
      cases hm
      exact hb
    rcases hc.cases_head with rfl | ⟨b, hb, hbc⟩
    · intro hcycle
      obtain ⟨b, hb, hba⟩ := Relation.TransGen.head'_iff.mp hcycle
      exact ih b (hnext b hb) id hba hcycle
    · exact ih b (hnext b hb) c hbc

/-- An outline goes through the arrays on the way and says what the last place says. -/
theorem through_of_outlineFrom {fuel : Nat} {place : Option NodeId} {o : Outline}
    (h : s.outlineFrom settings fuel place = some o) :
    ∃ last, s.Through place o.arrays last ∧ s.outlineFrom settings 1 last = some ⟨[], o.leaf⟩ := by
  induction fuel generalizing place o with
  | zero =>
    cases place with
    | none =>
      cases h
      exact ⟨none, .here nofun, rfl⟩
    | some id => cases h
  | succ fuel ih =>
    cases place with
    | none =>
      cases h
      exact ⟨none, .here nofun, rfl⟩
    | some id =>
      cases hn : s.node? id with
      | none =>
        rw [outlineFrom, hn] at h
        cases h
        refine ⟨some id, .here ?_, by rw [outlineFrom, hn]⟩
        rintro _ n ⟨⟩ hn'
        rw [hn] at hn'
        cases hn'
      | some n =>
        by_cases hk : n.KindDecides (some .array)
        · rw [outlineFrom_of_array hn hk, Option.map_eq_some_iff] at h
          obtain ⟨p, hp, rfl⟩ := h
          obtain ⟨last, hlast, hleaf⟩ := ih hp
          exact ⟨last, .items hn hk hlast, hleaf⟩
        · have hhere : s.Through (some id) [] (some id) := by
            refine .here ?_
            rintro _ m ⟨⟩ hm
            rw [hn] at hm
            cases hm
            exact hk
          rw [outlineFrom, hn] at h
          cases hf : n.form settings with
          | array unique items => exact absurd (SchemaNode.form_eq_array hf).1 hk
          | _ =>
            simp only [hf] at h
            cases h
            exact ⟨some id, hhere, by simp only [outlineFrom, hn, hf]⟩

theorem outlineFrom_isSome {fuel : Nat} {path : List NodeId} {place : Option NodeId}
    (hs : s.ItemsEndFrom place)
    (h : ∀ id, place = some id → Ancestors s.ItemsStep s.nodes.size path id)
    (hfuel : fuel + path.length = s.nodes.size + 1) :
    ∃ o, s.outlineFrom settings fuel place = some o := by
  induction fuel generalizing path place with
  | zero =>
    cases place with
    | none => exact ⟨_, rfl⟩
    | some id =>
      have := (h id rfl).length_le
      omega
  | succ fuel ih =>
    cases place with
    | none => exact ⟨_, rfl⟩
    | some id =>
      cases hn : s.node? id with
      | none => exact ⟨_, by rw [outlineFrom, hn]⟩
      | some n =>
        cases hf : n.form settings with
        | array unique items =>
          obtain ⟨hk, rfl⟩ := SchemaNode.form_eq_array hf
          have hid : id < s.nodes.size := (Array.getElem?_eq_some_iff.mp hn).1
          have hnext : ∀ c, n.items = some c →
              Ancestors s.ItemsStep s.nodes.size (id :: path) c :=
            fun c hc => (h id rfl).step (hs id rfl id .refl) hid ⟨n, hn, hk, hc⟩
          obtain ⟨o, ho⟩ := ih (hs.items hn hk) hnext (by rw [List.length_cons]; omega)
          rw [outlineFrom_of_array hn hk, ho]
          exact ⟨_, rfl⟩
        | _ =>
          simp only [outlineFrom, hn, hf]
          exact ⟨_, rfl⟩

/-- A place has an outline if its items end. -/
theorem outline?_isSome {place : Option NodeId} (hs : s.ItemsEndFrom place)
    (settings : Settings) : ∃ o, s.outline? settings place = some o :=
  outlineFrom_isSome hs (fun id _ => .nil _ _ id) rfl

end Schema
end SchemaModel
