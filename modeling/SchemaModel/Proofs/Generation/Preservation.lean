import SchemaModel.Proofs.Generation.Invariant

/-!
What a whole generation keeps. A generation does four things to its state: it warns, it enters
enumerated types, it opens objects and it describes them. What each of these keeps is kept by the
generation (`ofSchema_preserves`), together with the invariant.
-/
namespace SchemaModel

/-- The root is named under the name of the generation, every other object under the name of a
property that leads to it. -/
def Schema.NamedUnder (s : Schema) (root : String) (id : NodeId) (hint : String) : Prop :=
  (id = s.root ∧ hint = root) ∨ s.MetUnder id hint

namespace Building

/-- A property of states that no step of a generation destroys. -/
structure Preserves (s : Schema) (root : String) (P : Building → Prop) : Prop where
  warned : ∀ b warning, P b → P { b with resolver := b.resolver.warned warning }
  enumerated : ∀ b id hint t, P b → s.MetUnder id hint → b.resolver.enumOf.lookup id = none →
    t.name = (b.resolver.names.allocate (Naming.className hint "Enum") id).1 →
    P { b with resolver := b.resolver.enumerated (Naming.className hint "Enum") id t }
  opened : ∀ b id hint, P b → s.NamedUnder root id hint → b.references.lookup id = none →
    P (b.opened s id (Naming.className hint))
  described : ∀ b name ps, P b → P (b.describe name ps)

/-- The building of objects that are met keeps a property of states. -/
def ObjectPreserves (s : Schema) (root : String) (P : Building → Prop)
    (object : NodeId → String → Action String) : Prop :=
  ∀ id hint name (b b' : Building), P b → s.ObjectMet id → s.NamedUnder root id hint →
    object id hint b = .ok (name, b') → P b'

variable {s : Schema} {settings : Settings} {root : String} {P : Building → Prop} {b b' : Building}
  {object : NodeId → String → Action String}

theorem resolve_preserves (hP : Preserves s root P) (hobj : ObjectPreserves s root P object)
    (hb : P b) {holder : NodeId} {place : Option NodeId} {hint : String} {t : TargetType}
    (hm : s.ObjectMet holder) (hp : (hint, place) ∈ s.propertiesOf holder)
    (hr : resolve s settings object place hint b = .ok (t, b')) : P b' := by
  obtain ⟨o, ho, hr⟩ := resolve_ok hr
  have hat := Schema.leafAt_of_outlineFrom ho
  cases hl : o.leaf with
  | type u =>
    rw [hl] at hr
    exact hr.2 ▸ hb
  | unrecognized kind =>
    rw [hl] at hr
    exact hr.2 ▸ hP.warned b _ hb
  | choices id literals =>
    rw [hl] at hr hat
    obtain ⟨u, r, -, hu, rfl⟩ := hr
    obtain ⟨-, rfl⟩ | ⟨hnew, ht, rfl⟩ := Resolver.enumType_ok hu
    · exact hb
    · exact hP.enumerated b id hint u hb ⟨holder, place, hm, hp, hat.1⟩ hnew
        (Enumeration.name_of_type ht)
  | object id =>
    rw [hl] at hr hat
    obtain ⟨name, -, hname⟩ := hr
    have hunder : s.MetUnder id hint := ⟨holder, place, hm, hp, hat.1⟩
    exact hobj id hint name b b' hb (.inr ⟨hunder.met, hat.2⟩) (.inr hunder) hname

theorem properties_preserves (hP : Preserves s root P) (hobj : ObjectPreserves s root P object)
    {holder : NodeId} {ps : List (String × Option NodeId)} {fields : Naming.FieldTable}
    {out : List Property} (hb : P b) (hm : s.ObjectMet holder) (hp : ps ⊆ s.propertiesOf holder)
    (hr : properties s settings object fields ps b = .ok (out, b')) : P b' := by
  induction ps generalizing fields b out with
  | nil =>
    obtain ⟨-, rfl⟩ := Stateful.pure_eq_ok.mp hr
    exact hb
  | cons entry ps ih =>
    obtain ⟨name, place⟩ := entry
    obtain ⟨p, rest, fields', b₁, -, -, htype, -, -, -, -, hrest⟩ := properties_cons_ok hr
    have hb₁ := resolve_preserves hP hobj hb hm (hp List.mem_cons_self) htype
    exact ih hb₁ (fun _ he => hp (List.mem_cons_of_mem _ he)) hrest

/-- What every step keeps is kept while an object is built, however objects refer to each other. -/
theorem object_preserves (hP : Preserves s root P) (fuel : Nat) :
    ObjectPreserves s root P (Building.object s settings fuel) := by
  induction fuel with
  | zero =>
    intro id hint name b b' _ _ _ hr
    cases hr
  | succ fuel ih =>
    intro id hint name b b' hb hm hunder hr
    obtain ⟨-, rfl⟩ | ⟨hnew, -, ps, b₁, hps, rfl⟩ := object_ok hr
    · exact hb
    · have hopened := hP.opened b id hint hb hunder hnew
      exact hP.described b₁ name ps
        (properties_preserves hP ih hopened hm (List.Subset.refl _) hps)

end Building

/-- What the beginning satisfies and every step keeps holds where a generation ends. -/
theorem Generation.ofSchema_preserves {s : Schema} {settings : Settings} {name : String}
    {g : Generation} {P : Building → Prop} (hP : Building.Preserves s name P)
    (hempty : P Building.empty) (h : ofSchema s settings name = .ok g) :
    ∃ b : Building, b.Inv s settings [] ∧ P b ∧ (s.root, Naming.className name) ∈ b.references ∧
      g = b.finish (Naming.className name) := by
  obtain ⟨b, hb, rfl⟩ := exists_built h
  obtain ⟨hinv, -, hroot⟩ := Building.object_keeps _ [] _ _ _ _ b .empty (.inl rfl) hb
  have hkept :=
    Building.object_preserves hP _ _ _ _ _ b hempty (.inl rfl) (.inl ⟨rfl, rfl⟩) hb
  exact ⟨b, hinv, hkept, hroot, rfl⟩

end SchemaModel
