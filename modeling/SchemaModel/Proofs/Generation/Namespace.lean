import SchemaModel.Proofs.Emission.Classes
import SchemaModel.Proofs.Generation.Structure

/-!
Generated types and enumerated types share one allocator of names. Two nodes never share a name, and
no node but the root is taken for an object and for one with choices. The root is taken for an object
whatever it declares: when it is met again with choices, the allocator can hand it its name a second
time, and the generated module then defines that class twice.
-/
namespace SchemaModel

namespace Schema

variable {s : Schema} {ref enm hint : NodeId → String}

/-- The root is met with choices, and the first candidate for its enumerated type that does not
belong to another node is the name of its generated type. -/
structure RootNamedTwice (s : Schema) (ref enm hint : NodeId → String) : Prop where
  met : s.ChoicesMet s.root
  handed : ∃ k, Naming.Allocator.candidate (Naming.className (hint s.root) "Enum") k = ref s.root ∧
    ∀ j < k, ∃ id, id ≠ s.root ∧
      ((s.ObjectMet id ∧
          ref id = Naming.Allocator.candidate (Naming.className (hint s.root) "Enum") j) ∨
        (s.ChoicesMet id ∧
          enm id = Naming.Allocator.candidate (Naming.className (hint s.root) "Enum") j))

theorem ObjectMet.eq_root_of_choicesMet {id : NodeId} (ho : s.ObjectMet id) (hc : s.ChoicesMet id) :
    id = s.root := by
  obtain rfl | ⟨-, n, hn, hk⟩ := ho
  · rfl
  · obtain ⟨-, m, hm, hchoices⟩ := hc
    rw [hn] at hm
    cases hm
    exact absurd hchoices hk.noChoices

end Schema

namespace Building

variable {s : Schema} {settings : Settings} {b : Building} {root : String}

/-- A hint for each node with choices that is met, from which its enumerated type got the first
candidate that belonged to nobody else. -/
theorem Inv.exists_hint (h : b.Inv s settings []) (hroot : (s.root, root) ∈ b.references) :
    ∃ hint : NodeId → String, ∀ id, s.ChoicesMet id → s.MetUnder id (hint id) ∧
      ∃ k, b.enmOf id = Naming.Allocator.candidate (Naming.className (hint id) "Enum") k ∧
        ∀ j < k, ∃ o, o ≠ id ∧ b.resolver.names.owner?
          (Naming.Allocator.candidate (Naming.className (hint id) "Enum") j) = some o := by
  have hall : ∀ id, ∃ hint, s.ChoicesMet id → s.MetUnder id hint ∧
      ∃ k, b.enmOf id = Naming.Allocator.candidate (Naming.className hint "Enum") k ∧
        ∀ j < k, ∃ o, o ≠ id ∧ b.resolver.names.owner?
          (Naming.Allocator.candidate (Naming.className hint "Enum") j) = some o := by
    intro id
    by_cases hm : s.ChoicesMet id
    · obtain ⟨t, ht⟩ := h.named_of_choicesMet hroot hm
      obtain ⟨hint, k, hu, hname, hbefore⟩ := h.choices.hinted id t ht
      exact ⟨hint, fun _ => ⟨hu, k, (h.enmOf_eq ht).trans hname, hbefore⟩⟩
    · exact ⟨"", fun hm' => absurd hm' hm⟩
  exact ⟨fun id => (hall id).choose, fun id => (hall id).choose_spec⟩

theorem Inv.owner?_refOf (h : b.Inv s settings []) (hroot : (s.root, root) ∈ b.references)
    {id : NodeId} (hm : s.ObjectMet id) : b.resolver.names.owner? (b.refOf id) = some id := by
  obtain ⟨name, hname⟩ := h.named_of_objectMet hroot hm
  rw [h.refOf_eq hname]
  exact h.owned id name hname

theorem Inv.owner?_enmOf (h : b.Inv s settings []) (hroot : (s.root, root) ∈ b.references)
    {id : NodeId} (hm : s.ChoicesMet id) : b.resolver.names.owner? (b.enmOf id) = some id := by
  obtain ⟨t, ht⟩ := h.named_of_choicesMet hroot hm
  rw [h.enmOf_eq ht]
  exact h.choices.owned id t ht

theorem Inv.owner?_iff (h : b.Inv s settings []) (hroot : (s.root, root) ∈ b.references)
    {id : NodeId} {name : String} : b.resolver.names.owner? name = some id ↔
      (s.ObjectMet id ∧ b.refOf id = name) ∨ (s.ChoicesMet id ∧ b.enmOf id = name) := by
  constructor
  · intro ho
    obtain hm | ⟨t, hm, rfl⟩ := h.used id name ho
    · exact .inl ⟨h.met id name hm, h.refOf_eq hm⟩
    · exact .inr ⟨h.choicesMet hm, h.enmOf_eq hm⟩
  · rintro (⟨hm, rfl⟩ | ⟨hm, rfl⟩)
    · exact h.owner?_refOf hroot hm
    · exact h.owner?_enmOf hroot hm

/-- A name of both an object and a node with choices belongs to the root. -/
theorem Inv.eq_root_of_shared (h : b.Inv s settings []) (hroot : (s.root, root) ∈ b.references)
    {id id' : NodeId} (hm : s.ObjectMet id) (hm' : s.ChoicesMet id')
    (hn : b.refOf id = b.enmOf id') : id = s.root ∧ id' = s.root := by
  have hid : id = id' := by
    -- a name has one owner, and both nodes own this one
    have hown := h.owner?_refOf hroot hm
    rw [hn, h.owner?_enmOf hroot hm'] at hown
    exact (Option.some.inj hown).symm
  subst hid
  exact ⟨hm.eq_root_of_choicesMet hm', hm.eq_root_of_choicesMet hm'⟩

/-- The root has one name for both its types just when the search for the second ends at the
first. -/
theorem Inv.enmOf_root_iff (h : b.Inv s settings []) (hroot : (s.root, root) ∈ b.references)
    {hint : NodeId → String} (hm : s.ChoicesMet s.root)
    (hhint : ∃ k, b.enmOf s.root =
        Naming.Allocator.candidate (Naming.className (hint s.root) "Enum") k ∧
      ∀ j < k, ∃ o, o ≠ s.root ∧ b.resolver.names.owner?
        (Naming.Allocator.candidate (Naming.className (hint s.root) "Enum") j) = some o) :
    b.enmOf s.root = b.refOf s.root ↔ s.RootNamedTwice b.refOf b.enmOf hint := by
  obtain ⟨k, hk, hbefore⟩ := hhint
  have hobject := h.owner?_refOf hroot (.inl rfl : s.ObjectMet s.root)
  have hchoices := h.owner?_enmOf hroot hm
  constructor
  · intro he
    refine ⟨hm, k, hk ▸ he, fun j hj => ?_⟩
    obtain ⟨o, hne, ho⟩ := hbefore j hj
    exact ⟨o, hne, (h.owner?_iff hroot).mp ho⟩
  · rintro ⟨-, k', hk', hbefore'⟩
    -- both searches pass over names of others only, so neither can pass over the end of the other
    obtain hlt | rfl | hlt := Nat.lt_trichotomy k k'
    · obtain ⟨o, hne, ho⟩ := hbefore' k hlt
      rw [← hk] at ho
      rw [(h.owner?_iff hroot).mpr ho] at hchoices
      exact absurd (Option.some.inj hchoices) hne
    · exact hk.trans hk'
    · obtain ⟨o, hne, ho⟩ := hbefore k' hlt
      rw [hk', hobject] at ho
      exact absurd (Option.some.inj ho).symm hne

/-- The only name that a generated type and an enumerated type can share is that of the root. -/
theorem Inv.shared_iff (h : b.Inv s settings []) (hroot : (s.root, root) ∈ b.references)
    (name : String) :
    (name ∈ (b.finish root).types.map (·.name) ∧ name ∈ (b.finish root).enums.map (·.name)) ↔
      name = root ∧ s.ChoicesMet s.root ∧ b.enmOf s.root = b.refOf s.root := by
  have htypes := h.bijOn_types hroot
  have henums := h.bijOn_enums hroot
  constructor
  · rintro ⟨ht, he⟩
    obtain ⟨id, hm, rfl⟩ := htypes.surjOn ht
    obtain ⟨id', hm', hn⟩ := henums.surjOn he
    obtain ⟨rfl, rfl⟩ := h.eq_root_of_shared hroot hm hm' hn.symm
    exact ⟨h.refOf_eq hroot, hm', hn⟩
  · rintro ⟨rfl, hm, hn⟩
    rw [h.refOf_eq hroot] at hn
    exact ⟨h.refOf_eq hroot ▸ htypes.mapsTo (.inl rfl : s.ObjectMet s.root),
      hn ▸ henums.mapsTo hm⟩

end Building

namespace Generation

variable {s : Schema} {settings : Settings} {name : String} {g : Generation}

/-- No class is defined twice just when no name is shared. -/
theorem Represents.nodup_iff {ref enm : NodeId → String} (h : g.Represents s settings ref enm) :
    (g.enums.map (·.name) ++ g.types.map (·.name)).Nodup ↔
      ∀ n, ¬ (n ∈ g.types.map (·.name) ∧ n ∈ g.enums.map (·.name)) := by
  rw [List.nodup_append]
  constructor
  · rintro ⟨-, -, hd⟩ n ⟨ht, he⟩
    exact hd n he n ht rfl
  · intro hd
    refine ⟨h.enumsOnce, h.typesOnce, ?_⟩
    rintro n he _ ht rfl
    exact hd n ⟨ht, he⟩

/-- A name is shared, and its class defined twice, just when the root is handed its name again. -/
theorem shared_name_iff (h : ofSchema s settings name = .ok g) :
    ∃ ref enm hint, ref s.root = Naming.className name ∧ g.Represents s settings ref enm ∧
      (∀ id, s.ChoicesMet id → s.MetUnder id (hint id)) ∧
      (∀ n, (n ∈ g.types.map (·.name) ∧ n ∈ g.enums.map (·.name)) ↔
        n = Naming.className name ∧ s.RootNamedTwice ref enm hint) ∧
      ∀ text, Emission.moduleText g = .ok text →
        Emission.Defines text (g.enums.map (·.name) ++ g.types.map (·.name)) ∧
        ((g.enums.map (·.name) ++ g.types.map (·.name)).Nodup ↔
          ¬ s.RootNamedTwice ref enm hint) := by
  obtain ⟨b, hinv, hroot, rfl⟩ := ofSchema_ok h
  obtain ⟨hint, hhint⟩ := hinv.exists_hint hroot
  have hrep := hinv.represents hroot
  have hshared : ∀ n, (n ∈ (b.finish (Naming.className name)).types.map (·.name) ∧
      n ∈ (b.finish (Naming.className name)).enums.map (·.name)) ↔
        n = Naming.className name ∧ s.RootNamedTwice b.refOf b.enmOf hint := by
    intro n
    rw [hinv.shared_iff hroot]
    refine and_congr_right fun _ => ⟨fun ⟨hm, hn⟩ => ?_, fun ht => ⟨ht.met, ?_⟩⟩
    · exact (hinv.enmOf_root_iff hroot hm (hhint _ hm).2).mp hn
    · exact (hinv.enmOf_root_iff hroot ht.met (hhint _ ht.met).2).mpr ht
  refine ⟨b.refOf, b.enmOf, hint, hinv.refOf_eq hroot, hrep, fun id hm => (hhint id hm).1, hshared,
    fun text ht => ⟨Emission.defines_moduleText ht, ?_⟩⟩
  rw [hrep.nodup_iff]
  constructor
  · exact fun hd htwice => hd _ ((hshared _).mpr ⟨rfl, htwice⟩)
  · exact fun hnot n hn => hnot ((hshared n).mp hn).2

/-- A root with choices that has itself as a property of its own name. -/
def selfNamed : Schema :=
  { nodes := #[{ kind := .text "object", enum := some [.text "a"],
                 properties := some [("root", some 0)] }]
    root := 0 }

theorem shared_name_iff_selfNamed : ∃ g, ofSchema selfNamed {} "Root" = .ok g ∧
    g.types.map (·.name) = ["Root"] ∧ g.enums.map (·.name) = ["Root"] ∧
    ∃ ref enm hint, ref selfNamed.root = Naming.className "Root" ∧
      g.Represents selfNamed {} ref enm ∧
      (∀ id, selfNamed.ChoicesMet id → selfNamed.MetUnder id (hint id)) ∧
      (∀ n, (n ∈ g.types.map (·.name) ∧ n ∈ g.enums.map (·.name)) ↔
        n = Naming.className "Root" ∧ selfNamed.RootNamedTwice ref enm hint) ∧
      ∀ text, Emission.moduleText g = .ok text →
        Emission.Defines text (g.enums.map (·.name) ++ g.types.map (·.name)) ∧
        ((g.enums.map (·.name) ++ g.types.map (·.name)).Nodup ↔
          ¬ selfNamed.RootNamedTwice ref enm hint) := by
  obtain ⟨g, hg, hnames⟩ := exists_of_names selfNamed {} "Root" ["Root"] ["Root"]
    (by decide +kernel)
  exact ⟨g, hg, hnames.1, hnames.2, shared_name_iff hg⟩

/-- Generated types and enumerated types do not always have names of their own. -/
theorem not_disjoint_names : ¬ ∀ (s : Schema) (settings : Settings) (name : String)
    (g : Generation), ofSchema s settings name = .ok g →
      ∀ n ∈ g.types.map (·.name), n ∉ g.enums.map (·.name) := by
  intro hall
  obtain ⟨g, hg, htypes, henums⟩ := exists_of_names selfNamed {} "Root" ["Root"] ["Root"]
    (by decide +kernel)
  have := hall selfNamed {} "Root" g hg "Root"
  simp [htypes, henums] at this

end Generation
end SchemaModel
