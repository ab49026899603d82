import Mathlib.Data.Set.Function
import SchemaModel.Proofs.Generation.Invariant

/-!
The result of a generation represents the schema: the objects that are met correspond one to one to
the generated types, the met nodes with choices to the enumerated types, and every type describes
the properties of its object with references and enumerated types in place of nodes.
-/
namespace SchemaModel

namespace Generation

/-- A generation whose types and enumerated types are called `ref id` and `enm id` represents the
nodes that are met. -/
structure Represents (g : Generation) (s : Schema) (settings : Settings)
    (ref enm : NodeId → String) : Prop where
  types : Set.BijOn ref {id | s.ObjectMet id} {name | name ∈ g.types.map (·.name)}
  typesOnce : (g.types.map (·.name)).Nodup
  enums : Set.BijOn enm {id | s.ChoicesMet id} {name | name ∈ g.enums.map (·.name)}
  enumsOnce : (g.enums.map (·.name)).Nodup
  /-- The type of an object has one property for each that is declared, in order. -/
  described : ∀ id, s.ObjectMet id → ∃ t, g.type? (ref id) = some t ∧
    t.description = Building.documentation ((s.node? id).getD {}) ∧
    List.Forall₂ (s.Describes settings ref enm) (s.propertiesOf id) t.properties
  /-- The enumerated type that the rules of precedence name is the one that is generated. -/
  enumerated : ∀ id, s.ChoicesMet id → ∃ n l ls t, s.node? id = some n ∧ n.enum = some (l :: ls) ∧
    Enumeration.type (enm id) (l :: ls) = .ok t ∧ t ∈ g.enums
  root : g.type? (ref s.root) = some g.root
  /-- The root type stands at the end. -/
  rootLast : g.types.getLast? = some g.root

end Generation

namespace Building

variable {s : Schema} {settings : Settings} {pending : List NodeId} {b : Building} {root : String}

/-! ## Nothing is missed -/

theorem Inv.covers (h : b.Inv s settings []) {id : NodeId} {name : String}
    (hm : (id, name) ∈ b.references) {entry : String × Option NodeId}
    (he : entry ∈ s.propertiesOf id) : b.Covers s entry.2 := by
  obtain ⟨t, -, -, -, hd⟩ := h.typed id name hm
  exact (hd List.not_mem_nil).covered entry he

/-- When no description is pending, all that is met is named. -/
theorem Inv.covers_of_met (h : b.Inv s settings []) (hroot : (s.root, root) ∈ b.references)
    {id : NodeId} (hm : s.Met id) : b.Covers s (some id) := by
  induction hm with
  | ofRoot hn hp => exact h.covers hroot (Schema.mem_propertiesOf hn hp)
  | ofObject _ hn hk hp ih =>
    -- an object that is met has a type by induction, and that type covers its properties
    obtain ⟨name, hname⟩ := ih.objects _ _ .self hn hk
    exact h.covers hname (Schema.mem_propertiesOf hn hp)
  | ofItems _ hn hk hi ih =>
    exact
      { objects := fun id n hl => ih.objects id n (.items hn hk (hi ▸ hl))
        choices := fun id n hl => ih.choices id n (.items hn hk (hi ▸ hl)) }

theorem Inv.named_of_objectMet (h : b.Inv s settings []) (hroot : (s.root, root) ∈ b.references)
    {id : NodeId} (hm : s.ObjectMet id) : ∃ name, (id, name) ∈ b.references := by
  obtain rfl | ⟨hmet, n, hn, hk⟩ := hm
  · exact ⟨root, hroot⟩
  · exact (h.covers_of_met hroot hmet).objects id n .self hn hk

theorem Inv.named_of_choicesMet (h : b.Inv s settings []) (hroot : (s.root, root) ∈ b.references)
    {id : NodeId} (hm : s.ChoicesMet id) : ∃ t, (id, t) ∈ b.resolver.enumOf := by
  obtain ⟨hmet, n, hn, hc⟩ := hm
  exact (h.covers_of_met hroot hmet).choices id n .self hn hc

theorem Inv.choicesMet (h : b.Inv s settings pending) {id : NodeId} {t : EnumType}
    (hm : (id, t) ∈ b.resolver.enumOf) : s.ChoicesMet id := by
  obtain ⟨n, l, ls, hn, hc, -⟩ := h.choices.type id t hm
  obtain ⟨hint, k, hu, -⟩ := h.choices.hinted id t hm
  exact ⟨hu.met, n, hn, l, ls, hc⟩

/-! ## Names are unique -/

theorem Inv.names_nodup (h : b.Inv s settings pending) : (b.references.map (·.2)).Nodup := by
  refine List.Nodup.map_on (fun e he e' he' hn => ?_) (.of_map _ h.once)
  have hm : (e'.1, e.2) ∈ b.references := by
    rw [hn]
    exact he'
  exact Prod.ext (h.id_eq_of_name he hm) hn

theorem Inv.keys_nodup (h : b.Inv s settings pending) : (b.types.map (·.1)).Nodup := by
  rw [h.keys]
  exact List.nodup_reverse.mpr h.names_nodup

theorem Inv.name_of_mem_types (h : b.Inv s settings pending) {name : String} {t : GeneratedType}
    (hm : (name, t) ∈ b.types) : t.name = name := by
  have hk : name ∈ (b.references.map (·.2)).reverse :=
    h.keys ▸ List.mem_map.mpr ⟨(name, t), hm, rfl⟩
  obtain ⟨⟨id, _⟩, he, rfl⟩ := List.mem_map.mp (List.mem_reverse.mp hk)
  obtain ⟨u, hu, hname, -⟩ := h.typed id _ he
  have := Tables.lookup_of_mem h.keys_nodup hm
  rw [Tables.lookup_of_mem h.keys_nodup hu] at this
  cases this
  exact hname

/-! ## The result -/

theorem Inv.finish_names (h : b.Inv s settings pending) (hroot : (s.root, root) ∈ b.references) :
    (b.finish root).types.map (·.name) =
      (b.references.map (·.2)).reverse.filter (· ≠ root) ++ [root] := by
  obtain ⟨t, ht, hname, -⟩ := h.typed s.root root hroot
  -- the other types keep the order in which they were registered
  have hother : (b.types.filter fun e => e.1 ≠ root).map (fun e => e.2.name) =
      (b.types.filter fun e => e.1 ≠ root).map (·.1) :=
    List.map_congr_left fun e he => h.name_of_mem_types (List.mem_filter.mp he).1
  simp only [finish, Tables.lookup_of_mem h.keys_nodup ht, Option.getD_some, List.map_append,
    List.map_map, List.map_cons, List.map_nil, hname, ← h.keys, List.filter_map]
  exact congrArg (· ++ [root]) hother

theorem Inv.mem_finish_names (h : b.Inv s settings pending)
    (hroot : (s.root, root) ∈ b.references) (name : String) :
    name ∈ (b.finish root).types.map (·.name) ↔ ∃ id, (id, name) ∈ b.references := by
  rw [h.finish_names hroot]
  by_cases hn : name = root
  · subst hn
    simpa using ⟨_, hroot⟩
  · simp [hn]

theorem Inv.finish_nodup (h : b.Inv s settings pending) (hroot : (s.root, root) ∈ b.references) :
    ((b.finish root).types.map (·.name)).Nodup := by
  rw [h.finish_names hroot, List.nodup_append]
  refine ⟨(List.nodup_reverse.mpr h.names_nodup).filter _, List.nodup_singleton root, ?_⟩
  intro name hn name' hn' he
  rw [List.mem_singleton.mp hn'] at he
  simpa [he] using (List.mem_filter.mp hn).2

theorem Inv.finish_enums (h : b.Inv s settings pending) :
    (b.finish root).enums = b.resolver.enumOf.map (·.2) := by
  simp [finish, h.choices.listed]

/-- The types of all objects are in the result. -/
theorem Inv.type?_finish (h : b.Inv s settings pending) (hroot : (s.root, root) ∈ b.references)
    {name : String} {t : GeneratedType} (ht : (name, t) ∈ b.types) :
    (b.finish root).type? name = some t := by
  have hmem : t ∈ (b.finish root).types := by
    by_cases hn : name = root
    · subst hn
      simp [finish, Tables.lookup_of_mem h.keys_nodup ht]
    · exact List.mem_append_left _ (List.mem_map.mpr ⟨(name, t), by simpa [hn] using ht, rfl⟩)
  rw [← h.name_of_mem_types ht]
  exact Tables.find?_of_mem (h.finish_nodup hroot) hmem

/-- The names that objects were given. -/
def refOf (b : Building) (id : NodeId) : String := (b.references.lookup id).getD ""

/-- The names that enumerated types were given. -/
def enmOf (b : Building) (id : NodeId) : String :=
  ((b.resolver.enumOf.lookup id).map (·.name)).getD ""

theorem Inv.refOf_eq (h : b.Inv s settings pending) {id : NodeId} {name : String}
    (hm : (id, name) ∈ b.references) : b.refOf id = name := by
  rw [refOf, Tables.lookup_of_mem h.once hm]
  rfl

theorem Inv.enmOf_eq (h : b.Inv s settings pending) {id : NodeId} {t : EnumType}
    (hm : (id, t) ∈ b.resolver.enumOf) : b.enmOf id = t.name := by
  rw [enmOf, Tables.lookup_of_mem h.choices.once hm]
  rfl

theorem Inv.named (h : b.Inv s settings pending) : b.Named b.refOf b.enmOf :=
  ⟨fun _ _ hm => h.refOf_eq hm, fun _ _ hm => h.enmOf_eq hm⟩

theorem Inv.bijOn_types (h : b.Inv s settings []) (hroot : (s.root, root) ∈ b.references) :
    Set.BijOn b.refOf {id | s.ObjectMet id} {name | name ∈ (b.finish root).types.map (·.name)} := by
  refine ⟨fun id hm => ?_, fun id hm id' hm' hn => ?_, fun name hname => ?_⟩
  · obtain ⟨name, hname⟩ := h.named_of_objectMet hroot hm
    exact (h.mem_finish_names hroot _).mpr ⟨id, (h.refOf_eq hname).symm ▸ hname⟩
  · obtain ⟨name, hname⟩ := h.named_of_objectMet hroot hm
    obtain ⟨name', hname'⟩ := h.named_of_objectMet hroot hm'
    rw [h.refOf_eq hname, h.refOf_eq hname'] at hn
    exact h.id_eq_of_name hname (hn ▸ hname')
  · obtain ⟨id, hid⟩ := (h.mem_finish_names hroot name).mp hname
    exact ⟨id, h.met id name hid, h.refOf_eq hid⟩

theorem Inv.bijOn_enums (h : b.Inv s settings []) (hroot : (s.root, root) ∈ b.references) :
    Set.BijOn b.enmOf {id | s.ChoicesMet id}
      {name | name ∈ (b.finish root).enums.map (·.name)} := by
  rw [h.finish_enums]
  refine ⟨fun id hm => ?_, fun id hm id' hm' hn => ?_, fun name hname => ?_⟩
  · obtain ⟨t, ht⟩ := h.named_of_choicesMet hroot hm
    exact List.mem_map.mpr ⟨t, List.mem_map.mpr ⟨(id, t), ht, rfl⟩, (h.enmOf_eq ht).symm⟩
  · obtain ⟨t, ht⟩ := h.named_of_choicesMet hroot hm
    obtain ⟨t', ht'⟩ := h.named_of_choicesMet hroot hm'
    rw [h.enmOf_eq ht, h.enmOf_eq ht'] at hn
    exact h.choices.sound.id_eq_of_name ht ht' hn
  · obtain ⟨t, ht, rfl⟩ := List.mem_map.mp hname
    obtain ⟨⟨id, _⟩, he, rfl⟩ := List.mem_map.mp ht
    exact ⟨id, h.choicesMet he, h.enmOf_eq he⟩

theorem Inv.represents (h : b.Inv s settings []) (hroot : (s.root, root) ∈ b.references) :
    (b.finish root).Represents s settings b.refOf b.enmOf := by
  obtain ⟨rootType, hrootType, -⟩ := h.typed s.root root hroot
  have hr : (b.finish root).root = rootType := by
    simp [finish, Tables.lookup_of_mem h.keys_nodup hrootType]
  exact
    { types := h.bijOn_types hroot
      typesOnce := h.finish_nodup hroot
      enums := h.bijOn_enums hroot
      enumsOnce := by
        rw [h.finish_enums, List.map_map]
        exact h.choices.sound.names_nodup
      described := fun id hm => by
        obtain ⟨name, hname⟩ := h.named_of_objectMet hroot hm
        obtain ⟨t, ht, -, hdoc, hd⟩ := h.typed id name hname
        rw [h.refOf_eq hname]
        exact ⟨t, h.type?_finish hroot ht, hdoc,
          (hd List.not_mem_nil).properties _ _ h.named⟩
      enumerated := fun id hm => by
        obtain ⟨t, ht⟩ := h.named_of_choicesMet hroot hm
        obtain ⟨n, l, ls, hn, hc, htype⟩ := h.choices.type id t ht
        rw [h.enmOf_eq ht, h.finish_enums]
        exact ⟨n, l, ls, t, hn, hc, htype, List.mem_map.mpr ⟨(id, t), ht, rfl⟩⟩
      root := by
        rw [h.refOf_eq hroot, hr]
        exact h.type?_finish hroot hrootType
      rootLast := by simp [finish] }

end Building

namespace Generation

variable {s : Schema} {settings : Settings} {name : String} {g : Generation}

/-- A successful generation ends with nothing pending and the root under its own name. -/
theorem ofSchema_ok (h : ofSchema s settings name = .ok g) :
    ∃ b : Building, b.Inv s settings [] ∧ (s.root, Naming.className name) ∈ b.references ∧
      g = b.finish (Naming.className name) := by
  obtain ⟨b, hb, rfl⟩ := exists_built h
  obtain ⟨hinv, -, hroot⟩ := Building.object_keeps _ [] _ _ _ _ b .empty (.inl rfl) hb
  exact ⟨b, hinv, hroot, rfl⟩

/-- Every generation represents its schema, whatever is shared in it or refers back to itself. -/
theorem exists_represents (h : ofSchema s settings name = .ok g) :
    ∃ ref enm, ref s.root = Naming.className name ∧ g.Represents s settings ref enm := by
  obtain ⟨b, hinv, hroot, rfl⟩ := ofSchema_ok h
  exact ⟨b.refOf, b.enmOf, hinv.refOf_eq hroot, hinv.represents hroot⟩

/-- Every generated type describes the properties of an object. -/
theorem Represents.exists_object {ref enm : NodeId → String}
    (h : g.Represents s settings ref enm) {t : GeneratedType} (ht : t ∈ g.types) :
    ∃ id, s.ObjectMet id ∧
      List.Forall₂ (s.Describes settings ref enm) (s.propertiesOf id) t.properties := by
  obtain ⟨id, hid, hname⟩ := h.types.surjOn (List.mem_map.mpr ⟨t, ht, rfl⟩)
  obtain ⟨t', ht', -, hall⟩ := h.described id hid
  -- a name is that of one type only
  rw [hname, type?, Tables.find?_of_mem h.typesOnce ht] at ht'
  cases ht'
  exact ⟨id, hid, hall⟩

/-- What a generation gives, found by running it. -/
theorem exists_of_run {α : Type} (s : Schema) (settings : Settings) (name : String)
    (f : Generation → α) (x : α) (h : (ofSchema s settings name).toOption.map f = some x) :
    ∃ g, ofSchema s settings name = .ok g ∧ f g = x := by
  cases hg : ofSchema s settings name with
  | error e =>
    rw [hg] at h
    cases h
  | ok g =>
    rw [hg] at h
    cases h
    exact ⟨g, rfl, rfl⟩

/-- The names that a generation uses, found by running it. -/
theorem exists_of_names (s : Schema) (settings : Settings) (name : String)
    (types enums : List String)
    (h : (ofSchema s settings name).toOption.map
      (fun g => (g.types.map (·.name), g.enums.map (·.name))) = some (types, enums)) :
    ∃ g, ofSchema s settings name = .ok g ∧ g.types.map (·.name) = types ∧
      g.enums.map (·.name) = enums := by
  obtain ⟨g, hg, hnames⟩ := exists_of_run s settings name _ _ h
  cases hnames
  exact ⟨g, hg, rfl, rfl⟩

/-- People who refer to each other and share their moods. -/
def people : Schema :=
  { nodes := #[
      { kind := .text "object"
        properties := some [("partner", some 1), ("friends", some 2), ("mood", some 3)] },
      { kind := .text "object"
        properties := some [("partner", some 0), ("moods", some 4), ("nick-name", none)] },
      { kind := .text "array", unique := true, items := some 1 },
      { enum := some [.text "good", .text "bad"], default := some (.text "bad") },
      { kind := .text "array", items := some 3 }]
    root := 0 }

theorem exists_represents_people : ∃ g, ofSchema people {} "person" = .ok g ∧
    g.types.map (·.name) = ["Partner", "Person"] ∧ g.enums.map (·.name) = ["Moods"] ∧
    ∃ ref enm, ref people.root = Naming.className "person" ∧ g.Represents people {} ref enm := by
  obtain ⟨g, hg, hnames⟩ := exists_of_names people {} "person" ["Partner", "Person"] ["Moods"]
    (by decide +kernel)
  exact ⟨g, hg, hnames.1, hnames.2, exists_represents hg⟩

end Generation
end SchemaModel
