import Mathlib.Data.List.Forall2
import Mathlib.Data.List.Nodup
import SchemaModel.Proofs.Enumeration
import SchemaModel.Proofs.Generation.Steps
import SchemaModel.Proofs.Naming.Allocator
import SchemaModel.Proofs.Naming.Fields
import SchemaModel.Proofs.Resolution.Precedence

/-!
What every state of a generation satisfies. Objects that are met are registered under names of
their own before their properties are described; `pending` lists the objects whose properties are
being described. All others have a type that describes them as the rules of precedence say, and
whatever their properties lead to is registered as well.
-/
namespace SchemaModel

namespace Schema

/-- The nodes that resolution meets: those of the properties of the root and of objects that are
met, and the items of arrays that are met. -/
inductive Met (s : Schema) : NodeId → Prop
  | ofRoot {n name id} (hn : s.node? s.root = some n) (hp : (name, some id) ∈ n.propertyList) :
      Met s id
  | ofObject {o n name id} (ho : Met s o) (hn : s.node? o = some n)
      (hk : n.KindDecides (some .object)) (hp : (name, some id) ∈ n.propertyList) : Met s id
  | ofItems {a n id} (ha : Met s a) (hn : s.node? a = some n) (hk : n.KindDecides (some .array))
      (hi : n.items = some id) : Met s id

/-- The objects that resolution meets. The root is taken for one whatever it declares. -/
def ObjectMet (s : Schema) (id : NodeId) : Prop :=
  id = s.root ∨ (s.Met id ∧ ∃ n, s.node? id = some n ∧ n.KindDecides (some .object))

/-- The nodes with choices that resolution meets. -/
def ChoicesMet (s : Schema) (id : NodeId) : Prop :=
  s.Met id ∧ ∃ n, s.node? id = some n ∧ n.HasChoices

/-- The declared properties of a node. -/
def propertiesOf (s : Schema) (id : NodeId) : List (String × Option NodeId) :=
  ((s.node? id).getD {}).propertyList

/-- A property of an object that is met leads to the node. The name of the property is the hint under
which the node is met. -/
def MetUnder (s : Schema) (id : NodeId) (hint : String) : Prop :=
  ∃ o place, s.ObjectMet o ∧ (hint, place) ∈ s.propertiesOf o ∧ s.Leads place id

/-- A property is described as it is declared: its name, default and documentation are those of the
declaration, and its type is what the rules of precedence say. -/
structure Describes (s : Schema) (settings : Settings) (ref enm : NodeId → String)
    (entry : String × Option NodeId) (p : Property) : Prop where
  name : p.name = entry.1
  field : p.field = Naming.fieldName entry.1
  type : s.HasType settings ref enm entry.2 p.type
  literal : p.literal = (entry.2.bind s.node?).bind (·.default)
  default : synthesize p.name p.type p.literal = .ok p.default
  description : p.description = ((entry.2.bind s.node?).map (·.description)).getD .null

variable {s : Schema}

theorem Met.ofLeads {place : Option NodeId} {id : NodeId} (hl : s.Leads place id)
    (h : ∀ a, place = some a → s.Met a) : s.Met id := by
  induction hl with
  | self => exact h _ rfl
  | items hn hk _ ih => exact ih fun a ha => .ofItems (h _ rfl) hn hk ha

theorem mem_propertiesOf {id : NodeId} {n : SchemaNode} {entry : String × Option NodeId}
    (hn : s.node? id = some n) (hp : entry ∈ n.propertyList) : entry ∈ s.propertiesOf id := by
  rw [propertiesOf, hn]
  exact hp

theorem ObjectMet.property {o : NodeId} {name : String} {a : NodeId} (ho : s.ObjectMet o)
    (hp : (name, some a) ∈ s.propertiesOf o) : s.Met a := by
  cases hn : s.node? o with
  | none => simp [propertiesOf, hn, SchemaNode.propertyList] at hp
  | some n =>
    rw [propertiesOf, hn, Option.getD_some] at hp
    obtain rfl | ⟨hm, m, hm', hk⟩ := ho
    · exact .ofRoot hn hp
    · rw [hn] at hm'
      cases hm'
      exact .ofObject hm hn hk hp

theorem MetUnder.met {id : NodeId} {hint : String} (h : s.MetUnder id hint) : s.Met id := by
  obtain ⟨o, place, ho, he, hl⟩ := h
  refine .ofLeads hl ?_
  rintro a rfl
  exact ho.property he

end Schema

namespace Resolver

/-- What holds of the enumerated types of a generation. -/
structure Inv (r : Resolver) (s : Schema) : Prop where
  /-- The name of an enumerated type belongs to its node. -/
  owned : ∀ id t, (id, t) ∈ r.enumOf → r.names.owner? t.name = some id
  once : (r.enumOf.map (·.1)).Nodup
  listed : r.enums = r.enumOf.map fun e => (e.2.name, e.2)
  type : ∀ id t, (id, t) ∈ r.enumOf → ∃ n l ls, s.node? id = some n ∧ n.enum = some (l :: ls) ∧
    Enumeration.type t.name (l :: ls) = .ok t
  /-- The name is made from a hint; candidates before it belong to others. -/
  hinted : ∀ id t, (id, t) ∈ r.enumOf → ∃ hint k, s.MetUnder id hint ∧
    t.name = Naming.Allocator.candidate (Naming.className hint "Enum") k ∧
    ∀ j < k, ∃ o, o ≠ id ∧
      r.names.owner? (Naming.Allocator.candidate (Naming.className hint "Enum") j) = some o

theorem Inv.empty {s : Schema} : Resolver.empty.Inv s := by
  constructor <;> simp [Resolver.empty]

end Resolver

namespace Building

/-- Names that agree with those given out so far. -/
structure Named (b : Building) (ref enm : NodeId → String) : Prop where
  objects : ∀ id name, (id, name) ∈ b.references → ref id = name
  choices : ∀ id t, (id, t) ∈ b.resolver.enumOf → enm id = t.name

/-- Whatever a place leads to has its name. -/
structure Covers (b : Building) (s : Schema) (place : Option NodeId) : Prop where
  objects : ∀ id n, s.Leads place id → s.node? id = some n → n.KindDecides (some .object) →
    ∃ name, (id, name) ∈ b.references
  choices : ∀ id n, s.Leads place id → s.node? id = some n → n.HasChoices →
    ∃ t, (id, t) ∈ b.resolver.enumOf

/-- Nothing that was named is forgotten. -/
structure Grows (b b' : Building) : Prop where
  references : b.references ⊆ b'.references
  enumOf : b.resolver.enumOf ⊆ b'.resolver.enumOf

/-- A type holds all that its object declares. -/
structure Described (b : Building) (s : Schema) (settings : Settings) (id : NodeId)
    (t : GeneratedType) : Prop where
  properties : ∀ ref enm, b.Named ref enm →
    List.Forall₂ (s.Describes settings ref enm) (s.propertiesOf id) t.properties
  covered : ∀ entry ∈ s.propertiesOf id, b.Covers s entry.2

/-- The invariant of a generation. -/
structure Inv (b : Building) (s : Schema) (settings : Settings) (pending : List NodeId) : Prop where
  choices : b.resolver.Inv s
  /-- The name of an object belongs to it. -/
  owned : ∀ id name, (id, name) ∈ b.references → b.resolver.names.owner? name = some id
  /-- Every name that has an owner is that of a type. -/
  used : ∀ id name, b.resolver.names.owner? name = some id →
    (id, name) ∈ b.references ∨ ∃ t, (id, t) ∈ b.resolver.enumOf ∧ t.name = name
  once : (b.references.map (·.1)).Nodup
  /-- Types stand in the order in which their objects were met. -/
  keys : b.types.map (·.1) = (b.references.map (·.2)).reverse
  met : ∀ id name, (id, name) ∈ b.references → s.ObjectMet id
  typed : ∀ id name, (id, name) ∈ b.references → ∃ t, (name, t) ∈ b.types ∧ t.name = name ∧
    t.description = documentation ((s.node? id).getD {}) ∧
    (id ∉ pending → b.Described s settings id t)

variable {s : Schema} {settings : Settings} {pending : List NodeId} {b b' b'' : Building}

theorem Grows.refl (b : Building) : b.Grows b := ⟨fun _ h => h, fun _ h => h⟩

theorem Grows.trans (h : b.Grows b') (h' : b'.Grows b'') : b.Grows b'' :=
  ⟨fun _ hx => h'.references (h.references hx), fun _ hx => h'.enumOf (h.enumOf hx)⟩

theorem Named.before {ref enm : NodeId → String} (h : b'.Named ref enm) (hg : b.Grows b') :
    b.Named ref enm :=
  ⟨fun id name hm => h.objects id name (hg.references hm),
   fun id t hm => h.choices id t (hg.enumOf hm)⟩

theorem Covers.after {place : Option NodeId} (h : b.Covers s place) (hg : b.Grows b') :
    b'.Covers s place :=
  ⟨fun id n hl hn hk => (h.objects id n hl hn hk).imp fun _ hm => hg.references hm,
   fun id n hl hn hc => (h.choices id n hl hn hc).imp fun _ hm => hg.enumOf hm⟩

theorem Described.after {id : NodeId} {t : GeneratedType} (h : b.Described s settings id t)
    (hg : b.Grows b') : b'.Described s settings id t :=
  ⟨fun ref enm hn => h.properties ref enm (hn.before hg),
   fun entry he => (h.covered entry he).after hg⟩

theorem Inv.empty : Inv empty s settings pending := by
  constructor
  case choices => exact Resolver.Inv.empty
  all_goals simp [Building.empty, Resolver.empty, Naming.Allocator.empty, Naming.Allocator.owner?]

/-- Two objects never share a name. -/
theorem Inv.id_eq_of_name (h : b.Inv s settings pending) {id id' : NodeId} {name : String}
    (hm : (id, name) ∈ b.references) (hm' : (id', name) ∈ b.references) : id = id' := by
  have := (h.owned id name hm).symm.trans (h.owned id' name hm')
  exact Option.some.inj this

theorem Inv.name_eq_of_id (h : b.Inv s settings pending) {id : NodeId} {name name' : String}
    (hm : (id, name) ∈ b.references) (hm' : (id, name') ∈ b.references) : name = name' :=
  congrArg Prod.snd (List.inj_on_of_nodup_map h.once hm hm' rfl)

end Building

/-! ## Steps -/

namespace Resolver

variable {s : Schema} {r : Resolver}

theorem Inv.sound (h : r.Inv s) : r.Sound s := ⟨h.owned, h.once, h.listed, h.type⟩

/-- What holds of any resolver and of the hints of a generation. -/
theorem Sound.inv (h : r.Sound s) (hinted : ∀ id t, (id, t) ∈ r.enumOf → ∃ hint k,
    s.MetUnder id hint ∧ t.name = Naming.Allocator.candidate (Naming.className hint "Enum") k ∧
    ∀ j < k, ∃ o, o ≠ id ∧
      r.names.owner? (Naming.Allocator.candidate (Naming.className hint "Enum") j) = some o) :
    r.Inv s :=
  ⟨h.owned, h.once, h.listed, h.type, hinted⟩

theorem Inv.allocated (h : r.Inv s) (base : String) (who : NodeId) :
    (r.allocated base who).Inv s := by
  refine (h.sound.allocated base who).inv fun id t hm => ?_
  obtain ⟨hint, k, hu, hname, hbefore⟩ := h.hinted id t hm
  refine ⟨hint, k, hu, hname, fun j hj => ?_⟩
  obtain ⟨o, hne, ho⟩ := hbefore j hj
  exact ⟨o, hne, Naming.Allocator.owner?_allocate_of_owner? ho base who⟩

/-- A node with choices that is new gets an enumerated type of its own. -/
theorem Inv.enumerated (h : r.Inv s) {id : NodeId} {n : SchemaNode} {l : Literal}
    {ls : List Literal} {hint : String} {t : EnumType} (hu : s.MetUnder id hint)
    (hn : s.node? id = some n) (hc : n.enum = some (l :: ls)) (hnew : r.enumOf.lookup id = none)
    (ht : Enumeration.type (r.names.allocate (Naming.className hint "Enum") id).1 (l :: ls) =
      .ok t) :
    (r.enumerated (Naming.className hint "Enum") id t).Inv s := by
  refine (h.sound.enumerated hn hc hnew ht).inv fun id' t' hm' => ?_
  obtain hm' | hm' := List.mem_append.mp hm'
  · exact (h.allocated (Naming.className hint "Enum") id).hinted id' t' hm'
  · cases List.mem_singleton.mp hm'
    obtain ⟨k, hk, hbefore⟩ :=
      Naming.Allocator.allocate_passes r.names (Naming.className hint "Enum") id
    refine ⟨hint, k, hu, (Enumeration.name_of_type ht).trans hk, fun j hj => ?_⟩
    obtain ⟨o, hne, ho⟩ := hbefore j hj
    exact ⟨o, hne, Naming.Allocator.owner?_allocate_of_owner? ho _ id⟩

end Resolver

namespace Building

variable {s : Schema} {settings : Settings} {pending : List NodeId} {b b' : Building}

/-- What a step of the resolver must leave as it is, and what it may add. -/
theorem Inv.resolver (h : b.Inv s settings pending) {r : Resolver} (hr : r.Inv s)
    (hnames : ∀ name o, b.resolver.names.owner? name = some o → r.names.owner? name = some o)
    (hused : ∀ name o, r.names.owner? name = some o → b.resolver.names.owner? name = some o ∨
      ∃ t, (o, t) ∈ r.enumOf ∧ t.name = name)
    (hsub : b.resolver.enumOf ⊆ r.enumOf) :
    Inv { b with resolver := r } s settings pending ∧ b.Grows { b with resolver := r } := by
  have hg : b.Grows { b with resolver := r } := ⟨fun _ hx => hx, hsub⟩
  refine ⟨?_, hg⟩
  exact
    { choices := hr
      owned := fun id name hm => hnames name id (h.owned id name hm)
      used := fun id name ho => by
        obtain ho | ht := hused name id ho
        · exact (h.used id name ho).imp_right fun ⟨t, hm, hn⟩ => ⟨t, hsub hm, hn⟩
        · exact .inr ht
      once := h.once
      keys := h.keys
      met := h.met
      typed := fun id name hm => by
        obtain ⟨t, ht, hname, hdoc, hd⟩ := h.typed id name hm
        exact ⟨t, ht, hname, hdoc, fun hp => (hd hp).after hg⟩ }

theorem Inv.warned (h : b.Inv s settings pending) (warning : String) :
    Inv { b with resolver := b.resolver.warned warning } s settings pending ∧
      b.Grows { b with resolver := b.resolver.warned warning } :=
  h.resolver ⟨h.choices.owned, h.choices.once, h.choices.listed, h.choices.type, h.choices.hinted⟩
    (fun _ _ ho => ho) (fun _ _ ho => .inl ho) (fun _ hx => hx)

theorem Inv.enumerated (h : b.Inv s settings pending) {id : NodeId} {n : SchemaNode} {l : Literal}
    {ls : List Literal} {hint : String} {t : EnumType} (hu : s.MetUnder id hint)
    (hn : s.node? id = some n) (hc : n.enum = some (l :: ls))
    (hnew : b.resolver.enumOf.lookup id = none)
    (ht : Enumeration.type (b.resolver.names.allocate (Naming.className hint "Enum") id).1
      (l :: ls) = .ok t) :
    Inv { b with resolver := b.resolver.enumerated (Naming.className hint "Enum") id t } s settings
        pending ∧
      b.Grows { b with resolver := b.resolver.enumerated (Naming.className hint "Enum") id t } := by
  refine h.resolver (h.choices.enumerated hu hn hc hnew ht)
    (fun _ _ ho => Naming.Allocator.owner?_allocate_of_owner? ho _ id) (fun name o ho => ?_)
    (fun _ hx => List.mem_append_left _ hx)
  -- the allocation gives an owner to one name only, and that is the name of the new type
  obtain ho | ⟨rfl, rfl⟩ := Naming.Allocator.owner?_of_allocate ho
  · exact .inl ho
  · exact .inr ⟨t, List.mem_append_right _ (List.mem_singleton.mpr rfl),
      Enumeration.name_of_type ht⟩

/-- A new object is registered under a name of its own; its description is pending. -/
theorem Inv.opened (h : b.Inv s settings pending) {id : NodeId} (base : String)
    (hm : s.ObjectMet id) (hnew : b.references.lookup id = none) :
    (b.opened s id base).Inv s settings (id :: pending) ∧ b.Grows (b.opened s id base) := by
  have hid : id ∉ b.references.map (·.1) := Tables.lookup_eq_none_iff.mp hnew
  have hg : b.Grows (b.opened s id base) :=
    ⟨fun _ hx => List.mem_cons_of_mem _ hx, fun _ hx => hx⟩
  refine ⟨?_, hg⟩
  exact
    { choices := h.choices.allocated base id
      owned := fun id' name' hm' => by
        obtain hm' | hm' := List.mem_cons.mp hm'
        · cases hm'
          exact Naming.Allocator.owner?_allocate _ base id
        · exact Naming.Allocator.owner?_allocate_of_owner? (h.owned id' name' hm') base id
      used := fun id' name' ho => by
        obtain ho | ⟨rfl, rfl⟩ := Naming.Allocator.owner?_of_allocate ho
        · exact (h.used id' name' ho).imp_left (List.mem_cons_of_mem _)
        · exact .inl List.mem_cons_self
      once := List.nodup_cons.mpr ⟨hid, h.once⟩
      keys := by simp [Building.opened, Building.register, h.keys]
      met := fun id' name' hm' => by
        obtain hm' | hm' := List.mem_cons.mp hm'
        · cases hm'
          exact hm
        · exact h.met id' name' hm'
      typed := fun id' name' hm' => by
        obtain hm' | hm' := List.mem_cons.mp hm'
        · cases hm'
          exact ⟨_, List.mem_append_right _ (List.mem_singleton.mpr rfl), rfl, rfl,
            fun hp => absurd List.mem_cons_self hp⟩
        · obtain ⟨t, ht, hname, hdoc, hd⟩ := h.typed id' name' hm'
          exact ⟨t, List.mem_append_left _ ht, hname, hdoc,
            fun hp => (hd fun hp' => hp (List.mem_cons_of_mem _ hp')).after hg⟩ }

/-- The properties of a pending object are entered, and it is pending no longer. -/
theorem Inv.describe {id : NodeId} {name : String} {ps : List Property}
    (h : b.Inv s settings (id :: pending)) (hm : (id, name) ∈ b.references)
    (hps : ∀ ref enm, b.Named ref enm →
      List.Forall₂ (s.Describes settings ref enm) (s.propertiesOf id) ps)
    (hcovered : ∀ entry ∈ s.propertiesOf id, b.Covers s entry.2) :
    (b.describe name ps).Inv s settings pending ∧ b.Grows (b.describe name ps) := by
  have hg : b.Grows (b.describe name ps) := ⟨fun _ hx => hx, fun _ hx => hx⟩
  refine ⟨?_, hg⟩
  exact
    { choices := h.choices
      owned := h.owned
      used := h.used
      once := h.once
      keys := by
        refine Eq.trans ?_ h.keys
        simp only [Building.describe, List.map_map]
        refine List.map_congr_left fun e _ => ?_
        simp only [Function.comp]
        split <;> rfl
      met := h.met
      typed := fun id' name' hm' => by
        obtain ⟨t, ht, hname, hdoc, hd⟩ := h.typed id' name' hm'
        -- the entry of the name is the pending type; a name has one object, so no other is touched
        by_cases hn : name' = name
        · subst hn
          cases h.id_eq_of_name hm hm'
          refine ⟨{ t with properties := ps }, ?_, hname, hdoc, fun _ => ?_⟩
          · exact List.mem_map.mpr ⟨(name', t), ht, if_pos rfl⟩
          · exact ⟨fun ref enm hr => hps ref enm (hr.before hg),
              fun entry he => (hcovered entry he).after hg⟩
        · refine ⟨t, List.mem_map.mpr ⟨(name', t), ht, if_neg hn⟩, hname, hdoc, fun hp => ?_⟩
          have hne : id' ≠ id := by
            rintro rfl
            exact hn (h.name_eq_of_id hm' hm)
          exact (hd (by simp [hne, hp])).after hg }

/-! ## Runs -/

/-- The building of objects keeps the invariant and gives a met object its name. -/
def ObjectKeeps (s : Schema) (settings : Settings) (object : NodeId → String → Action String) :
    Prop :=
  ∀ pending id hint name (b b' : Building), b.Inv s settings pending → s.ObjectMet id →
    object id hint b = .ok (name, b') →
    b'.Inv s settings pending ∧ b.Grows b' ∧ (id, name) ∈ b'.references

variable {object : NodeId → String → Action String}

theorem Covers.ofLeaf {place : Option NodeId} {o : Outline} (ho : s.outline? settings place = some o)
    (hobject : ∀ id, o.leaf = .object id → ∃ name, (id, name) ∈ b.references)
    (hchoices : ∀ id literals, o.leaf = .choices id literals →
      ∃ t, (id, t) ∈ b.resolver.enumOf) : b.Covers s place := by
  constructor
  · intro id n hl hn hk
    exact hobject id ((Schema.leaf_of_leads ho hl hn).2.1 hk)
  · rintro id n hl hn ⟨l, ls, hc⟩
    exact hchoices id (l :: ls) ((Schema.leaf_of_leads ho hl hn).1 l ls hc)

/-- A node with choices gets one enumerated type, which is its type from then on. -/
theorem enumType_keeps (h : b.Inv s settings pending) {id : NodeId} {n : SchemaNode} {l : Literal}
    {ls : List Literal} {hint : String} {t : EnumType} {r : Resolver} (hm : s.MetUnder id hint)
    (hn : s.node? id = some n) (hc : n.enum = some (l :: ls))
    (hr : (Resolver.enumType id (l :: ls) hint).run.run b.resolver = (.ok t, r)) :
    Inv { b with resolver := r } s settings pending ∧ b.Grows { b with resolver := r } ∧
      (id, t) ∈ r.enumOf := by
  obtain ⟨hl, rfl⟩ | ⟨hl, ht, rfl⟩ := Resolver.enumType_ok hr
  · exact ⟨h, .refl b, Tables.mem_of_lookup hl⟩
  · obtain ⟨hinv, hg⟩ := h.enumerated hm hn hc hl ht
    exact ⟨hinv, hg, List.mem_append_right _ (List.mem_singleton.mpr rfl)⟩

/-- Resolving a place names all that it leads to and gives the type that the rules say. -/
theorem resolve_keeps (hobj : ObjectKeeps s settings object) (h : b.Inv s settings pending)
    {holder : NodeId} {place : Option NodeId} {hint : String} {t : TargetType}
    (hm : s.ObjectMet holder) (hp : (hint, place) ∈ s.propertiesOf holder)
    (hr : resolve s settings object place hint b = .ok (t, b')) :
    b'.Inv s settings pending ∧ b.Grows b' ∧ b'.Covers s place ∧
      ∀ ref enm, b'.Named ref enm → s.HasType settings ref enm place t := by
  obtain ⟨o, ho, hr⟩ := resolve_ok hr
  have hat := Schema.leafAt_of_outlineFrom ho
  -- only a leaf with choices or an object needs a name, and both get theirs on the way
  cases hl : o.leaf with
  | type u =>
    rw [hl] at hr
    obtain ⟨rfl, rfl⟩ := hr
    refine ⟨h, .refl _, .ofLeaf ho ?_ ?_, fun ref enm _ => .ofOutline ho (by rw [hl]; rfl)⟩
    · simp [hl]
    · simp [hl]
  | unrecognized kind =>
    rw [hl] at hr
    obtain ⟨rfl, rfl⟩ := hr
    obtain ⟨hinv, hg⟩ := h.warned (Resolver.unrecognizedWarning kind hint)
    refine ⟨hinv, hg, .ofLeaf ho ?_ ?_, fun ref enm _ => .ofOutline ho (by rw [hl]; rfl)⟩
    · simp [hl]
    · simp [hl]
  | choices id literals =>
    rw [hl] at hr hat
    obtain ⟨hleads, n, l, ls, hn, hc, rfl⟩ := hat
    obtain ⟨u, r, rfl, hu, rfl⟩ := hr
    obtain ⟨hinv, hg, hmem⟩ := enumType_keeps h ⟨holder, place, hm, hp, hleads⟩ hn hc hu
    refine ⟨hinv, hg, .ofLeaf ho ?_ ?_, fun ref enm hnamed => .ofOutline ho ?_⟩
    · simp [hl]
    · rintro id' literals' he
      rw [hl] at he
      cases he
      exact ⟨u, hmem⟩
    · -- whether the type is new or was there before, its literals are those of the node
      obtain ⟨n', l', ls', hn', hc', ht⟩ := hinv.choices.type id u hmem
      rw [hn] at hn'
      cases hn'
      rw [hc] at hc'
      cases hc'
      rw [hl]
      exact ⟨u, by rw [hnamed.choices id u hmem, ht], rfl⟩
  | object id =>
    rw [hl] at hr hat
    obtain ⟨hleads, n, hn, hk⟩ := hat
    obtain ⟨name, rfl, hname⟩ := hr
    have hmet : s.ObjectMet id :=
      .inr ⟨Schema.MetUnder.met ⟨holder, place, hm, hp, hleads⟩, n, hn, hk⟩
    obtain ⟨hinv, hg, hmem⟩ := hobj pending id hint name b b' h hmet hname
    refine ⟨hinv, hg, .ofLeaf ho ?_ ?_, fun ref enm hnamed => .ofOutline ho ?_⟩
    · rintro id' he
      rw [hl] at he
      cases he
      exact ⟨name, hmem⟩
    · simp [hl]
    · rw [hl]
      exact congrArg _ (hnamed.objects id name hmem).symm

/-- Describing properties one after the other: what was named for the first is kept for all. -/
theorem properties_keeps (hobj : ObjectKeeps s settings object) {holder : NodeId}
    {ps : List (String × Option NodeId)} {fields : Naming.FieldTable} {out : List Property}
    (h : b.Inv s settings pending) (hm : s.ObjectMet holder) (hp : ps ⊆ s.propertiesOf holder)
    (hr : properties s settings object fields ps b = .ok (out, b')) :
    b'.Inv s settings pending ∧ b.Grows b' ∧ (∀ entry ∈ ps, b'.Covers s entry.2) ∧
      ∀ ref enm, b'.Named ref enm → List.Forall₂ (s.Describes settings ref enm) ps out := by
  induction ps generalizing fields b out with
  | nil =>
    obtain ⟨rfl, rfl⟩ := Stateful.pure_eq_ok.mp hr
    exact ⟨h, .refl _, by simp, fun _ _ _ => .nil⟩
  | cons entry ps ih =>
    obtain ⟨name, place⟩ := entry
    obtain ⟨p, rest, fields', b₁, rfl, hclaim, htype, hdefault, hname, hliteral, hdoc, hrest⟩ :=
      properties_cons_ok hr
    -- the first property is resolved before the others; what is said of it has to survive them
    obtain ⟨hinv, hg, hcov, ht⟩ := resolve_keeps hobj h hm (hp List.mem_cons_self) htype
    obtain ⟨hinv', hg', hcov', ht'⟩ := ih hinv (fun _ he => hp (List.mem_cons_of_mem _ he)) hrest
    refine ⟨hinv', hg.trans hg', ?_, fun ref enm hnamed => .cons ?_ (ht' ref enm hnamed)⟩
    · intro entry he
      obtain rfl | he := List.mem_cons.mp he
      · exact hcov.after hg'
      · exact hcov' entry he
    · exact
        { name := hname
          field := (Naming.FieldTable.claim_ok hclaim).1
          type := ht ref enm (hnamed.before hg')
          literal := hliteral
          default := by rw [hname, hliteral]; exact hdefault
          description := hdoc }

/-- Every object is built within the invariant, however the objects refer to each other. -/
theorem object_keeps (fuel : Nat) : ObjectKeeps s settings (Building.object s settings fuel) := by
  induction fuel with
  | zero =>
    intro pending id hint name b b' _ _ hr
    cases hr
  | succ fuel ih =>
    intro pending id hint name b b' h hm hr
    obtain ⟨hknown, rfl⟩ | ⟨hnew, hname, ps, b₁, hps, rfl⟩ := object_ok hr
    · exact ⟨h, .refl _, Tables.mem_of_lookup hknown⟩
    · -- the object is named before its properties are resolved, so that they may refer back to it;
      -- until they are entered it is pending, and nothing is said of its description
      obtain ⟨hopened, hg⟩ := h.opened (Naming.className hint) hm hnew
      obtain ⟨hinv, hg₁, hcov, ht⟩ := properties_keeps ih hopened hm (List.Subset.refl _) hps
      have hmem : (id, name) ∈ b₁.references := hg₁.references (hname ▸ List.mem_cons_self)
      obtain ⟨hfinal, hg₂⟩ := hinv.describe hmem ht hcov
      exact ⟨hfinal, (hg.trans hg₁).trans hg₂, hg₂.references hmem⟩

end Building
end SchemaModel
