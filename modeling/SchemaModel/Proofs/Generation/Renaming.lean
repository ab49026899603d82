import SchemaModel.Proofs.Generation.Steps
import SchemaModel.Proofs.Resolution.ItemChains
import SchemaModel.Proofs.Schema.Unfolding
import SchemaModel.Proofs.Tables

/-!
Generation does not depend on where nodes are in the table. Two schemas whose nodes can be paired,
each with one of the other, so that partners declare the same and lead to partners, are the same to
a generation: it goes through states in which partners own the same names (`Building.Alike`), and
has the same outcome (`Generation.ofSchema_renamed`).
-/
namespace SchemaModel

open Relation (ReflTransGen TransGen)

variable {R : NodeId → NodeId → Prop}

/-- The nodes of one schema are partners of those of another. -/
structure Schema.Renamed (R : NodeId → NodeId → Prop) (s s' : Schema) : Prop where
  root : R s.root s'.root
  /-- Nobody has two partners. -/
  unique : Relator.BiUnique R
  node : ∀ a a', R a a' → ∃ n n', s.node? a = some n ∧ s'.node? a' = some n' ∧ n'.own = n.own ∧
    Option.Rel R n.items n'.items ∧
    List.Forall₂ (fun q q' => q'.1 = q.1 ∧ Option.Rel R q.2 q'.2) n.propertyList n'.propertyList

/-! ## Tables -/

/-- What is entered for partners is found for partners. -/
theorem Tables.lookup_renamed {α : Type} {es es' : List (NodeId × α)} {k k' : NodeId}
    (hR : Relator.BiUnique R)
    (h : List.Forall₂ (fun e e' => R e.1 e'.1 ∧ e'.2 = e.2) es es') (hk : R k k') :
    es'.lookup k' = es.lookup k := by
  induction h with
  | nil => rfl
  | @cons e e' es es' he _ ih =>
    obtain ⟨a, x⟩ := e
    obtain ⟨a', x'⟩ := e'
    obtain ⟨ha, rfl⟩ := he
    rw [List.lookup_cons, List.lookup_cons, ih]
    have heq : (k' == a') = (k == a) := by
      rw [Bool.eq_iff_iff, beq_iff_eq, beq_iff_eq]
      exact (Relator.rel_eq hR hk ha).symm
    rw [heq]

namespace Naming.Allocator

/-- Two allocators have given the same names to partners. -/
def Alike (R : NodeId → NodeId → Prop) (a a' : Allocator NodeId) : Prop :=
  List.Forall₂ (fun o o' => o'.1 = o.1 ∧ R o.2 o'.2) a.owners a'.owners

variable {a a' : Allocator NodeId} {who who' : NodeId}

theorem Alike.owner? (h : Alike R a a') (name : String) :
    Option.Rel R (a.owner? name) (a'.owner? name) := by
  unfold Allocator.owner?
  unfold Alike at h
  generalize a.owners = owners at h
  generalize a'.owners = owners' at h
  induction h with
  | nil => exact .none
  | @cons o o' _ _ ho _ ih =>
    obtain ⟨key, id⟩ := o
    obtain ⟨key', id'⟩ := o'
    obtain ⟨rfl, hid⟩ := ho
    rw [List.lookup_cons, List.lookup_cons]
    cases name == key' with
    | true => exact .some hid
    | false => exact ih

theorem Alike.isTaken (h : Alike R a a') (name : String) : a'.isTaken name = a.isTaken name := by
  have ho := h.owner? name
  unfold Allocator.isTaken
  generalize a.owner? name = o at ho
  generalize a'.owner? name = o' at ho
  cases ho <;> rfl

theorem Alike.isFree (hR : Relator.BiUnique R) (h : Alike R a a') (hwho : R who who')
    (name : String) : a'.isFree who' name = a.isFree who name := by
  have ho := h.owner? name
  unfold Allocator.isFree
  generalize a.owner? name = o at ho
  generalize a'.owner? name = o' at ho
  cases ho with
  | none => rfl
  | some hid => simp only [Relator.rel_eq hR hid hwho]

theorem Alike.firstFree (hR : Relator.BiUnique R)
    (h : Alike R a a') (hwho : R who who') (base : String) (count k : Nat) :
    a'.firstFree who' base count k = a.firstFree who base count k := by
  induction count generalizing k with
  | zero => rfl
  | succ count ih => rw [Allocator.firstFree, Allocator.firstFree, h.isFree hR hwho, ih]

/-- Partners are given the same name. -/
theorem Alike.allocate (hR : Relator.BiUnique R)
    (h : Alike R a a') (hwho : R who who') (base : String) :
    (a'.allocate base who').1 = (a.allocate base who).1 ∧
      Alike R (a.allocate base who).2 (a'.allocate base who').2 := by
  have hlength : a'.owners.length = a.owners.length := (List.Forall₂.length_eq h).symm
  unfold Allocator.allocate
  simp only [hlength, h.firstFree hR hwho, h.isTaken, true_and]
  split
  · exact h
  · exact List.rel_append h (.cons ⟨rfl, hwho⟩ .nil)

end Naming.Allocator

/-! ## Declarations -/

/-- Only the items of arrays can differ in what partners say. -/
theorem SchemaNode.form_of_own {settings : Settings} {n n' : SchemaNode} (h : n'.own = n.own) :
    n'.form settings = match n.form settings with
      | .array unique _ => .array unique n'.items
      | form => form := by
  simp only [SchemaNode.own, SchemaNode.mk.injEq] at h
  obtain ⟨hkind, hformat, hunique, -, -, henum, -⟩ := h
  simp only [form, choices?, formOfKind, knownKind?, hkind, hformat, hunique, henum]
  repeat' split
  all_goals simp_all

/-- Leaves at partners. -/
inductive Leaf.Alike (R : NodeId → NodeId → Prop) : Leaf → Leaf → Prop
  | type (t) : Alike R (.type t) (.type t)
  | choices {id id'} (h : R id id') (literals) :
      Alike R (.choices id literals) (.choices id' literals)
  | object {id id'} (h : R id id') : Alike R (.object id) (.object id')
  | unrecognized (kind) : Alike R (.unrecognized kind) (.unrecognized kind)

namespace Schema

variable {s s' : Schema} {settings : Settings} {place place' : Option NodeId} {id c : NodeId}

/-- Places of partners say the same, however long it takes to find out. -/
theorem Renamed.outlineFrom (hs : Renamed R s s') {fuel fuel' : Nat} {o o' : Outline}
    (hp : Option.Rel R place place') (ho : s.outlineFrom settings fuel place = some o)
    (ho' : s'.outlineFrom settings fuel' place' = some o') :
    o'.arrays = o.arrays ∧ Leaf.Alike R o.leaf o'.leaf := by
  induction fuel generalizing place place' fuel' o o' with
  | zero =>
    cases hp with
    | none =>
      cases ho
      cases fuel' <;> cases ho' <;> exact ⟨rfl, .type _⟩
    | some => cases ho
  | succ fuel ih =>
    cases hp with
    | none =>
      cases ho
      cases fuel' <;> cases ho' <;> exact ⟨rfl, .type _⟩
    | @some a a' ha =>
      obtain ⟨n, n', hn, hn', hown, hitems, -⟩ := hs.node a a' ha
      cases fuel' with
      | zero => cases ho'
      | succ fuel' =>
        rw [Schema.outlineFrom, hn] at ho
        rw [Schema.outlineFrom, hn'] at ho'
        simp only [SchemaNode.form_of_own hown] at ho'
        cases hf : n.form settings with
        | array unique items =>
          simp only [hf] at ho ho'
          obtain ⟨-, rfl⟩ := SchemaNode.form_eq_array hf
          obtain ⟨p, hp, rfl⟩ := Option.map_eq_some_iff.mp ho
          obtain ⟨p', hp', rfl⟩ := Option.map_eq_some_iff.mp ho'
          obtain ⟨harrays, hleaf⟩ := ih hitems hp hp'
          exact ⟨congrArg (unique :: ·) harrays, hleaf⟩
        | type t =>
          simp only [hf] at ho ho'
          cases ho
          cases ho'
          exact ⟨rfl, .type t⟩
        | choices literals =>
          simp only [hf] at ho ho'
          cases ho
          cases ho'
          exact ⟨rfl, .choices ha literals⟩
        | object =>
          simp only [hf] at ho ho'
          cases ho
          cases ho'
          exact ⟨rfl, .object ha⟩
        | unrecognized =>
          simp only [hf] at ho ho'
          cases ho
          cases ho'
          have hkind : n'.own.kind = n.own.kind := congrArg SchemaNode.kind hown
          rw [show n'.kind = n.kind from hkind]
          exact ⟨rfl, .unrecognized _⟩

/-! ## Depths -/

theorem ItemsStep.child (h : s.ItemsStep id c) : s.Child id c := by
  obtain ⟨n, hn, -, hi⟩ := h
  exact ⟨n, hn, mem_children_of_items hi⟩

/-- The items of a place end if no node inside contains itself. -/
theorem Acyclic.itemsEndFrom (hs : s.Acyclic) (hp : ∀ a, place = some a → s.Reaches a) :
    s.ItemsEndFrom place := by
  intro a ha c hc hcycle
  have hle : s.ItemsStep ≤ s.Child := fun _ _ h => h.child
  have hreaches : s.Reaches c := (hp a ha).trans (ReflTransGen.mono hle a c hc)
  exact hs c hreaches (TransGen.mono hle c c hcycle)

theorem Leads.reflTransGen {place : Option NodeId} (h : s.Leads place c) {a : NodeId}
    (ha : place = some a) : ReflTransGen s.Child a c := by
  induction h generalizing a with
  | self =>
    cases ha
    exact .refl
  | @items b n c hn hk h ih =>
    cases ha
    cases hi : n.items with
    | none =>
      rw [hi] at h
      cases h
    | some d => exact .head ⟨n, hn, mem_children_of_items hi⟩ (ih hi)

theorem Leads.exists_start {place : Option NodeId} (h : s.Leads place c) :
    ∃ a, place = some a := by
  cases h with
  | self => exact ⟨c, rfl⟩
  | items => exact ⟨_, rfl⟩

/-- The node is so deep inside the schema that so many steps are left. -/
structure Depth (s : Schema) (steps : Nat) (id : NodeId) : Prop where
  reaches : s.Reaches id
  path : ∃ path, Ancestors (TransGen s.Child) s.nodes.size path id ∧
    steps + path.length = s.nodes.size + 1

theorem Depth.root (s : Schema) : s.Depth (s.nodes.size + 1) s.root :=
  ⟨.refl, [], .nil _ _ _, rfl⟩

/-- No node is so deep that no step is left. -/
theorem Depth.ne_zero (h : s.Depth 0 id) : False := by
  obtain ⟨path, hpath, hsteps⟩ := h.path
  have := hpath.length_le
  omega

theorem Depth.inner (hs : s.Acyclic) {steps : Nat} (h : s.Depth (steps + 1) id)
    (hc : TransGen s.Child id c) : s.Depth steps c := by
  obtain ⟨path, hpath, hsteps⟩ := h.path
  have hcycle : ¬ TransGen (TransGen s.Child) id id := by
    rw [Relation.transGen_eq_self]
    exact hs id h.reaches
  have hid : id < s.nodes.size := by
    obtain ⟨b, ⟨n, hn, -⟩, -⟩ := TransGen.head'_iff.mp hc
    exact (Array.getElem?_eq_some_iff.mp hn).1
  refine ⟨h.reaches.trans hc.to_reflTransGen, id :: path, hpath.step hcycle hid hc, ?_⟩
  rw [List.length_cons]
  omega

end Schema

/-! ## States -/

namespace Resolver

/-- Two resolvers have given the same names and the same enumerated types to partners. -/
structure Alike (R : NodeId → NodeId → Prop) (r r' : Resolver) : Prop where
  names : Naming.Allocator.Alike R r.names r'.names
  enums : r'.enums = r.enums
  enumOf : List.Forall₂ (fun e e' => R e.1 e'.1 ∧ e'.2 = e.2) r.enumOf r'.enumOf
  warnings : r'.warnings = r.warnings

variable {r r' : Resolver} {id id' : NodeId}

theorem Alike.allocated (hR : Relator.BiUnique R) (h : Alike R r r') (hid : R id id')
    (base : String) : Alike R (r.allocated base id) (r'.allocated base id') :=
  { h with names := (h.names.allocate hR hid base).2 }

theorem Alike.warned (h : Alike R r r') (warning : String) :
    Alike R (r.warned warning) (r'.warned warning) :=
  { h with warnings := congrArg (· ++ [warning]) h.warnings }

theorem Alike.enumerated (hR : Relator.BiUnique R) (h : Alike R r r') (hid : R id id')
    (base : String) (t : EnumType) :
    Alike R (r.enumerated base id t) (r'.enumerated base id' t) where
  names := (h.names.allocate hR hid base).2
  enums := by
    simp only [Resolver.enumerated, h.enums, (h.names.allocate hR hid base).1]
  enumOf := List.rel_append h.enumOf (.cons ⟨hid, rfl⟩ .nil)
  warnings := h.warnings

/-- Choices of partners have the same enumerated type, or collide in the same way. -/
theorem Alike.enumType (hR : Relator.BiUnique R) (h : Alike R r r') (hid : R id id')
    (literals : List Literal) (hint : String) :
    ((enumType id' literals hint).run.run r').1 = ((enumType id literals hint).run.run r).1 ∧
      Alike R ((enumType id literals hint).run.run r).2
        ((enumType id' literals hint).run.run r').2 := by
  rw [run_enumType, run_enumType, Tables.lookup_renamed hR h.enumOf hid]
  cases r.enumOf.lookup id with
  | some t => exact ⟨rfl, h⟩
  | none =>
    obtain ⟨hname, -⟩ := h.names.allocate hR hid (Naming.className hint "Enum")
    dsimp only
    rw [hname]
    cases Enumeration.type (r.names.allocate (Naming.className hint "Enum") id).1 literals with
    | ok t => exact ⟨rfl, h.enumerated hR hid _ t⟩
    | error c => exact ⟨rfl, h.allocated hR hid _⟩

end Resolver

namespace Building

/-- Two states of a generation that differ by the nodes to which names belong only. -/
structure Alike (R : NodeId → NodeId → Prop) (b b' : Building) : Prop where
  resolver : b.resolver.Alike R b'.resolver
  types : b'.types = b.types
  references : List.Forall₂ (fun e e' => R e.1 e'.1 ∧ e'.2 = e.2) b.references b'.references

/-- Two outcomes with the same result, in states that are alike, or with the same error. -/
inductive EndsAlike (R : NodeId → NodeId → Prop) {α : Type} : Outcome α → Outcome α → Prop
  | ok {x b b'} (h : Alike R b b') : EndsAlike R (.ok (x, b)) (.ok (x, b'))
  | error (e) : EndsAlike R (.error e) (.error e)

variable {b b' : Building} {id id' : NodeId}

theorem EndsAlike.bind {α β : Type} {r r' : Outcome α} {f f' : α × Building → Outcome β}
    (h : EndsAlike R r r') (hf : ∀ x b b', Alike R b b' → EndsAlike R (f (x, b)) (f' (x, b'))) :
    EndsAlike R (r.bind f) (r'.bind f') := by
  cases h with
  | ok h => exact hf _ _ _ h
  | error e => exact .error e

theorem EndsAlike.map {α β : Type} {r r' : Outcome α} {f f' : α × Building → β × Building}
    (h : EndsAlike R r r')
    (hf : ∀ x b b', Alike R b b' → (f' (x, b')).1 = (f (x, b)).1 ∧
      Alike R (f (x, b)).2 (f' (x, b')).2) : EndsAlike R (r.map f) (r'.map f') := by
  cases h with
  | @ok x b b' h =>
    obtain ⟨hresult, hstate⟩ := hf x b b' h
    show EndsAlike R (.ok (f (x, b))) (.ok (f' (x, b')))
    generalize f (x, b) = p at hresult hstate
    generalize f' (x, b') = p' at hresult hstate
    obtain ⟨y, c⟩ := p
    obtain ⟨y', c'⟩ := p'
    obtain rfl : y' = y := hresult
    exact .ok hstate
  | error e => exact .error e

theorem Alike.resolving {α : Type} {a a' : Resolver.Action α} (h : Alike R b b')
    (hresult : (a'.run.run b'.resolver).1 = (a.run.run b.resolver).1)
    (hstate : (a.run.run b.resolver).2.Alike R (a'.run.run b'.resolver).2) :
    EndsAlike R (resolving a b) (resolving a' b') := by
  unfold Building.resolving
  cases ha : a.run.run b.resolver with
  | mk res r =>
    cases ha' : a'.run.run b'.resolver with
    | mk res' r' =>
      rw [ha, ha'] at hresult hstate
      dsimp only at hresult hstate
      subst hresult
      cases res' with
      | ok x => exact .ok ⟨hstate, h.types, h.references⟩
      | error e => exact .error _

/-! ## Steps -/

variable {s s' : Schema} {settings : Settings} {object object' : NodeId → String → Action String}
  {hint : String} {place place' : Option NodeId}

/-- The objects of partners have outcomes that are alike, from states that are alike. -/
def ObjectsAlike (R : NodeId → NodeId → Prop) (object object' : NodeId → String → Action String)
    (id id' : NodeId) : Prop :=
  ∀ hint b b', Alike R b b' → EndsAlike R (object id hint b) (object' id' hint b')

theorem leafOutcome_renamed (hR : Relator.BiUnique R) {leaf leaf' : Leaf}
    (hleaf : Leaf.Alike R leaf leaf') (hb : Alike R b b')
    (hobject : ∀ id id', leaf = .object id → leaf' = .object id' → R id id' →
      ObjectsAlike R object object' id id') :
    EndsAlike R (leafOutcome object hint b leaf) (leafOutcome object' hint b' leaf') := by
  cases hleaf with
  | type t => exact .ok hb
  | unrecognized kind =>
    rw [leafOutcome, leafOutcome, resolving_warn, resolving_warn]
    cases kind.hasLong with
    | false => exact .ok { hb with resolver := hb.resolver.warned _ }
    | true => exact .error _
  | choices hid literals =>
    obtain ⟨hresult, hstate⟩ := hb.resolver.enumType hR hid literals hint
    exact (hb.resolving hresult hstate).map fun _ _ _ h => ⟨rfl, h⟩
  | object hid => exact (hobject _ _ rfl rfl hid hint b b' hb).map fun _ _ _ h => ⟨rfl, h⟩

theorem resolve_renamed (hs : s.Renamed R s') (hp : Option.Rel R place place')
    (hends : s.ItemsEndFrom place) (hends' : s'.ItemsEndFrom place') (hb : Alike R b b')
    (hobject : ∀ c c', s.Leads place c → s'.Leads place' c' → R c c' →
      ObjectsAlike R object object' c c') :
    EndsAlike R (resolve s settings object place hint b)
      (resolve s' settings object' place' hint b') := by
  obtain ⟨o, ho⟩ := Schema.outline?_isSome hends settings
  obtain ⟨o', ho'⟩ := Schema.outline?_isSome hends' settings
  obtain ⟨harrays, hleaf⟩ := hs.outlineFrom hp ho ho'
  rw [resolve_eq, resolve_eq, ho, ho']
  dsimp only
  rw [harrays]
  refine (leafOutcome_renamed hs.unique hleaf hb fun c c' hc hc' => ?_).map fun _ _ _ h => ⟨rfl, h⟩
  have hat := Schema.leafAt_of_outlineFrom ho
  have hat' := Schema.leafAt_of_outlineFrom ho'
  rw [hc] at hat
  rw [hc'] at hat'
  exact hobject c c' hat.1 hat'.1

theorem described_renamed (hs : s.Renamed R s') (hp : Option.Rel R place place')
    (name field : String) (t : TargetType) :
    described s' name field place' t = described s name field place t := by
  cases hp with
  | none => rfl
  | some ha =>
    obtain ⟨n, n', hn, hn', hown, -⟩ := hs.node _ _ ha
    have hdefault : n'.own.default = n.own.default := congrArg SchemaNode.default hown
    have hdescription : n'.own.description = n.own.description :=
      congrArg SchemaNode.description hown
    simp only [described, Option.bind_some, hn, hn', Option.map_some,
      show n'.default = n.default from hdefault,
      show n'.description = n.description from hdescription]

theorem properties_renamed (hs : s.Renamed R s') {qs qs' : List (String × Option NodeId)}
    (hqs : List.Forall₂ (fun q q' => q'.1 = q.1 ∧ Option.Rel R q.2 q'.2) qs qs')
    (hends : ∀ q ∈ qs, s.ItemsEndFrom q.2) (hends' : ∀ q ∈ qs', s'.ItemsEndFrom q.2)
    (hobject : ∀ q ∈ qs, ∀ q' ∈ qs', ∀ c c', s.Leads q.2 c → s'.Leads q'.2 c' → R c c' →
      ObjectsAlike R object object' c c')
    (fields : Naming.FieldTable) (hb : Alike R b b') :
    EndsAlike R (properties s settings object fields qs b)
      (properties s' settings object' fields qs' b') := by
  induction hqs generalizing fields b b' with
  | nil => exact .ok hb
  | @cons q q' qs qs' hq _ ih =>
    obtain ⟨name, place⟩ := q
    obtain ⟨name', place'⟩ := q'
    obtain ⟨rfl, hp⟩ := hq
    rw [List.forall_mem_cons] at hends hends'
    rw [properties_cons, properties_cons]
    cases fields.claim name' with
    | error c => exact .error _
    | ok claimed =>
      obtain ⟨field, fields'⟩ := claimed
      have hplace : EndsAlike R (resolve s settings object place name' b)
          (resolve s' settings object' place' name' b') :=
        resolve_renamed hs hp hends.1 hends'.1 hb
          (hobject _ List.mem_cons_self _ List.mem_cons_self)
      refine (hplace.bind fun t b₁ b₁' hb₁ => ?_).bind fun x b₁ b₁' hb₁ => ?_
      · rw [described_renamed hs hp]
        cases described s name' field place t with
        | ok p => exact .ok hb₁
        | error e => exact .error e
      · have hrest := ih hends.2 hends'.2 (fun q hq q' hq' => hobject q (List.mem_cons_of_mem _ hq)
          q' (List.mem_cons_of_mem _ hq')) x.2 hb₁
        exact hrest.map fun _ _ _ h => ⟨rfl, h⟩

theorem Alike.opened (hs : s.Renamed R s') (h : Alike R b b') (hid : R id id') (base : String) :
    Alike R (b.opened s id base) (b'.opened s' id' base) := by
  obtain ⟨n, n', hn, hn', hown, -⟩ := hs.node _ _ hid
  obtain ⟨hname, -⟩ := h.resolver.names.allocate hs.unique hid base
  have hdocumentation : documentation n' = documentation n := by
    have hdescription : n'.own.description = n.own.description :=
      congrArg SchemaNode.description hown
    have htitle : n'.own.title = n.own.title := congrArg SchemaNode.title hown
    rw [documentation, documentation, show n'.description = n.description from hdescription,
      show n'.title = n.title from htitle]
  constructor
  case resolver => exact h.resolver.allocated hs.unique hid base
  case types => simp only [Building.opened, register, hn, hn', Option.getD_some, hdocumentation,
    hname, h.types]
  case references => exact .cons ⟨hid, hname⟩ h.references

theorem Alike.newName (hR : Relator.BiUnique R) (h : Alike R b b') (hid : R id id')
    (hint : String) : b'.newName id' hint = b.newName id hint :=
  (h.resolver.names.allocate hR hid _).1

/-- As long as there are steps for all that is inside, objects of partners have outcomes that are
alike. -/
theorem object_renamed (settings : Settings) (hs : s.Renamed R s') (hacyclic : s.Acyclic)
    (hacyclic' : s'.Acyclic) {steps steps' : Nat} (hdepth : s.Depth steps id)
    (hdepth' : s'.Depth steps' id') (hid : R id id') :
    ObjectsAlike R (Building.object s settings steps)
      (Building.object s' settings steps') id id' := by
  induction steps generalizing steps' id id' with
  | zero => exact hdepth.ne_zero.elim
  | succ steps ih =>
    cases steps' with
    | zero => exact hdepth'.ne_zero.elim
    | succ steps' =>
      intro hint b b' hb
      rw [object_succ, object_succ, Tables.lookup_renamed hs.unique hb.references hid]
      cases b.references.lookup id with
      | some name => exact .ok hb
      | none =>
        obtain ⟨n, n', hn, hn', -, -, hproperties⟩ := hs.node _ _ hid
        -- what a property leads to is further inwards than the object
        have hchild : ∀ q ∈ n.propertyList, ∀ a, q.2 = some a → s.Child id a := by
          rintro ⟨name, _⟩ hq a rfl
          exact ⟨n, hn, Schema.mem_children_of_property hq⟩
        have hchild' : ∀ q ∈ n'.propertyList, ∀ a, q.2 = some a → s'.Child id' a := by
          rintro ⟨name, _⟩ hq a rfl
          exact ⟨n', hn', Schema.mem_children_of_property hq⟩
        dsimp only
        rw [hn, hn', Option.getD_some, Option.getD_some, hb.newName hs.unique hid]
        refine (properties_renamed hs hproperties ?_ ?_ ?_ _
          (hb.opened hs hid (Naming.className hint))).map ?_
        · intro q hq
          exact hacyclic.itemsEndFrom fun a ha => hdepth.reaches.tail (hchild q hq a ha)
        · intro q hq
          exact hacyclic'.itemsEndFrom fun a ha => hdepth'.reaches.tail (hchild' q hq a ha)
        · intro q hq q' hq' c c' hc hc' hcc
          obtain ⟨a, ha⟩ := hc.exists_start
          obtain ⟨a', ha'⟩ := hc'.exists_start
          exact ih (hdepth.inner hacyclic (.head' (hchild q hq a ha) (hc.reflTransGen ha)))
            (hdepth'.inner hacyclic' (.head' (hchild' q' hq' a' ha') (hc'.reflTransGen ha'))) hcc
        · intro ps b₁ b₁' hb₁
          refine ⟨rfl, hb₁.resolver, ?_, hb₁.references⟩
          simp only [describe, hb₁.types]

theorem Alike.finish (h : Alike R b b') (root : String) : b'.finish root = b.finish root := by
  simp only [Building.finish, h.types, h.resolver.enums, h.resolver.warnings]

theorem Alike.empty : Alike R Building.empty Building.empty :=
  ⟨⟨.nil, rfl, .nil, rfl⟩, rfl, .nil⟩

end Building

/-- Schemas without cycles that differ by the places of their nodes only have the same outcome. -/
theorem Generation.ofSchema_renamed {s s' : Schema} (hs : s.Renamed R s') (hacyclic : s.Acyclic)
    (hacyclic' : s'.Acyclic) (settings : Settings) (name : String) :
    ofSchema s' settings name = ofSchema s settings name := by
  have hobject := Building.object_renamed settings hs hacyclic hacyclic' (.root s)
    (.root s') hs.root name .empty .empty .empty
  rw [ofSchema_eq, ofSchema_eq]
  generalize Building.object s settings (s.nodes.size + 1) s.root name .empty = r at hobject
  generalize Building.object s' settings (s'.nodes.size + 1) s'.root name .empty = r' at hobject
  cases hobject with
  | ok h =>
    rw [Except.map, Except.map, h.finish]
  | error e => rfl

end SchemaModel
