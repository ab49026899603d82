import SchemaModel.Proofs.Enumeration
import SchemaModel.Proofs.Naming.Allocator
import SchemaModel.Proofs.Runs
import SchemaModel.Resolution.Resolver

/-!
The actions of a resolver. Each is opened here once, by an equation for what it gives and what it
leaves behind. Every enumerated type that a resolver keeps belongs to one node, which owns its name
(`Sound`).
-/
namespace SchemaModel.Resolver

/-- The resolver after a name made from `base` was given to a node. -/
def allocated (r : Resolver) (base : String) (id : NodeId) : Resolver :=
  { r with names := (r.names.allocate base id).2 }

/-- The resolver after a node got an enumerated type, under a new name. -/
def enumerated (r : Resolver) (base : String) (id : NodeId) (t : EnumType) : Resolver :=
  { r.allocated base id with
    enums := r.enums ++ [((r.names.allocate base id).1, t)]
    enumOf := r.enumOf ++ [(id, t)] }

def warned (r : Resolver) (warning : String) : Resolver :=
  { r with warnings := r.warnings ++ [warning] }

section
variable (r : Resolver) (base hint warning : String) (id : NodeId) (t : EnumType)

@[simp] theorem enumOf_allocated : (r.allocated base id).enumOf = r.enumOf := rfl

@[simp] theorem enumOf_warned : (r.warned warning).enumOf = r.enumOf := rfl

@[simp] theorem enumOf_enumerated :
    (r.enumerated base id t).enumOf = r.enumOf ++ [(id, t)] := rfl

theorem run_allocate :
    (allocate base id).run.run r = (.ok (r.names.allocate base id).1, r.allocated base id) := rfl

theorem run_outline (s : Schema) (settings : Settings) (place : Option NodeId) :
    (outline s settings place).run.run r =
      ((s.outline? settings place).elim (.error .endlessItems) .ok, r) := by
  unfold outline
  cases s.outline? settings place <;> rfl

/-- A kind that cannot be shown gets no warning. -/
theorem run_warn (kind : Value) : (warn kind hint).run.run r =
    if kind.hasLong then (.error .digits, r)
    else (.ok (), r.warned (unrecognizedWarning kind hint)) := by
  unfold warn
  cases kind.hasLong <;> rfl

/-- The enumerated type of a node is known, or it is built and named now. The name is given even if
the type cannot be built. -/
theorem run_enumType (literals : List Literal) : (enumType id literals hint).run.run r =
    match r.enumOf.lookup id with
    | some t => (.ok t, r)
    | none =>
      match Enumeration.type (r.names.allocate (Naming.className hint "Enum") id).1 literals with
      | .ok t => (.ok t, r.enumerated (Naming.className hint "Enum") id t)
      | .error e => (.error (.ofEnumeration e), r.allocated (Naming.className hint "Enum") id) := by
  have hget : (get : Action Resolver).run.run r = (.ok r, r) := rfl
  rw [enumType, Recorded.run_bind_of_ok hget]
  cases r.enumOf.lookup id with
  | some t => rfl
  | none =>
    dsimp only
    rw [Recorded.run_bind_of_ok (run_allocate r _ id)]
    cases Enumeration.type (r.names.allocate (Naming.className hint "Enum") id).1 literals <;> rfl

end

variable {r r' : Resolver} {id : NodeId} {literals : List Literal} {hint : String} {t : EnumType}

theorem enumType_ok (h : (enumType id literals hint).run.run r = (.ok t, r')) :
    (r.enumOf.lookup id = some t ∧ r' = r) ∨
    (r.enumOf.lookup id = none ∧
      Enumeration.type (r.names.allocate (Naming.className hint "Enum") id).1 literals = .ok t ∧
      r' = r.enumerated (Naming.className hint "Enum") id t) := by
  rw [run_enumType] at h
  split at h
  · rename_i u hl
    cases h
    exact .inl ⟨hl, rfl⟩
  · rename_i hl
    split at h
    · rename_i u ht
      cases h
      exact .inr ⟨hl, ht, rfl⟩
    · cases h

/-- Choices fail only where they have no enumerated type. -/
theorem enumType_error {e : ResolveError}
    (h : (enumType id literals hint).run.run r = (.error e, r')) :
    ∃ cause, e = .ofEnumeration cause := by
  rw [run_enumType] at h
  split at h
  · cases h
  · split at h
    · cases h
    · cases h
      exact ⟨_, rfl⟩

/-! ## Enumerated types -/

/-- What holds of the enumerated types that a resolver keeps, whoever it works for. -/
structure Sound (r : Resolver) (s : Schema) : Prop where
  /-- The name of an enumerated type belongs to its node. -/
  owned : ∀ id t, (id, t) ∈ r.enumOf → r.names.owner? t.name = some id
  once : (r.enumOf.map (·.1)).Nodup
  listed : r.enums = r.enumOf.map fun e => (e.2.name, e.2)
  type : ∀ id t, (id, t) ∈ r.enumOf → ∃ n l ls, s.node? id = some n ∧ n.enum = some (l :: ls) ∧
    Enumeration.type t.name (l :: ls) = .ok t

variable {s : Schema}

theorem Sound.empty : Resolver.empty.Sound s := by
  constructor <;> simp [Resolver.empty]

theorem Sound.allocated (h : r.Sound s) (base : String) (who : NodeId) :
    (r.allocated base who).Sound s where
  owned id t hm := Naming.Allocator.owner?_allocate_of_owner? (h.owned id t hm) base who
  once := h.once
  listed := h.listed
  type := h.type

theorem Sound.warned (h : r.Sound s) (warning : String) : (r.warned warning).Sound s :=
  ⟨h.owned, h.once, h.listed, h.type⟩

/-- A node with choices that is new gets an enumerated type of its own. -/
theorem Sound.enumerated (h : r.Sound s) {base : String} {n : SchemaNode} {l : Literal}
    {ls : List Literal} (hn : s.node? id = some n) (hc : n.enum = some (l :: ls))
    (hnew : r.enumOf.lookup id = none)
    (ht : Enumeration.type (r.names.allocate base id).1 (l :: ls) = .ok t) :
    (r.enumerated base id t).Sound s := by
  have hname := Enumeration.name_of_type ht
  -- the types that were there are as before, and the new one stands behind them
  have hkept := h.allocated base id
  have hid : id ∉ r.enumOf.map (·.1) := Tables.lookup_eq_none_iff.mp hnew
  constructor
  case owned =>
    intro id' t' hm
    obtain hm | hm := List.mem_append.mp hm
    · exact hkept.owned id' t' hm
    · cases List.mem_singleton.mp hm
      rw [hname]
      exact Naming.Allocator.owner?_allocate _ _ id
  case once =>
    simpa [List.nodup_append] using
      ⟨h.once, fun a x hx ha => hid (List.mem_map.mpr ⟨_, hx, ha⟩)⟩
  case listed => simp [Resolver.enumerated, h.listed, hname]
  case type =>
    intro id' t' hm
    obtain hm | hm := List.mem_append.mp hm
    · exact h.type id' t' hm
    · cases List.mem_singleton.mp hm
      exact ⟨n, l, ls, hn, hc, hname ▸ ht⟩

/-- The enumerated type of a node is found again. -/
theorem Sound.lookup (h : r.Sound s) (hm : (id, t) ∈ r.enumOf) : r.enumOf.lookup id = some t :=
  Tables.lookup_of_mem h.once hm

/-- Two nodes never share the name of an enumerated type. -/
theorem Sound.id_eq_of_name (h : r.Sound s) {id' : NodeId} {t' : EnumType}
    (hm : (id, t) ∈ r.enumOf) (hm' : (id', t') ∈ r.enumOf) (hn : t.name = t'.name) : id = id' := by
  have := (h.owned id t hm).symm.trans (hn ▸ h.owned id' t' hm')
  exact Option.some.inj this

theorem Sound.names_nodup (h : r.Sound s) : (r.enumOf.map fun e => e.2.name).Nodup := by
  refine List.Nodup.map_on (fun e he e' he' hn => ?_) (.of_map _ h.once)
  exact List.inj_on_of_nodup_map h.once he he' (h.id_eq_of_name he he' hn)

end SchemaModel.Resolver
