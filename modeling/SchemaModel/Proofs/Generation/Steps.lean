import SchemaModel.Generation.Build
import SchemaModel.Proofs.Resolution.Actions

/-!
The steps of a generation. Each action is opened here once, by an equation for its outcome, and what
it does when it succeeds follows from that: every later argument about a run of generation goes
through these equations and inversions.
-/
namespace SchemaModel

namespace Building

open Stateful

theorem resolving_eq_ok {α : Type} {a : Resolver.Action α} {b b' : Building} {x : α} :
    resolving a b = .ok (x, b') ↔
      ∃ r, a.run.run b.resolver = (.ok x, r) ∧ b' = { b with resolver := r } := by
  unfold resolving
  cases a.run.run b.resolver with
  | mk res r =>
    cases res with
    | ok y =>
      simp only [Except.ok.injEq, Prod.mk.injEq]
      constructor
      · rintro ⟨rfl, rfl⟩
        exact ⟨r, rfl, rfl⟩
      · rintro ⟨r', hr, rfl⟩
        cases hr
        exact ⟨rfl, rfl⟩
    | error e =>
      constructor
      · rintro ⟨⟩
      · rintro ⟨r', hr, -⟩
        cases hr

/-- What an action ends with: what it gives and what has been generated by then, or an error. -/
abbrev Outcome (α : Type) := Except BuildError (α × Building)

theorem resolving_map {α β : Type} (a : Resolver.Action α) (f : α → β) (b : Building) :
    resolving (a >>= fun x => pure (f x)) b = (resolving a b).map fun p => (f p.1, p.2) := by
  unfold resolving
  rw [ExceptT.run_bind, StateT.run_bind]
  cases a.run.run b.resolver with
  | mk res r => cases res <;> rfl

/-- A kind that cannot be shown ends the generation. -/
theorem resolving_warn (kind : Value) (hint : String) (b : Building) :
    resolving (Resolver.warn kind hint) b =
      if kind.hasLong then .error .digits
      else .ok ((), { b with
        resolver := b.resolver.warned (Resolver.unrecognizedWarning kind hint) }) := by
  rw [resolving, Resolver.run_warn]
  cases kind.hasLong <;> rfl

variable {s : Schema} {settings : Settings} {object : NodeId → String → Action String}

/-! ## Places -/

/-- The outcome for a leaf. -/
def leafOutcome (object : NodeId → String → Action String) (hint : String) (b : Building) :
    Leaf → Outcome TargetType
  | .type t => .ok (t, b)
  | .choices id literals =>
    (resolving (Resolver.enumType id literals hint) b).map fun p => (.enum p.1, p.2)
  | .object id => (object id hint b).map fun p => (.reference p.1, p.2)
  | .unrecognized kind =>
    (resolving (Resolver.warn kind hint) b).map fun p => (.scalar .string, p.2)

/-- A place has the outcome of the leaf at the end of its arrays. -/
theorem resolve_eq (place : Option NodeId) (hint : String) (b : Building) :
    resolve s settings object place hint b =
      match s.outline? settings place with
      | none => .error .endlessItems
      | some o => (leafOutcome object hint b o.leaf).map fun p => (wrap o.arrays p.1, p.2) := by
  rw [resolve, run_bind, resolving, Resolver.run_outline]
  cases s.outline? settings place with
  | none => rfl
  | some o =>
    simp only [Option.elim_some, Except.bind, run_bind]
    cases o.leaf with
    | type t => rfl
    | unrecognized kind =>
      rw [Resolver.leaf, resolving_map, leafOutcome]
      cases resolving (Resolver.warn kind hint) b <;> rfl
    | choices id literals =>
      rw [Resolver.leaf, resolving_map, leafOutcome]
      cases resolving (Resolver.enumType id literals hint) b <;> rfl
    | object id =>
      show (object id hint b).bind _ = _
      rw [leafOutcome]
      cases object id hint b <;> rfl

/-- What resolving a place can be, by the leaf at the end of its arrays. -/
theorem resolve_ok {place : Option NodeId} {hint : String} {b b' : Building} {t : TargetType}
    (h : resolve s settings object place hint b = .ok (t, b')) :
    ∃ o, s.outline? settings place = some o ∧
      match o.leaf with
      | .type u => t = wrap o.arrays u ∧ b' = b
      | .unrecognized kind => t = wrap o.arrays (.scalar .string) ∧
          b' = { b with resolver := b.resolver.warned (Resolver.unrecognizedWarning kind hint) }
      | .choices id literals => ∃ u r, t = wrap o.arrays (.enum u) ∧
          (Resolver.enumType id literals hint).run.run b.resolver = (.ok u, r) ∧
          b' = { b with resolver := r }
      | .object id => ∃ name, t = wrap o.arrays (.reference name) ∧
          object id hint b = .ok (name, b') := by
  rw [resolve_eq] at h
  cases ho : s.outline? settings place with
  | none =>
    rw [ho] at h
    cases h
  | some o =>
    rw [ho] at h
    obtain ⟨p, hp, hx⟩ := Fallible.map_eq_ok.mp h
    cases hx
    refine ⟨o, rfl, ?_⟩
    cases hl : o.leaf with
    | type u =>
      rw [hl] at hp
      cases hp
      exact ⟨rfl, rfl⟩
    | unrecognized kind =>
      rw [hl, leafOutcome, resolving_warn] at hp
      split at hp
      · cases hp
      · cases hp
        exact ⟨rfl, rfl⟩
    | choices id literals =>
      rw [hl] at hp
      obtain ⟨q, hq, rfl⟩ := Fallible.map_eq_ok.mp hp
      obtain ⟨r, hr, hb⟩ := resolving_eq_ok.mp hq
      exact ⟨q.1, r, rfl, hr, hb⟩
    | object id =>
      rw [hl] at hp
      obtain ⟨q, hq, rfl⟩ := Fallible.map_eq_ok.mp hp
      exact ⟨q.1, rfl, hq⟩

/-! ## Properties -/

/-- The property of a field, once the type of its place is known. -/
def described (s : Schema) (name field : String) (place : Option NodeId) (type : TargetType) :
    Except BuildError Property :=
  let node := place.bind s.node?
  let literal := node.bind (·.default)
  match synthesize name type literal with
  | .ok default =>
    .ok { name, field, type, default, literal,
          description := (node.map (·.description)).getD .null }
  | .error e => .error (.ofSynthesis e)

theorem described_ok {name field : String} {place : Option NodeId} {t : TargetType} {p : Property}
    (h : described s name field place t = .ok p) :
    p.field = field ∧ p.type = t ∧
      synthesize name t ((place.bind s.node?).bind (·.default)) = .ok p.default ∧
      p.name = name ∧ p.literal = (place.bind s.node?).bind (·.default) ∧
      p.description = ((place.bind s.node?).map (·.description)).getD .null := by
  unfold described at h
  simp only at h
  split at h
  · rename_i default hdefault
    cases h
    exact ⟨rfl, rfl, hdefault, rfl, rfl, rfl⟩
  · cases h

theorem properties_cons (fields : Naming.FieldTable) (name : String) (place : Option NodeId)
    (ps : List (String × Option NodeId)) (b : Building) :
    properties s settings object fields ((name, place) :: ps) b =
      match fields.claim name with
      | .error c => .error (.collision c)
      | .ok (field, fields') =>
        ((resolve s settings object place name b).bind fun p =>
          (described s name field place p.1).map fun q => ((q, fields'), p.2)).bind fun p =>
            (properties s settings object p.1.2 ps p.2).map fun q => (p.1.1 :: q.1, q.2) := by
  rw [properties, run_bind, claim]
  cases fields.claim name with
  | error c => rfl
  | ok r =>
    show (resolve s settings object place name b).bind _ = _
    cases resolve s settings object place name b with
    | error e => rfl
    | ok p =>
      show (defaultOf name p.1 _ p.2).bind _ =
        (Except.map _ (described s name r.1 place p.1)).bind _
      rw [defaultOf, described]
      simp only
      cases synthesize name p.1 ((place.bind s.node?).bind (·.default)) <;> rfl

/-- One property is described, then the others. -/
theorem properties_cons_ok {fields : Naming.FieldTable} {name : String} {place : Option NodeId}
    {ps : List (String × Option NodeId)} {b b' : Building} {out : List Property}
    (h : properties s settings object fields ((name, place) :: ps) b = .ok (out, b')) :
    ∃ p rest fields' b₁, out = p :: rest ∧
      fields.claim name = .ok (p.field, fields') ∧
      resolve s settings object place name b = .ok (p.type, b₁) ∧
      synthesize name p.type ((place.bind s.node?).bind (·.default)) = .ok p.default ∧
      p.name = name ∧ p.literal = (place.bind s.node?).bind (·.default) ∧
      p.description = ((place.bind s.node?).map (·.description)).getD .null ∧
      properties s settings object fields' ps b₁ = .ok (rest, b') := by
  rw [properties_cons] at h
  cases hc : fields.claim name with
  | error c =>
    rw [hc] at h
    cases h
  | ok r =>
    obtain ⟨field, fields'⟩ := r
    rw [hc] at h
    obtain ⟨⟨⟨p, fields''⟩, b₁⟩, hp, h⟩ := Fallible.bind_eq_ok.mp h
    obtain ⟨⟨t, b₂⟩, ht, hp⟩ := Fallible.bind_eq_ok.mp hp
    obtain ⟨q, hq, hp⟩ := Fallible.map_eq_ok.mp hp
    cases hp
    obtain ⟨⟨rest, b₃⟩, hrest, hx⟩ := Fallible.map_eq_ok.mp h
    cases hx
    obtain ⟨rfl, rfl, hdefault, hname, hliteral, hdescription⟩ := described_ok hq
    exact ⟨p, rest, fields', b₂, rfl, rfl, ht, hdefault, hname, hliteral, hdescription, hrest⟩

/-! ## Objects -/

/-- The state in which the properties of a new object are described: it has its name and is
registered. -/
def opened (b : Building) (s : Schema) (id : NodeId) (base : String) : Building :=
  register { b with resolver := b.resolver.allocated base id } id
    ⟨(b.resolver.names.allocate base id).1, documentation ((s.node? id).getD {}), []⟩

/-- The name that the type of a new object gets, which is the first that is free. -/
def newName (b : Building) (id : NodeId) (hint : String) : String :=
  (b.resolver.names.allocate (Naming.className hint) id).1

theorem object_succ (fuel : Nat) (id : NodeId) (hint : String) (b : Building) :
    Building.object s settings (fuel + 1) id hint b =
      match b.references.lookup id with
      | some name => .ok (name, b)
      | none => (properties s settings (Building.object s settings fuel)
          (.empty ("type " ++ b.newName id hint)) ((s.node? id).getD {}).propertyList
          (b.opened s id (Naming.className hint))).map fun p =>
            (b.newName id hint, p.2.describe (b.newName id hint) p.1) := by
  have hget : (get : Action Building) b = .ok (b, b) := rfl
  rw [Building.object, run_bind, hget, Except.bind]
  cases b.references.lookup id <;> rfl

/-- An object that was met before has its name; a new one is registered and then described. -/
theorem object_ok {fuel : Nat} {id : NodeId} {hint name : String} {b b' : Building}
    (h : Building.object s settings (fuel + 1) id hint b = .ok (name, b')) :
    (b.references.lookup id = some name ∧ b' = b) ∨
    (b.references.lookup id = none ∧
      name = (b.resolver.names.allocate (Naming.className hint) id).1 ∧
      ∃ ps b₁, properties s settings (Building.object s settings fuel) (.empty ("type " ++ name))
          ((s.node? id).getD {}).propertyList (b.opened s id (Naming.className hint)) =
            .ok (ps, b₁) ∧
        b' = b₁.describe name ps) := by
  rw [object_succ] at h
  cases hl : b.references.lookup id with
  | some known =>
    rw [hl] at h
    cases h
    exact .inl ⟨rfl, rfl⟩
  | none =>
    rw [hl] at h
    obtain ⟨⟨ps, b₁⟩, hps, hx⟩ := Fallible.map_eq_ok.mp h
    cases hx
    exact .inr ⟨rfl, rfl, ps, b₁, hps, rfl⟩

end Building

/-- A generation builds the root and what it leads to. -/
theorem Generation.ofSchema_eq (s : Schema) (settings : Settings) (name : String) :
    ofSchema s settings name =
      (Building.object s settings (s.nodes.size + 1) s.root name .empty).map
        fun p => p.2.finish p.1 := by
  rw [ofSchema]
  show (Building.object s settings (s.nodes.size + 1) s.root name .empty).bind _ = _
  cases Building.object s settings (s.nodes.size + 1) s.root name .empty <;> rfl

/-- A successful generation has built the root, whose name is the first that was given. -/
theorem Generation.exists_built {s : Schema} {settings : Settings} {name : String} {g : Generation}
    (h : ofSchema s settings name = .ok g) : ∃ b,
      Building.object s settings (s.nodes.size + 1) s.root name .empty =
        .ok (Naming.className name, b) ∧
      g = b.finish (Naming.className name) := by
  rw [ofSchema_eq] at h
  obtain ⟨⟨root, b⟩, hb, rfl⟩ := Fallible.map_eq_ok.mp h
  obtain ⟨hknown, -⟩ | ⟨-, hname, -⟩ := Building.object_ok hb
  · cases hknown
  · cases hname
    exact ⟨b, hb, rfl⟩

end SchemaModel
