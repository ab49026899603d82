import SchemaModel.Proofs.Generation.Steps
import SchemaModel.Proofs.Tables

/-!
The course of a generation, as it goes without a limit: the types of objects, the types of places
and the properties of objects are found in runs that contain each other. A run is finite, ends with
what is found or with an error, and lists the objects whose properties it set out to build. There is
one run at most for everything that is to be found (`Run.unique`), and it sets out to build every
object once at most, none of which was met before (`Run.meets`).
-/
namespace SchemaModel

/-- The errors that a generation raises by itself, without a limit to its steps. -/
def BuildError.Raised : BuildError → Prop
  | .endlessItems | .steps => False
  | _ => True

namespace Building

/-- What there is to find in the course of a generation. -/
inductive Task
  /-- The name of the type of an object. -/
  | object (id : NodeId) (hint : String)
  /-- The type of a place. -/
  | place (place : Option NodeId) (hint : String)
  /-- One property, next to fields that are taken. -/
  | property (fields : Naming.FieldTable) (name : String) (place : Option NodeId)
  | properties (fields : Naming.FieldTable) (ps : List (String × Option NodeId))

abbrev Task.Result : Task → Type
  | .object .. => String
  | .place .. => TargetType
  | .property .. => Property × Naming.FieldTable
  | .properties .. => List Property

/-- A run from a state of a generation, with its outcome and the objects whose properties it set out
to build. -/
inductive Run (s : Schema) (settings : Settings) :
    (task : Task) → Building → Outcome task.Result → List NodeId → Prop
  | known {id : NodeId} {hint name : String} {b : Building}
      (h : b.references.lookup id = some name) :
      Run s settings (.object id hint) b (.ok (name, b)) []
  /-- A new object is registered before its properties are described. -/
  | new {id : NodeId} {hint : String} {b : Building} {r : Outcome (List Property)}
      {built : List NodeId} (h : b.references.lookup id = none)
      (hps : Run s settings
        (.properties (.empty ("type " ++ b.newName id hint)) ((s.node? id).getD {}).propertyList)
        (b.opened s id (Naming.className hint)) r built) :
      Run s settings (.object id hint) b
        (r.map fun p => (b.newName id hint, p.2.describe (b.newName id hint) p.1)) (id :: built)
  | absent {place : Option NodeId} {hint : String} {b : Building}
      (h : place.bind s.node? = none) :
      Run s settings (.place place hint) b (.ok (.scalar .string, b)) []
  | type {id : NodeId} {n : SchemaNode} {t : TargetType} {hint : String} {b : Building}
      (hn : s.node? id = some n) (hf : n.form settings = .type t) :
      Run s settings (.place (some id) hint) b (.ok (t, b)) []
  | choices {id : NodeId} {n : SchemaNode} {literals : List Literal} {hint : String} {b : Building}
      (hn : s.node? id = some n) (hf : n.form settings = .choices literals) :
      Run s settings (.place (some id) hint) b
        ((resolving (Resolver.enumType id literals hint) b).map fun p => (.enum p.1, p.2)) []
  | unrecognized {id : NodeId} {n : SchemaNode} {hint : String} {b : Building}
      (hn : s.node? id = some n) (hf : n.form settings = .unrecognized) :
      Run s settings (.place (some id) hint) b
        ((resolving (Resolver.warn n.kind hint) b).map fun p => (.scalar .string, p.2)) []
  /-- An array is resolved by its items. -/
  | array {id : NodeId} {n : SchemaNode} {unique : Bool} {items : Option NodeId} {hint : String}
      {b : Building} {r : Outcome TargetType} {built : List NodeId}
      (hn : s.node? id = some n) (hf : n.form settings = .array unique items)
      (h : Run s settings (.place items hint) b r built) :
      Run s settings (.place (some id) hint) b (r.map fun p => (wrap [unique] p.1, p.2)) built
  | reference {id : NodeId} {n : SchemaNode} {hint : String} {b : Building} {r : Outcome String}
      {built : List NodeId} (hn : s.node? id = some n) (hf : n.form settings = .object)
      (h : Run s settings (.object id hint) b r built) :
      Run s settings (.place (some id) hint) b (r.map fun p => (.reference p.1, p.2)) built
  | taken {fields : Naming.FieldTable} {name : String} {place : Option NodeId} {b : Building}
      {c : Naming.Collision} (h : fields.claim name = .error c) :
      Run s settings (.property fields name place) b (.error (.collision c)) []
  | claimed {fields fields' : Naming.FieldTable} {name field : String} {place : Option NodeId}
      {b : Building} {r : Outcome TargetType} {built : List NodeId}
      (hc : fields.claim name = .ok (field, fields'))
      (h : Run s settings (.place place name) b r built) :
      Run s settings (.property fields name place) b
        (r.bind fun p => (described s name field place p.1).map fun q => ((q, fields'), p.2)) built
  | nil {fields : Naming.FieldTable} {b : Building} :
      Run s settings (.properties fields []) b (.ok ([], b)) []
  /-- The first property that fails ends the run. -/
  | failed {fields : Naming.FieldTable} {name : String} {place : Option NodeId}
      {ps : List (String × Option NodeId)} {b : Building} {e : BuildError} {built : List NodeId}
      (h : Run s settings (.property fields name place) b (.error e) built) :
      Run s settings (.properties fields ((name, place) :: ps)) b (.error e) built
  | cons {fields fields' : Naming.FieldTable} {name : String} {place : Option NodeId}
      {ps : List (String × Option NodeId)} {b b₁ : Building} {p : Property}
      {r : Outcome (List Property)} {built built' : List NodeId}
      (h : Run s settings (.property fields name place) b (.ok ((p, fields'), b₁)) built)
      (hps : Run s settings (.properties fields' ps) b₁ r built') :
      Run s settings (.properties fields ((name, place) :: ps)) b
        (r.map fun q => (p :: q.1, q.2)) (built ++ built')

variable {s : Schema} {settings : Settings} {id : NodeId} {hint name field : String}
  {b b₁ : Building} {place items : Option NodeId} {n : SchemaNode}
  {fields fields' : Naming.FieldTable} {ps : List (String × Option NodeId)}
  {built built' : List NodeId}

namespace Run

/-! ## There is one run at most -/

theorem of_known {r : Outcome String} (h : Run s settings (.object id hint) b r built)
    (hl : b.references.lookup id = some name) : r = .ok (name, b) ∧ built = [] := by
  cases h with
  | known hl' =>
    rw [hl] at hl'
    cases hl'
    exact ⟨rfl, rfl⟩
  | new hl' =>
    rw [hl] at hl'
    cases hl'

theorem of_new {r : Outcome String} (h : Run s settings (.object id hint) b r built)
    (hl : b.references.lookup id = none) : ∃ (r₁ : Outcome (List Property)) (built₁ : List NodeId),
      r = r₁.map (fun p => (b.newName id hint, p.2.describe (b.newName id hint) p.1)) ∧
      built = id :: built₁ ∧ Run s settings (.properties (.empty ("type " ++ b.newName id hint))
        ((s.node? id).getD {}).propertyList) (b.opened s id (Naming.className hint)) r₁ built₁ := by
  cases h with
  | known hl' =>
    rw [hl] at hl'
    cases hl'
  | new _ hps => exact ⟨_, _, rfl, rfl, hps⟩

theorem of_array {r : Outcome TargetType} {unique : Bool}
    (h : Run s settings (.place (some id) hint) b r built) (hn : s.node? id = some n)
    (hf : n.form settings = .array unique items) : ∃ r₁ : Outcome TargetType,
      r = r₁.map (fun p => (wrap [unique] p.1, p.2)) ∧
      Run s settings (.place items hint) b r₁ built := by
  cases h with
  | array hn' hf' h =>
    rw [hn] at hn'
    cases hn'
    rw [hf] at hf'
    cases hf'
    exact ⟨_, rfl, h⟩
  | _ => simp_all

theorem of_reference {r : Outcome TargetType}
    (h : Run s settings (.place (some id) hint) b r built) (hn : s.node? id = some n)
    (hf : n.form settings = .object) : ∃ r₁ : Outcome String,
      r = r₁.map (fun p => (.reference p.1, p.2)) ∧
      Run s settings (.object id hint) b r₁ built := by
  cases h with
  | reference _ _ h => exact ⟨_, rfl, h⟩
  | _ => simp_all

theorem of_taken {r : Outcome (Property × Naming.FieldTable)} {c : Naming.Collision}
    (h : Run s settings (.property fields name place) b r built)
    (hc : fields.claim name = .error c) : r = .error (.collision c) ∧ built = [] := by
  cases h with
  | taken hc' =>
    rw [hc] at hc'
    cases hc'
    exact ⟨rfl, rfl⟩
  | claimed hc' =>
    rw [hc] at hc'
    cases hc'

theorem of_claimed {r : Outcome (Property × Naming.FieldTable)}
    (h : Run s settings (.property fields name place) b r built)
    (hc : fields.claim name = .ok (field, fields')) : ∃ r₁ : Outcome TargetType,
      r = r₁.bind (fun p => (described s name field place p.1).map fun q => ((q, fields'), p.2)) ∧
      Run s settings (.place place name) b r₁ built := by
  cases h with
  | taken hc' =>
    rw [hc] at hc'
    cases hc'
  | claimed hc' h =>
    rw [hc] at hc'
    cases hc'
    exact ⟨_, rfl, h⟩

theorem of_cons {r : Outcome (List Property)}
    (h : Run s settings (.properties fields ((name, place) :: ps)) b r built) :
    (∃ e, r = .error e ∧ Run s settings (.property fields name place) b (.error e) built) ∨
    ∃ (p : Property) (fields' : Naming.FieldTable) (b₁ : Building) (r₁ : Outcome (List Property))
      (built₁ built₂ : List NodeId), r = r₁.map (fun q => (p :: q.1, q.2)) ∧
      built = built₁ ++ built₂ ∧
      Run s settings (.property fields name place) b (.ok ((p, fields'), b₁)) built₁ ∧
      Run s settings (.properties fields' ps) b₁ r₁ built₂ := by
  cases h with
  | failed h => exact .inl ⟨_, rfl, h⟩
  | cons h hps => exact .inr ⟨_, _, _, _, _, _, rfl, rfl, h, hps⟩

theorem unique {task : Task} {r r' : Outcome task.Result} (h : Run s settings task b r built)
    (h' : Run s settings task b r' built') : r' = r ∧ built' = built := by
  induction h generalizing built' with
  | known hl => exact h'.of_known hl
  | new hl _ ih =>
    obtain ⟨r₁, built₁, rfl, rfl, hps⟩ := h'.of_new hl
    obtain ⟨rfl, rfl⟩ := ih hps
    exact ⟨rfl, rfl⟩
  | absent hn =>
    cases h' with
    | absent => exact ⟨rfl, rfl⟩
    | _ => simp_all
  | type hn hf => cases h' <;> simp_all
  | choices hn hf => cases h' <;> simp_all
  | unrecognized hn hf => cases h' <;> simp_all
  | array hn hf _ ih =>
    obtain ⟨r₁, rfl, hitems⟩ := h'.of_array hn hf
    obtain ⟨rfl, rfl⟩ := ih hitems
    exact ⟨rfl, rfl⟩
  | reference hn hf _ ih =>
    obtain ⟨r₁, rfl, hobject⟩ := h'.of_reference hn hf
    obtain ⟨rfl, rfl⟩ := ih hobject
    exact ⟨rfl, rfl⟩
  | taken hc => exact h'.of_taken hc
  | claimed hc _ ih =>
    obtain ⟨r₁, rfl, hplace⟩ := h'.of_claimed hc
    obtain ⟨rfl, rfl⟩ := ih hplace
    exact ⟨rfl, rfl⟩
  | nil =>
    cases h'
    exact ⟨rfl, rfl⟩
  | failed _ ih =>
    obtain ⟨e, rfl, hp⟩ | ⟨p, fields', b₁, r₁, built₁, built₂, rfl, rfl, hp, -⟩ := h'.of_cons
    · obtain ⟨he, rfl⟩ := ih hp
      cases he
      exact ⟨rfl, rfl⟩
    · cases (ih hp).1
  | cons _ _ ih ihps =>
    obtain ⟨e, rfl, hp⟩ | ⟨p, fields', b₁, r₁, built₁, built₂, rfl, rfl, hp, hps⟩ := h'.of_cons
    · cases (ih hp).1
    · obtain ⟨he, rfl⟩ := ih hp
      cases he
      obtain ⟨rfl, rfl⟩ := ihps hps
      exact ⟨rfl, rfl⟩

end Run

/-! ## What a run meets -/

/-- The objects that have been met, the last one first. -/
def met (b : Building) : List NodeId := b.references.map (·.1)

theorem met_opened (b : Building) (s : Schema) (id : NodeId) (base : String) :
    (b.opened s id base).met = id :: b.met := rfl

/-- What is met on the way to an outcome: the objects whose properties are built, which are new. -/
structure Meets {α : Type} (b : Building) (r : Outcome α) (built : List NodeId) : Prop where
  met : ∀ x b', r = .ok (x, b') → b'.met = built.reverse ++ b.met
  once : b.met.Nodup → (built.reverse ++ b.met).Nodup
  raised : ∀ e, r = .error e → e.Raised

section

variable {α β : Type} {r : Outcome α}

theorem Meets.ok {x : α} {b' : Building} (h : b'.met = b.met) : Meets b (.ok (x, b')) [] where
  met y b'' he := by
    cases he
    exact h
  once hb := hb
  raised := nofun

theorem Meets.error {e : BuildError} (h : e.Raised) : Meets b (.error e : Outcome α) [] where
  met := nofun
  once hb := hb
  raised e' he := by
    cases he
    exact h

/-- What comes after an outcome adds nothing to what was met. -/
theorem Meets.bind {f : α × Building → Outcome β} (h : Meets b r built)
    (hmet : ∀ p y b', f p = .ok (y, b') → b'.met = p.2.met)
    (hraised : ∀ p e, f p = .error e → e.Raised) : Meets b (r.bind f) built where
  met y b'' he := by
    obtain ⟨p, hp, hy⟩ := Fallible.bind_eq_ok.mp he
    rw [hmet p y b'' hy, h.met p.1 p.2 hp]
  once := h.once
  raised e he := by
    rcases Fallible.bind_eq_error.mp he with he | ⟨p, -, he⟩
    · exact h.raised e he
    · exact hraised p e he

theorem Meets.map {f : α × Building → β × Building} (h : Meets b r built)
    (hmet : ∀ p, (f p).2.met = p.2.met) : Meets b (r.map f) built where
  met y b'' he := by
    obtain ⟨p, hp, hy⟩ := Fallible.map_eq_ok.mp he
    have := hmet p
    rw [hy] at this
    rw [this, h.met p.1 p.2 hp]
  once := h.once
  raised e he := h.raised e (Fallible.map_eq_error.mp he)

end

theorem met_describe (b : Building) (name : String) (ps : List Property) :
    (b.describe name ps).met = b.met := rfl

theorem raised_described {t : TargetType} {e : BuildError}
    (h : described s name field place t = .error e) : e.Raised := by
  unfold described at h
  simp only at h
  split at h
  · cases h
  · rename_i e' _
    cases h
    cases e' <;> trivial

theorem resolving_eq_error {α : Type} {a : Resolver.Action α} {e : BuildError}
    (h : resolving a b = .error e) :
    ∃ e' r, a.run.run b.resolver = (.error e', r) ∧ e = .ofResolve e' := by
  unfold resolving at h
  split at h
  · cases h
  · rename_i e' r hr
    cases h
    exact ⟨e', r, hr, rfl⟩

theorem meets_enumType (b : Building) (id : NodeId) (literals : List Literal) (hint : String) :
    Meets b (resolving (Resolver.enumType id literals hint) b) [] where
  met t b' h := by
    obtain ⟨r, -, rfl⟩ := resolving_eq_ok.mp h
    rfl
  once hb := hb
  raised e h := by
    obtain ⟨e', r, hr, rfl⟩ := resolving_eq_error h
    obtain ⟨c, rfl⟩ := Resolver.enumType_error hr
    cases c <;> trivial

theorem meets_warn (b : Building) (kind : Value) (hint : String) :
    Meets b (resolving (Resolver.warn kind hint) b) [] := by
  rw [resolving_warn]
  split
  · exact .error trivial
  · exact .ok rfl

/-- A run meets the objects that it builds, and only new ones. -/
theorem Run.meets {task : Task} {r : Outcome task.Result} (h : Run s settings task b r built) :
    Meets b r built := by
  induction h with
  | known _ | absent _ | type _ _ | nil => exact .ok rfl
  | unrecognized _ _ => exact (meets_warn ..).map fun _ => rfl
  | choices _ _ => exact (meets_enumType ..).map fun _ => rfl
  | array _ _ _ ih | reference _ _ _ ih => exact ih.map fun _ => rfl
  | taken _ => exact .error trivial
  | new hl _ ih =>
    have hnew := Tables.lookup_eq_none_iff.mp hl
    refine ⟨fun x b' he => ?_, fun hb => ?_, fun e he => ih.raised e (Fallible.map_eq_error.mp he)⟩
    · obtain ⟨p, hp, hx⟩ := Fallible.map_eq_ok.mp he
      cases hx
      rw [met_describe, ih.met p.1 p.2 hp, met_opened]
      simp
    · have := ih.once (List.nodup_cons.mpr ⟨hnew, hb⟩)
      rw [met_opened] at this
      simpa using this
  | claimed _ _ ih =>
    refine ih.bind (fun p y b' he => ?_) (fun p e he => ?_)
    · obtain ⟨q, -, hy⟩ := Fallible.map_eq_ok.mp he
      cases hy
      rfl
    · exact raised_described (Fallible.map_eq_error.mp he)
  | failed _ ih => exact ⟨nofun, ih.once, fun e he => ih.raised e (by cases he; rfl)⟩
  | cons _ _ ih ihps =>
    have hmet := ih.met _ _ rfl
    refine ⟨fun x b' he => ?_, fun hb => ?_,
      fun e he => ihps.raised e (Fallible.map_eq_error.mp he)⟩
    · obtain ⟨p, hp, hx⟩ := Fallible.map_eq_ok.mp he
      cases hx
      rw [ihps.met p.1 p.2 hp, hmet]
      simp
    · have := ihps.once (hmet ▸ ih.once hb)
      rw [hmet] at this
      simpa using this

end Building
end SchemaModel
