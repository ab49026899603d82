import SchemaModel.Proofs.Generation.Steps
import SchemaModel.Proofs.Synthesis.Inhabits
import SchemaModel.Proofs.Tables

/-!
Wider integers. Under settings that represent integers with 64 bits a generation follows the one
with 32 bits step by step: it is in the same state but for the types of integers (`Building.widen`),
so that it succeeds where the other one does, and gives the same but for these types
(`Generation.ofSchema_widen`).
-/
namespace SchemaModel

open Fallible

/-! ## Types and defaults -/

namespace TargetType

/-- The type with integers of 64 bits. -/
def widen : TargetType → TargetType
  | .scalar .integer => .scalar .long
  | .list element => .list element.widen
  | .set element => .set element.widen
  | t => t

theorem isReference_widen (t : TargetType) : t.widen.isReference = t.isReference := by
  cases t with
  | scalar kind => cases kind <;> rfl
  | _ => rfl

end TargetType

theorem widen_wrap (arrays : List Bool) (t : TargetType) :
    (wrap arrays t).widen = wrap arrays t.widen := by
  induction arrays with
  | nil => rfl
  | cons unique arrays ih =>
    cases unique
    · exact congrArg TargetType.list ih
    · exact congrArg TargetType.set ih

/-- What fits into 32 bits fits into 64. -/
theorem Literal.toSigned_widen {l : Literal} {i : Int} (h : l.toSigned 32 = .ok i) :
    l.toSigned 64 = .ok i := by
  obtain ⟨hi, hlow, hhigh⟩ := toSigned_eq_ok.mp h
  have h32 : signedBounds 32 = (-2147483648, 2147483647) := rfl
  have h64 : signedBounds 64 = (-9223372036854775808, 9223372036854775807) := rfl
  rw [h32] at hlow hhigh
  refine toSigned_eq_ok.mpr ⟨hi, ?_⟩
  rw [h64]
  dsimp only at hlow hhigh ⊢
  omega

namespace Synthesis

variable {property : String} {t element : TargetType} {v : Value}

theorem items_widen {l : Option Literal} {ls : List Literal} (u : TargetType)
    (h : items property t l = .ok ls) : items property u l = .ok ls := by
  unfold items at h ⊢
  split at h
  · exact h
  · exact h
  · split at h
    · exact h
    · cases h

theorem integer_widen {l : Option Literal}
    (h : synthesize property (.scalar .integer) l = .ok v) :
    synthesize property (.scalar .long) l = .ok v := by
  cases l with
  | none => exact h
  | some l =>
    by_cases hl : l = .null
    · rw [hl] at h ⊢
      exact h
    · simp only [synthesize] at h ⊢
      obtain ⟨i, hi, rfl⟩ := map_eq_ok.mp (mapError_eq_ok.mp h)
      exact mapError_eq_ok.mpr (map_eq_ok.mpr ⟨i, Literal.toSigned_widen hi, rfl⟩)

theorem collection_widen {u : TargetType} {l : Option Literal} {β : Type} {f : List Value → β}
    {y : β} (ih : ∀ l v, synthesize property element l = .ok v →
      synthesize property element.widen l = .ok v)
    (h : (do
      let ls ← items property t l
      return f (← ls.mapM fun item => synthesize property element (some item))) = .ok y) :
    (do
      let ls ← items property u l
      return f (← ls.mapM fun item => synthesize property element.widen (some item))) = .ok y := by
  obtain ⟨ls, hls, h⟩ := bind_eq_ok.mp h
  obtain ⟨xs, hxs, h⟩ := bind_eq_ok.mp h
  refine bind_eq_ok.mpr ⟨ls, items_widen u hls, bind_eq_ok.mpr ⟨xs, ?_, h⟩⟩
  exact mapM_eq_ok_of_imp (fun item x => ih (some item) x) hxs

/-- A default of a type with integers of 32 bits is also one of the type with wider integers. -/
theorem synthesize_widen (t : TargetType) (l : Option Literal) (v : Value)
    (h : synthesize property t l = .ok v) : synthesize property t.widen l = .ok v := by
  induction t generalizing l v with
  | scalar kind =>
    cases kind with
    | integer => exact integer_widen h
    | _ => exact h
  | date | enum | reference => exact h
  | list element ih =>
    rw [synthesize] at h
    rw [TargetType.widen, synthesize, TargetType.isReference_widen]
    by_cases helement : element.isReference = true
    · rw [if_pos helement] at h ⊢
      exact h
    · rw [if_neg helement] at h ⊢
      exact collection_widen ih h
  | set element ih =>
    rw [synthesize] at h
    rw [TargetType.widen, synthesize, TargetType.isReference_widen]
    by_cases helement : element.isReference = true
    · rw [if_pos helement] at h ⊢
      exact h
    · rw [if_neg helement] at h ⊢
      exact collection_widen ih h

end Synthesis

/-! ## Forms -/

namespace Settings

/-- The settings with integers of 32 bits. -/
def narrow (settings : Settings) : Settings := { settings with longIntegers := false }

/-- The settings with integers of 64 bits. -/
def wide (settings : Settings) : Settings := { settings with longIntegers := true }

end Settings

variable {s : Schema} {settings : Settings}

/-- What a node says, with wider integers. -/
def Form.widen : Form → Form
  | .type t => .type t.widen
  | form => form

theorem SchemaNode.formOfKind_wide (n : SchemaNode) :
    n.formOfKind settings.wide = (n.formOfKind settings.narrow).widen := by
  have hdate : settings.wide.dateFormat? n.format = settings.narrow.dateFormat? n.format := rfl
  unfold formOfKind
  rw [hdate]
  cases n.knownKind? with
  | none => rfl
  | some kind =>
    cases kind with
    | date | string => cases settings.narrow.dateFormat? n.format <;> rfl
    | integer | number | boolean | array | object => rfl

theorem SchemaNode.form_wide (n : SchemaNode) :
    n.form settings.wide = (n.form settings.narrow).widen := by
  unfold form
  cases n.choices? with
  | some literals => rfl
  | none =>
    dsimp only
    split
    · rfl
    · exact n.formOfKind_wide

/-- What a leaf says, with wider integers. -/
def Leaf.widen : Leaf → Leaf
  | .type t => .type t.widen
  | leaf => leaf

/-- What a place says, with wider integers. -/
def Outline.widen (o : Outline) : Outline := { o with leaf := o.leaf.widen }

theorem Schema.outlineFrom_wide (fuel : Nat) (place : Option NodeId) :
    s.outlineFrom settings.wide fuel place =
      (s.outlineFrom settings.narrow fuel place).map Outline.widen := by
  induction fuel generalizing place with
  | zero => cases place <;> rfl
  | succ fuel ih =>
    cases place with
    | none => rfl
    | some id =>
      rw [outlineFrom, outlineFrom]
      cases s.node? id with
      | none => rfl
      | some n =>
        simp only [n.form_wide]
        cases n.form settings.narrow with
        | array unique items =>
          simp only [Form.widen, ih, Option.map_map]
          rfl
        | _ => rfl

theorem Schema.outline?_wide (place : Option NodeId) :
    s.outline? settings.wide place = (s.outline? settings.narrow place).map Outline.widen :=
  outlineFrom_wide _ place

/-! ## States -/

/-- The property with wider integers. -/
def Property.widen (p : Property) : Property := { p with type := p.type.widen }

/-- The generated type with wider integers. -/
def GeneratedType.widen (t : GeneratedType) : GeneratedType :=
  { t with properties := t.properties.map Property.widen }

/-- What is generated, with wider integers. -/
def Generation.widen (g : Generation) : Generation :=
  { g with root := g.root.widen, types := g.types.map GeneratedType.widen }

namespace Building

/-- The state of a generation, with wider integers. -/
def widen (b : Building) : Building := { b with types := b.types.map fun (k, t) => (k, t.widen) }

theorem widen_opened (b : Building) (s : Schema) (id : NodeId) (base : String) :
    (b.opened s id base).widen = b.widen.opened s id base := by
  simp [opened, register, widen, GeneratedType.widen]

theorem widen_describe (b : Building) (name : String) (ps : List Property) :
    (b.describe name ps).widen = b.widen.describe name (ps.map Property.widen) := by
  simp only [describe, widen, List.map_map, Building.mk.injEq, true_and, and_true]
  refine List.map_congr_left fun e he => ?_
  obtain ⟨k, t⟩ := e
  by_cases hk : k = name <;> simp [hk, GeneratedType.widen]

theorem widen_finish (b : Building) (root : String) :
    (b.finish root).widen = b.widen.finish root := by
  have hroot : ((b.types.lookup root).getD ⟨root, .null, []⟩).widen =
      (b.widen.types.lookup root).getD ⟨root, .null, []⟩ := by
    rw [widen, Tables.lookup_map]
    cases b.types.lookup root <;> rfl
  have htypes : ((b.types.filter fun (k, _) => k ≠ root).map (·.2)).map GeneratedType.widen =
      (b.widen.types.filter fun (k, _) => k ≠ root).map (·.2) := by
    rw [widen, List.filter_map, List.map_map, List.map_map]
    rfl
  rw [finish, finish, Generation.widen, ← hroot, ← htypes]
  simp [widen]

/-! ## Steps -/

/-- Two ways to build objects of which the second follows the first, with wider integers. -/
def Follows (object object' : NodeId → String → Action String) : Prop :=
  ∀ id hint name (b b' : Building), object id hint b = .ok (name, b') →
    object' id hint b.widen = .ok (name, b'.widen)

variable {object object' : NodeId → String → Action String} {b b' : Building}

theorem leafOutcome_widen (hobj : Follows object object') {hint : String} {leaf : Leaf}
    {t : TargetType} (h : leafOutcome object hint b leaf = .ok (t, b')) :
    leafOutcome object' hint b.widen leaf.widen = .ok (t.widen, b'.widen) := by
  cases leaf with
  | type u =>
    cases h
    rfl
  | unrecognized kind =>
    obtain ⟨⟨u, b₁⟩, hu, hx⟩ := map_eq_ok.mp h
    cases hx
    obtain ⟨r, hr, rfl⟩ := resolving_eq_ok.mp hu
    exact map_eq_ok.mpr ⟨(u, _), resolving_eq_ok.mpr ⟨r, hr, rfl⟩, rfl⟩
  | choices id literals =>
    obtain ⟨⟨u, b₁⟩, hu, hx⟩ := map_eq_ok.mp h
    cases hx
    obtain ⟨r, hr, rfl⟩ := resolving_eq_ok.mp hu
    exact map_eq_ok.mpr ⟨(u, _), resolving_eq_ok.mpr ⟨r, hr, rfl⟩, rfl⟩
  | object id =>
    obtain ⟨⟨name, b₁⟩, hname, hx⟩ := map_eq_ok.mp h
    cases hx
    exact map_eq_ok.mpr ⟨(name, _), hobj id hint name b b₁ hname, rfl⟩

theorem resolve_widen (hobj : Follows object object') {place : Option NodeId} {hint : String}
    {t : TargetType} (h : resolve s settings.narrow object place hint b = .ok (t, b')) :
    resolve s settings.wide object' place hint b.widen = .ok (t.widen, b'.widen) := by
  rw [resolve_eq] at h ⊢
  rw [Schema.outline?_wide]
  cases ho : s.outline? settings.narrow place with
  | none =>
    rw [ho] at h
    cases h
  | some o =>
    rw [ho] at h
    obtain ⟨⟨u, b₁⟩, hu, hx⟩ := map_eq_ok.mp h
    cases hx
    refine map_eq_ok.mpr ⟨(u.widen, b₁.widen), leafOutcome_widen hobj hu, ?_⟩
    rw [widen_wrap]
    rfl

theorem described_widen {name field : String} {place : Option NodeId} {t : TargetType}
    {p : Property} (h : described s name field place t = .ok p) :
    described s name field place t.widen = .ok p.widen := by
  unfold described at h ⊢
  dsimp only at h ⊢
  split at h
  · rename_i default hdefault
    cases h
    rw [Synthesis.synthesize_widen _ _ _ hdefault]
    rfl
  · cases h

theorem properties_widen (hobj : Follows object object') {fields : Naming.FieldTable}
    {ps : List (String × Option NodeId)} {out : List Property}
    (h : properties s settings.narrow object fields ps b = .ok (out, b')) :
    properties s settings.wide object' fields ps b.widen =
      .ok (out.map Property.widen, b'.widen) := by
  induction ps generalizing fields b out with
  | nil =>
    obtain ⟨rfl, rfl⟩ := Stateful.pure_eq_ok.mp h
    rfl
  | cons entry ps ih =>
    obtain ⟨name, place⟩ := entry
    rw [properties_cons] at h ⊢
    cases hclaim : fields.claim name with
    | error c =>
      rw [hclaim] at h
      cases h
    | ok claimed =>
      obtain ⟨field, fields'⟩ := claimed
      rw [hclaim] at h
      obtain ⟨_, hhead, h⟩ := bind_eq_ok.mp h
      obtain ⟨⟨t, b₁⟩, ht, hhead⟩ := bind_eq_ok.mp hhead
      obtain ⟨p, hp, rfl⟩ := map_eq_ok.mp hhead
      obtain ⟨⟨rest, b₂⟩, hrest, hx⟩ := map_eq_ok.mp h
      cases hx
      refine bind_eq_ok.mpr ⟨((p.widen, fields'), b₁.widen), ?_, ?_⟩
      · refine bind_eq_ok.mpr ⟨(t.widen, b₁.widen), resolve_widen hobj ht, ?_⟩
        exact map_eq_ok.mpr ⟨p.widen, described_widen hp, rfl⟩
      · exact map_eq_ok.mpr ⟨(rest.map Property.widen, b₂.widen), ih hrest, rfl⟩

/-- The building of objects follows, however objects refer to each other. -/
theorem object_widen (fuel : Nat) : Follows (Building.object s settings.narrow fuel)
    (Building.object s settings.wide fuel) := by
  induction fuel with
  | zero =>
    intro id hint name b b' h
    cases h
  | succ fuel ih =>
    intro id hint name b b' h
    rw [object_succ] at h ⊢
    have hknown : b.widen.references = b.references := rfl
    rw [hknown]
    cases hl : b.references.lookup id with
    | some known =>
      rw [hl] at h
      cases h
      rfl
    | none =>
      rw [hl] at h
      obtain ⟨⟨ps, b₁⟩, hps, hx⟩ := map_eq_ok.mp h
      cases hx
      -- the object is opened in the same way in both states, since names do not depend on widths
      have hopened := properties_widen ih hps
      rw [widen_opened] at hopened
      refine map_eq_ok.mpr ⟨(ps.map Property.widen, b₁.widen), hopened, ?_⟩
      rw [widen_describe]
      rfl

end Building

theorem Generation.ofSchema_widen {name : String} {g : Generation}
    (h : ofSchema s settings.narrow name = .ok g) : ofSchema s settings.wide name = .ok g.widen := by
  rw [ofSchema_eq] at h ⊢
  obtain ⟨⟨root, b⟩, hb, rfl⟩ := map_eq_ok.mp h
  refine map_eq_ok.mpr ⟨(root, b.widen), Building.object_widen _ _ _ _ .empty b hb, ?_⟩
  rw [Building.widen_finish]

end SchemaModel
