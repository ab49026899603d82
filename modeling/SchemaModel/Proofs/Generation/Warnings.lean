import SchemaModel.Proofs.Generation.Course
import SchemaModel.Proofs.Generation.Structure
import SchemaModel.Proofs.Resolution.ItemChains

/-!
The warnings of a generation. A property is warned about when its items lead to a declaration that no
rule of precedence knows, so that its type falls back to text. Every step of a generation adds the
warnings of the properties that it describes and those of the objects that it meets (`Reports`); and
as every object is met once, so are its properties warned about (`warnings_perm`).
-/
namespace SchemaModel

namespace Schema

variable {s : Schema} {settings : Settings} {place : Option NodeId} {id : NodeId} {n : SchemaNode}
  {kind : Value}

/-- Items lead from a place to a declaration that neither choices, nor the format of epoch
milliseconds, nor a known kind decide. -/
def FallsBack (s : Schema) (place : Option NodeId) (kind : Value) : Prop :=
  ∃ id n, s.Leads place id ∧ s.node? id = some n ∧ n.KindDecides none ∧ n.kind = kind

/-- The unknown kind for which a place falls back to text, if it does. -/
def fallback? (s : Schema) (settings : Settings) (place : Option NodeId) : Option Value :=
  match s.outline? settings place with
  | some ⟨_, .unrecognized kind⟩ => some kind
  | _ => none

/-- Items that lead to a declaration, but not to that of an array, end there. -/
theorem Leads.through (h : s.Leads place id) (hn : s.node? id = some n)
    (hk : ¬ n.KindDecides (some .array)) : ∃ arrays, s.Through place arrays (some id) := by
  induction h with
  | self =>
    refine ⟨[], .here ?_⟩
    rintro _ m ⟨⟩ hm
    rw [hn] at hm
    cases hm
    exact hk
  | items ha hka _ ih =>
    obtain ⟨arrays, harrays⟩ := ih hn
    exact ⟨_, .items ha hka harrays⟩

theorem FallsBack.outline (h : s.FallsBack place kind) (settings : Settings) :
    ∃ o, s.outline? settings place = some o ∧ o.leaf = .unrecognized kind := by
  obtain ⟨id, n, hl, hn, hk, rfl⟩ := h
  have hnot : ¬ n.KindDecides (some .array) := by
    intro harray
    have := harray.kind
    rw [hk.kind] at this
    cases this
  obtain ⟨arrays, harrays⟩ := hl.through hn hnot
  obtain ⟨o, ho⟩ := outline?_isSome harrays.itemsEndFrom settings
  exact ⟨o, ho, (leaf_of_leads ho hl hn).2.2 hk⟩

theorem fallback?_eq_some : s.fallback? settings place = some kind ↔ s.FallsBack place kind := by
  constructor
  · intro h
    rw [fallback?] at h
    split at h
    · rename_i arrays k ho
      cases h
      obtain ⟨id, n, hl, hn, hk, hkind⟩ := leafAt_of_outlineFrom ho
      exact ⟨id, n, hl, hn, hk, hkind.symm⟩
    · cases h
  · intro h
    obtain ⟨⟨arrays, leaf⟩, ho, rfl⟩ := h.outline settings
    rw [fallback?, ho]

/-- The warnings about properties, one for each that falls back to text. -/
def warnings (s : Schema) (settings : Settings) (ps : List (String × Option NodeId)) :
    List String :=
  ps.filterMap fun p =>
    (s.fallback? settings p.2).map fun kind => Resolver.unrecognizedWarning kind p.1

@[simp] theorem warnings_nil (s : Schema) (settings : Settings) : s.warnings settings [] = [] := rfl

theorem warnings_append (s : Schema) (settings : Settings) (ps ps' : List (String × Option NodeId)) :
    s.warnings settings (ps ++ ps') = s.warnings settings ps ++ s.warnings settings ps' :=
  List.filterMap_append

end Schema

namespace Building

variable {s : Schema} {settings : Settings} {b b₁ b' : Building}
  {object : NodeId → String → Action String} {ps ps' : List (String × Option NodeId)}
  {ids ids' : List NodeId}

/-- Between two states of a generation the properties `ps` were described and the objects `ids` were
met, and what was added to the warnings is about them. -/
structure Reports (s : Schema) (settings : Settings) (ps : List (String × Option NodeId))
    (ids : List NodeId) (b b' : Building) : Prop where
  met : b'.met = ids ++ b.met
  warnings : ∀ text, b'.resolver.warnings.count text = b.resolver.warnings.count text +
    (s.warnings settings ps).count text +
      (ids.flatMap fun id => s.warnings settings (s.propertiesOf id)).count text

theorem Reports.refl (b : Building) : Reports s settings [] [] b b :=
  ⟨rfl, fun _ => rfl⟩

theorem Reports.trans (h : Reports s settings ps ids b b₁)
    (h' : Reports s settings ps' ids' b₁ b') :
    Reports s settings (ps ++ ps') (ids' ++ ids) b b' := by
  refine ⟨by rw [h'.met, h.met, List.append_assoc], fun text => ?_⟩
  have hfirst := h.warnings text
  have hrest := h'.warnings text
  rw [Schema.warnings_append, List.flatMap_append, List.count_append, List.count_append]
  omega

/-- An object that is met brings along the warnings about its properties. -/
theorem Reports.opened {id : NodeId} {base name : String} {out : List Property}
    (h : Reports s settings (s.propertiesOf id) ids (b.opened s id base) b₁) :
    Reports s settings [] (ids ++ [id]) b (b₁.describe name out) := by
  refine ⟨?_, fun text => ?_⟩
  · rw [met_describe, h.met, met_opened, List.append_assoc]
    rfl
  · have hwarnings := h.warnings text
    have hopened : (b.opened s id base).resolver.warnings = b.resolver.warnings := rfl
    have hdescribed : (b₁.describe name out).resolver.warnings = b₁.resolver.warnings := rfl
    rw [hdescribed, hwarnings, hopened, Schema.warnings_nil, List.count_nil, List.flatMap_append,
      List.count_append, List.flatMap_singleton]
    omega

/-- The building of an object reports the objects that are met on the way. -/
def ObjectReports (s : Schema) (settings : Settings) (object : NodeId → String → Action String) :
    Prop :=
  ∀ id hint name (b b' : Building), object id hint b = .ok (name, b') →
    ∃ ids, Reports s settings [] ids b b'

theorem warnings_of_enumType {id : NodeId} {literals : List Literal} {hint : String} {r r' : Resolver}
    {t : EnumType} (h : (Resolver.enumType id literals hint).run.run r = (.ok t, r')) :
    r'.warnings = r.warnings := by
  obtain ⟨-, rfl⟩ | ⟨-, -, rfl⟩ := Resolver.enumType_ok h
  · rfl
  · rfl

/-- Resolving a property warns about it if its type falls back to text, and otherwise not. -/
theorem resolve_reports (hobj : ObjectReports s settings object) {place : Option NodeId}
    {hint : String} {t : TargetType} (hr : resolve s settings object place hint b = .ok (t, b')) :
    ∃ ids, Reports s settings [(hint, place)] ids b b' := by
  obtain ⟨o, ho, hr⟩ := resolve_ok hr
  obtain ⟨arrays, leaf⟩ := o
  -- a leaf that is not an object meets none; only an object passes on the warnings of others
  cases leaf with
  | type u =>
    obtain ⟨-, rfl⟩ := hr
    exact ⟨[], rfl, fun text => by simp [Schema.warnings, Schema.fallback?, ho]⟩
  | unrecognized kind =>
    obtain ⟨-, rfl⟩ := hr
    exact ⟨[], rfl, fun text => by
      simp [Schema.warnings, Schema.fallback?, ho, Resolver.warned]⟩
  | choices id literals =>
    obtain ⟨u, r, -, hu, rfl⟩ := hr
    exact ⟨[], rfl, fun text => by
      simp [Schema.warnings, Schema.fallback?, ho, warnings_of_enumType hu]⟩
  | object id =>
    obtain ⟨name, -, hname⟩ := hr
    obtain ⟨ids, hids⟩ := hobj id hint name b b' hname
    refine ⟨ids, hids.met, fun text => ?_⟩
    have hwarnings := hids.warnings text
    simpa [Schema.warnings, Schema.fallback?, ho] using hwarnings

theorem properties_reports (hobj : ObjectReports s settings object) {fields : Naming.FieldTable}
    {out : List Property} (hr : properties s settings object fields ps b = .ok (out, b')) :
    ∃ ids, Reports s settings ps ids b b' := by
  induction ps generalizing fields b out with
  | nil =>
    obtain ⟨-, rfl⟩ := Stateful.pure_eq_ok.mp hr
    exact ⟨[], .refl _⟩
  | cons entry ps ih =>
    obtain ⟨name, place⟩ := entry
    obtain ⟨p, rest, fields', b₁, -, -, htype, -, -, -, -, hrest⟩ := properties_cons_ok hr
    obtain ⟨ids, hfirst⟩ := resolve_reports hobj htype
    obtain ⟨ids', hothers⟩ := ih hrest
    exact ⟨ids' ++ ids, hfirst.trans hothers⟩

/-- An object that was met before adds nothing, and a new one is met once for all. -/
theorem object_reports (fuel : Nat) :
    ObjectReports s settings (Building.object s settings fuel) := by
  induction fuel with
  | zero =>
    intro id hint name b b' hr
    cases hr
  | succ fuel ih =>
    intro id hint name b b' hr
    obtain ⟨-, rfl⟩ | ⟨-, -, out, b₁, hps, rfl⟩ := object_ok hr
    · exact ⟨[], .refl _⟩
    · obtain ⟨ids, hids⟩ := properties_reports ih hps
      exact ⟨ids ++ [id], hids.opened⟩

end Building

namespace Generation

variable {s : Schema} {settings : Settings} {name : String} {g : Generation}

/-- A generation warns once about every property of an object that is met whose type falls back to
text, and about no other, however often the objects are met. -/
theorem warnings_perm (h : ofSchema s settings name = .ok g) :
    (∀ place kind, s.fallback? settings place = some kind ↔ s.FallsBack place kind) ∧
      ∃ ids : List NodeId, ids.Nodup ∧ (∀ id, id ∈ ids ↔ s.ObjectMet id) ∧
        g.warnings.Perm (ids.flatMap fun id => s.warnings settings (s.propertiesOf id)) := by
  refine ⟨fun place kind => Schema.fallback?_eq_some, ?_⟩
  obtain ⟨b, hb, rfl⟩ := exists_built h
  obtain ⟨hinv, -, hroot⟩ := Building.object_keeps _ [] _ _ _ _ b .empty (.inl rfl) hb
  obtain ⟨ids, hreports⟩ := Building.object_reports _ _ _ _ _ _ hb
  have hids : b.references.map (·.1) = ids := hreports.met.trans (List.append_nil ids)
  refine ⟨ids, hids ▸ hinv.once, fun id => ?_, List.perm_iff_count.mpr fun text => ?_⟩
  · rw [← hids, List.mem_map]
    constructor
    · rintro ⟨⟨id, name⟩, hm, rfl⟩
      exact hinv.met id name hm
    · intro hm
      obtain ⟨name, hname⟩ := hinv.named_of_objectMet hroot hm
      exact ⟨_, hname, rfl⟩
  · have hwarnings := hreports.warnings text
    simpa [Building.finish, Building.empty, Resolver.empty] using hwarnings

/-- Objects that share a property of a kind nobody knows, and lead back to each other. -/
def oddments : Schema :=
  { nodes := #[
      { kind := .text "object"
        properties := some [("", some 1), ("odds", some 2), ("box", some 3), ("boxes", some 4),
          ("gone", none)] },
      { kind := .text "odd" },
      { kind := .text "array", items := some 1 },
      { kind := .text "object"
        properties := some [("odd", some 1), ("plain", some 5), ("back", some 0), ("lid", some 3),
          ("since", some 6), ("size", some 7)] },
      { kind := .text "array", unique := true, items := some 3 },
      {},
      { format := .text epochMillisFormat },
      { enum := some [.text "small", .text "large"] }]
    root := 0 }

/-- The warnings about the oddments, in the order in which they are given. -/
def oddWarnings : List String :=
  ["Unrecognized kind 'odd' for '<anonymous>', using String",
    "Unrecognized kind 'odd' for 'odds', using String",
    "Unrecognized kind 'odd' for 'odd', using String",
    "Unrecognized kind None for 'plain', using String"]

theorem warnings_perm_oddments : ∃ g, ofSchema oddments {} "oddment" = .ok g ∧
    g.warnings = oddWarnings ∧
    ∃ ids : List NodeId, ids.Nodup ∧ (∀ id, id ∈ ids ↔ oddments.ObjectMet id) ∧
      g.warnings.Perm (ids.flatMap fun id => oddments.warnings {} (oddments.propertiesOf id)) := by
  obtain ⟨g, hg, hwarnings⟩ := exists_of_run oddments {} "oddment" (·.warnings) oddWarnings
    (by decide +kernel)
  exact ⟨g, hg, hwarnings, (warnings_perm hg).2⟩

end Generation
end SchemaModel
