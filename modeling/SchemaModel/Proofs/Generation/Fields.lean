import SchemaModel.Proofs.Generation.Structure

/-!
The fields of generated types. The properties of an object claim their fields one after the other on
one new table, whatever other objects are built in between. A generation succeeds only if all claims
are granted, so that no two properties of a type share a field.
-/
namespace SchemaModel

open Naming

namespace Building

variable {s : Schema} {settings : Settings} {b b' : Building}
  {object : NodeId → String → Action String}

/-- All properties have fields that one table granted them. -/
def FieldsGranted (properties : List Property) : Prop :=
  ∃ scope sources, ∀ p ∈ properties, FieldTable.Granted scope sources p.name p.field

/-- What holds of the fields of every type, whether its properties have been entered or not. -/
def FieldsClaimed (b : Building) : Prop := ∀ entry ∈ b.types, FieldsGranted entry.2.properties

theorem fieldsGranted_nil : FieldsGranted [] := ⟨"", [], nofun⟩

theorem FieldsClaimed.opened (h : b.FieldsClaimed) (s : Schema) (id : NodeId) (base : String) :
    (b.opened s id base).FieldsClaimed := by
  intro entry he
  rcases List.mem_append.mp he with he | he
  · exact h entry he
  · cases List.mem_singleton.mp he
    exact fieldsGranted_nil

theorem FieldsClaimed.describe (h : b.FieldsClaimed) (name : String) {ps : List Property}
    (hps : FieldsGranted ps) : (b.describe name ps).FieldsClaimed := by
  intro entry he
  obtain ⟨before, hbefore, rfl⟩ := List.mem_map.mp he
  dsimp only
  split
  · exact hps
  · exact h before hbefore

/-! ## Runs -/

/-- The building of objects leaves no type with a field that was not granted. -/
def ObjectClaims (object : NodeId → String → Action String) : Prop :=
  ∀ id hint name (b b' : Building), b.FieldsClaimed → object id hint b = .ok (name, b') →
    b'.FieldsClaimed

theorem resolve_claims (hobj : ObjectClaims object) (hb : b.FieldsClaimed) {place : Option NodeId}
    {hint : String} {t : TargetType} (hr : resolve s settings object place hint b = .ok (t, b')) :
    b'.FieldsClaimed := by
  obtain ⟨o, -, hr⟩ := resolve_ok hr
  cases hl : o.leaf with
  | type u =>
    rw [hl] at hr
    exact hr.2 ▸ hb
  | unrecognized kind =>
    rw [hl] at hr
    exact hr.2 ▸ hb
  | choices id literals =>
    rw [hl] at hr
    obtain ⟨u, r, -, -, rfl⟩ := hr
    exact hb
  | object id =>
    rw [hl] at hr
    obtain ⟨name, -, hname⟩ := hr
    exact hobj id hint name b b' hb hname

/-- The claims for the properties follow those that were made on the table before. -/
theorem properties_claims (hobj : ObjectClaims object) {scope : String} (before : List String)
    {ps : List (String × Option NodeId)} {out : List Property} (hb : b.FieldsClaimed)
    (hr : properties s settings object ((FieldTable.empty scope).run before) ps b =
      .ok (out, b')) :
    b'.FieldsClaimed ∧ ∀ p ∈ out,
      FieldTable.Granted scope (before ++ ps.map (·.1)) p.name p.field := by
  induction ps generalizing before b out with
  | nil =>
    obtain ⟨rfl, rfl⟩ := Stateful.pure_eq_ok.mp hr
    exact ⟨hb, nofun⟩
  | cons entry ps ih =>
    obtain ⟨name, place⟩ := entry
    obtain ⟨p, rest, fields', b₁, rfl, hclaim, htype, -, hname, -, -, hrest⟩ := properties_cons_ok hr
    have hafter : fields' = (FieldTable.empty scope).run (before ++ [name]) := by
      rw [FieldTable.run_concat, FieldTable.after, hclaim]
    rw [hafter] at hrest
    obtain ⟨hb', hgranted⟩ := ih (before ++ [name]) (resolve_claims hobj hb htype) hrest
    refine ⟨hb', List.forall_mem_cons.mpr ⟨?_, ?_⟩⟩
    · rw [hname]
      exact ⟨before, ps.map (·.1), fields', rfl, hclaim⟩
    · simpa using hgranted

theorem object_claims (fuel : Nat) : ObjectClaims (Building.object s settings fuel) := by
  induction fuel with
  | zero =>
    intro id hint name b b' _ hr
    cases hr
  | succ fuel ih =>
    intro id hint name b b' hb hr
    obtain ⟨-, rfl⟩ | ⟨-, -, ps, b₁, hps, rfl⟩ := object_ok hr
    · exact hb
    · have hopened := hb.opened s id (className hint)
      obtain ⟨hb₁, hgranted⟩ := properties_claims ih [] hopened hps
      exact hb₁.describe name ⟨_, _, hgranted⟩

/-- Properties of different names have different fields. -/
theorem FieldsGranted.nodup {ps : List Property} (h : FieldsGranted ps)
    (hnames : (ps.map (·.name)).Nodup) : (ps.map (·.field)).Nodup := by
  obtain ⟨scope, sources, hgranted⟩ := h
  refine List.Nodup.map_on (fun p hp q hq he => ?_) (.of_map _ hnames)
  have hq' := hgranted q hq
  rw [← he] at hq'
  exact List.inj_on_of_nodup_map hnames hp hq ((hgranted p hp).eq_of_name hq')

end Building

namespace Generation

variable {s : Schema} {settings : Settings} {name : String} {g : Generation} {t : GeneratedType}

/-- Every type of a generation is one that was built, or an empty one. -/
theorem fieldsGranted_of_mem (h : ofSchema s settings name = .ok g) (ht : t ∈ g.types) :
    Building.FieldsGranted t.properties := by
  obtain ⟨b, hb, rfl⟩ := exists_built h
  have hempty : Building.empty.FieldsClaimed := by
    intro entry he
    cases he
  have hclaimed := Building.object_claims _ _ _ _ _ b hempty hb
  rcases List.mem_append.mp ht with ht | ht
  · obtain ⟨entry, he, rfl⟩ := List.mem_map.mp ht
    exact hclaimed entry (List.mem_filter.mp he).1
  · rw [List.mem_singleton.mp ht]
    cases hl : b.types.lookup (className name) with
    | none => exact Building.fieldsGranted_nil
    | some root => exact hclaimed _ (Tables.mem_of_lookup hl)

/-- The properties of a type have the names that its object declares. -/
theorem exists_propertyNames (h : ofSchema s settings name = .ok g) (ht : t ∈ g.types) :
    ∃ id, t.properties.map (·.name) = ((s.node? id).getD {}).propertyNames := by
  obtain ⟨b, hinv, hroot, rfl⟩ := ofSchema_ok h
  obtain ⟨id, -, hall⟩ := (hinv.represents hroot).exists_object ht
  have hnames : List.Forall₂ Eq ((s.propertiesOf id).map (·.1)) (t.properties.map (·.name)) := by
    rw [List.forall₂_map_left_iff, List.forall₂_map_right_iff]
    exact hall.imp fun _ _ hd => hd.name.symm
  exact ⟨id, (List.forall₂_eq_eq_eq ▸ hnames).symm⟩

/-- What is claimed on a table is answered as it should be, and the fields of every generated type
are distinct and legal. The names of the properties of a node are distinct, being keys. -/
theorem lawful_fields : (∀ scope earlier, FieldTable.Lawful scope earlier) ∧
    ∀ (s : Schema) (settings : Settings) (name : String) (g : Generation),
      (∀ n ∈ s.nodes.toList, n.propertyNames.Nodup) → ofSchema s settings name = .ok g →
      ∀ t ∈ g.types, (t.properties.map (·.field)).Nodup ∧
        ∀ p ∈ t.properties, IsLegalField p.field := by
  refine ⟨FieldTable.lawful, fun s settings name g hnodup h t ht => ?_⟩
  have hgranted := fieldsGranted_of_mem h ht
  refine ⟨hgranted.nodup ?_, fun p hp => ?_⟩
  · obtain ⟨id, hnames⟩ := exists_propertyNames h ht
    rw [hnames]
    cases hn : s.node? id with
    | none => exact .nil
    | some n => exact hnodup n (Array.mem_toList_iff.mpr (Array.mem_of_getElem? hn))
  · obtain ⟨scope, sources, hall⟩ := hgranted
    rw [(hall p hp).eq_fieldName]
    exact isLegalField_fieldName p.name

/-- A type whose properties have no names that could stand as they are. -/
def misnamed : Schema :=
  { nodes := #[{ kind := .text "object"
                 properties := some [("class", none), ("2ndName", none), ("_", none)] }]
    root := 0 }

theorem lawful_fields_misnamed :
    (∃ first, FieldTable.Granted "type T" ["fooBar"] first (fieldName "foo_bar") ∧
      first ≠ "foo_bar" ∧ (⟨"foo_bar", "fooBar", "foo_bar", "type T"⟩ : Collision) =
        ⟨fieldName "foo_bar", first, "foo_bar", "type T"⟩) ∧
    (∀ n ∈ misnamed.nodes.toList, n.propertyNames.Nodup) ∧
    ∃ g, ofSchema misnamed {} "T" = .ok g ∧ g.types.map (·.name) = ["T"] ∧
      ∀ t ∈ g.types, (t.properties.map (·.field)).Nodup ∧
        ∀ p ∈ t.properties, IsLegalField p.field := by
  have hrefused : ((FieldTable.empty "type T").run ["fooBar"]).claim "foo_bar" =
      .error ⟨"foo_bar", "fooBar", "foo_bar", "type T"⟩ := by rfl
  have hnodup : ∀ n ∈ misnamed.nodes.toList, n.propertyNames.Nodup := by decide
  obtain ⟨g, hg, hnames⟩ := exists_of_names misnamed {} "T" ["T"] [] (by decide +kernel)
  exact ⟨((lawful_fields.1 "type T" ["fooBar"]).refused _ _).mp hrefused, hnodup, g, hg, hnames.1,
    lawful_fields.2 misnamed {} "T" g hnodup hg⟩

end Generation
end SchemaModel
