import Mathlib.Data.Finset.Card
import Mathlib.Data.Finset.Range
import SchemaModel.Proofs.Generation.Course
import SchemaModel.Proofs.Generation.Structure
import SchemaModel.Proofs.Resolution.ItemChains

/-!
Generation terminates. Where no chain of items returns to where it began, the outcome of a
generation is that of a run without a limit: with every object that is built there is one less to be
met, so that the steps allowed for a schema are never used up.
-/
namespace SchemaModel

namespace Building

variable {s : Schema} {settings : Settings} {object : NodeId → String → Action String}
  {id : NodeId} {b b' : Building} {place : Option NodeId} {built : List NodeId}

/-! ## Objects to be met -/

/-- The number of objects that have not been met. -/
def unmet (s : Schema) (b : Building) : Nat := (Finset.range s.nodes.size \ b.met.toFinset).card

theorem unmet_le_size (s : Schema) (b : Building) : unmet s b ≤ s.nodes.size := by
  have hsub : Finset.range s.nodes.size \ b.met.toFinset ⊆ Finset.range s.nodes.size :=
    Finset.sdiff_subset
  exact (Finset.card_le_card hsub).trans_eq (Finset.card_range _)

theorem unmet_le_of_subset (h : b.met ⊆ b'.met) : unmet s b' ≤ unmet s b := by
  refine Finset.card_le_card (Finset.sdiff_subset_sdiff subset_rfl fun i hi => ?_)
  rw [List.mem_toFinset] at hi ⊢
  exact h hi

/-- An object has been met as soon as it is opened. -/
theorem unmet_opened_lt (hid : id < s.nodes.size) (h : b.references.lookup id = none)
    (base : String) : unmet s (b.opened s id base) < unmet s b := by
  rw [unmet, unmet, met_opened, List.toFinset_cons, Finset.sdiff_insert]
  refine Finset.card_erase_lt_of_mem (Finset.mem_sdiff.mpr ⟨Finset.mem_range.mpr hid, ?_⟩)
  rw [List.mem_toFinset]
  exact Tables.lookup_eq_none_iff.mp h

theorem unmet_le_of_run {task : Task} {x : task.Result}
    (h : Run s settings task b (.ok (x, b')) built) : unmet s b' ≤ unmet s b := by
  refine unmet_le_of_subset fun i hi => ?_
  rw [h.meets.met x b' rfl]
  exact List.mem_append_right _ hi

/-! ## Runs behind the outcomes -/

/-- Whether the outcomes for objects are those of runs, as long as fewer than `limit` are unmet. -/
def HasRuns (s : Schema) (settings : Settings) (limit : Nat)
    (object : NodeId → String → Action String) : Prop :=
  ∀ id hint b, unmet s b < limit →
    ∃ built, Run s settings (.object id hint) b (object id hint b) built

variable {limit : Nat}

/-- A place has the outcome of the leaf in its outline, inside the arrays around it. -/
theorem exists_run_of_outline (hobject : HasRuns s settings limit object) (hb : unmet s b < limit)
    (hint : String) {fuel : Nat} {o : Outline} (h : s.outlineFrom settings fuel place = some o) :
    ∃ built, Run s settings (.place place hint) b
      ((leafOutcome object hint b o.leaf).map fun p => (wrap o.arrays p.1, p.2)) built := by
  induction fuel generalizing place o with
  | zero =>
    cases place with
    | none =>
      cases h
      exact ⟨_, .absent rfl⟩
    | some id => cases h
  | succ fuel ih =>
    cases place with
    | none =>
      cases h
      exact ⟨_, .absent rfl⟩
    | some id =>
      rw [Schema.outlineFrom] at h
      cases hn : s.node? id with
      | none =>
        rw [hn] at h
        cases h
        exact ⟨_, .absent hn⟩
      | some n =>
        simp only [hn] at h
        cases hf : n.form settings with
        | type t =>
          rw [hf] at h
          cases h
          exact ⟨_, .type hn hf⟩
        | choices literals =>
          rw [hf] at h
          cases h
          rw [leafOutcome, Fallible.map_map]
          exact ⟨_, .choices hn hf⟩
        | object =>
          rw [hf] at h
          cases h
          obtain ⟨built, hrun⟩ := hobject id hint b hb
          rw [leafOutcome, Fallible.map_map]
          exact ⟨built, .reference hn hf hrun⟩
        | unrecognized =>
          rw [hf] at h
          cases h
          rw [leafOutcome, Fallible.map_map]
          exact ⟨_, .unrecognized hn hf⟩
        | array unique items =>
          rw [hf] at h
          obtain ⟨p, hp, rfl⟩ := Option.map_eq_some_iff.mp h
          obtain ⟨built, hrun⟩ := ih hp
          have harray := Run.array hn hf hrun
          rw [Fallible.map_map] at harray
          exact ⟨built, harray⟩

theorem exists_run_resolve (hs : s.ItemsEnd) (hobject : HasRuns s settings limit object)
    (hb : unmet s b < limit) (place : Option NodeId) (hint : String) :
    ∃ built, Run s settings (.place place hint) b (resolve s settings object place hint b)
      built := by
  obtain ⟨o, ho⟩ := Schema.outline?_isSome (hs.from place) settings
  rw [resolve_eq, ho]
  exact exists_run_of_outline hobject hb hint ho

theorem exists_run_properties (hs : s.ItemsEnd) (hobject : HasRuns s settings limit object)
    (ps : List (String × Option NodeId)) (fields : Naming.FieldTable)
    (hb : ps = [] ∨ unmet s b < limit) :
    ∃ built, Run s settings (.properties fields ps) b (properties s settings object fields ps b)
      built := by
  induction ps generalizing fields b with
  | nil => exact ⟨_, .nil⟩
  | cons p ps ih =>
    obtain ⟨name, place⟩ := p
    replace hb : unmet s b < limit := hb.resolve_left nofun
    rw [properties_cons]
    cases hc : fields.claim name with
    | error c => exact ⟨_, .failed (.taken hc)⟩
    | ok r =>
      obtain ⟨field, fields'⟩ := r
      obtain ⟨built, hplace⟩ := exists_run_resolve hs hobject hb place name
      have hproperty := Run.claimed hc hplace
      simp only
      cases hr : (resolve s settings object place name b).bind fun p =>
        (described s name field place p.1).map fun q => ((q, fields'), p.2) with
      | error e =>
        rw [hr] at hproperty
        exact ⟨built, .failed hproperty⟩
      | ok q =>
        obtain ⟨⟨p, fields''⟩, b₁⟩ := q
        rw [hr] at hproperty
        -- what the first property met stays met for the others
        obtain ⟨built', hrest⟩ := ih fields'' (.inr ((unmet_le_of_run hproperty).trans_lt hb))
        exact ⟨_, .cons hproperty hrest⟩

/-- The outcome for an object is that of a run if there are more steps than unmet objects. -/
theorem hasRuns_object (hs : s.ItemsEnd) (settings : Settings) (fuel : Nat) :
    HasRuns s settings fuel (Building.object s settings fuel) := by
  induction fuel with
  | zero =>
    intro id hint b hb
    omega
  | succ fuel ih =>
    intro id hint b hb
    rw [object_succ]
    cases hl : b.references.lookup id with
    | some name => exact ⟨_, .known hl⟩
    | none =>
      have hps : ((s.node? id).getD {}).propertyList = [] ∨
          unmet s (b.opened s id (Naming.className hint)) < fuel := by
        by_cases hid : id < s.nodes.size
        -- the object counts as met while its properties are described
        · have := unmet_opened_lt hid hl (Naming.className hint)
          right
          omega
        · rw [Schema.node?, Array.getElem?_eq_none (Nat.le_of_not_lt hid)]
          exact .inl rfl
      obtain ⟨built, hrun⟩ := exists_run_properties hs ih _ _ hps
      exact ⟨_, .new hl hrun⟩

end Building

namespace Generation

variable {s : Schema}

/-- The run of a whole generation. -/
def Run (s : Schema) (settings : Settings) (name : String) (r : Except BuildError Generation)
    (built : List NodeId) : Prop :=
  ∃ r₁ : Building.Outcome String, Building.Run s settings (.object s.root name) .empty r₁ built ∧
    r = r₁.map fun p => p.2.finish p.1

/-- Where no chain of items returns to where it began, a generation has one run, which is finite: it
ends with what is generated or with an error that is raised, and builds the properties of no node
twice. -/
theorem run_iff (hs : s.ItemsEnd) (settings : Settings) (name : String) : ∃ built : List NodeId,
    (∀ r built', Run s settings name r built' ↔
      r = ofSchema s settings name ∧ built' = built) ∧
    built.Nodup ∧ ∀ e, ofSchema s settings name = .error e → e.Raised := by
  have hlimit : Building.unmet s .empty < s.nodes.size + 1 :=
    Nat.lt_succ_of_le (Building.unmet_le_size s .empty)
  obtain ⟨built, hrun⟩ :=
    Building.hasRuns_object hs settings (s.nodes.size + 1) s.root name .empty hlimit
  have hof : ofSchema s settings name =
      (Building.object s settings (s.nodes.size + 1) s.root name .empty).map
        fun p => p.2.finish p.1 := by
    rw [ofSchema]
    show (Building.object s settings (s.nodes.size + 1) s.root name .empty).bind _ = _
    cases Building.object s settings (s.nodes.size + 1) s.root name .empty <;> rfl
  have hmeets := hrun.meets
  refine ⟨built, fun r built' => ⟨?_, ?_⟩, ?_, fun e he => ?_⟩
  · rintro ⟨r₁, hrun', rfl⟩
    obtain ⟨rfl, rfl⟩ := hrun.unique hrun'
    exact ⟨hof.symm, rfl⟩
  · rintro ⟨rfl, rfl⟩
    exact ⟨_, hrun, hof⟩
  · have := hmeets.once .nil
    rwa [show Building.empty.met = [] from rfl, List.append_nil, List.nodup_reverse] at this
  · rw [hof] at he
    exact hmeets.raised e (Fallible.map_eq_error.mp he)

theorem itemsEnd_people : people.ItemsEnd := by
  refine not_transGen_of_rank (fun id => [0, 0, 1, 0, 1].getD id 0) fun a c ⟨n, hn, _, hi⟩ => ?_
  have hlower : ∀ a < 5, ∀ c ∈ ((people.node? a).bind (·.items)).toList,
      [0, 0, 1, 0, 1].getD c 0 < [0, 0, 1, 0, 1].getD a 0 := by decide
  have ha : a < 5 := (Array.getElem?_eq_some_iff.mp hn).1
  refine hlower a ha c ?_
  rw [hn, Option.bind_some, hi]
  exact List.mem_singleton_self c

theorem run_iff_people : people.ItemsEnd ∧ ∃ built : List NodeId,
    (∀ r built', Run people {} "person" r built' ↔
      r = ofSchema people {} "person" ∧ built' = built) ∧
    built.Nodup ∧ ∀ e, ofSchema people {} "person" = .error e → e.Raised :=
  ⟨itemsEnd_people, run_iff itemsEnd_people {} "person"⟩

end Generation
end SchemaModel
