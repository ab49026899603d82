import Mathlib.Data.Set.Function
import SchemaModel.Proofs.Resolution.Calls

/-!
Resolution is stable. Names of enumerated types are remembered and names of references are asked for
again with every call, but both are drawn from one allocator that gives to every node what it gave
before. So an answer stays what it was, whatever else is asked and whatever fails (`stable_calls`).
-/
namespace SchemaModel.Resolver

variable {s : Schema} {settings : Settings}

/-- A node with choices was resolved to an enumerated type by one of the calls. -/
def ResolvedTo (s : Schema) (settings : Settings) (calls : List Call) (id : NodeId) (t : EnumType) :
    Prop :=
  (∃ literals, s.ChoicesAt id literals) ∧
    ∃ arrays, Returned s settings calls id arrays (wrap arrays (.enum t))

/-- What holds of a resolver after any calls, of which some may have failed. -/
structure Stable (s : Schema) (settings : Settings) (calls : List Call) : Prop where
  /-- The same call gets the same type ever after. -/
  repeats : ∀ c t, answer s settings calls c = .ok t →
    ∀ later, answer s settings (calls ++ c :: later) c = .ok t
  /-- Any call that comes to a node with choices gets the same enumerated type ever after. -/
  choices : ∀ c id literals arrays t, s.Through c.place arrays (some id) →
    s.ChoicesAt id literals → answer s settings calls c = .ok (wrap arrays t) →
    ∀ later c' arrays', s.Through c'.place arrays' (some id) →
      answer s settings (calls ++ c :: later) c' = .ok (wrap arrays' t)
  /-- No name is given to two nodes. -/
  unique : ∀ id id' name, Given s settings calls id name → Given s settings calls id' name →
    id = id'
  keyed : ∀ e ∈ (after s settings calls).enums, e.1 = e.2.name
  once : ((after s settings calls).enums.map (·.1)).Nodup
  /-- There is one entry for each node with choices that was resolved, which holds what it was
  resolved to. -/
  entries : ∃ entry : NodeId → String × EnumType,
    Set.BijOn entry {id | ∃ t, ResolvedTo s settings calls id t}
      {e | e ∈ (after s settings calls).enums} ∧
    ∀ id t, ResolvedTo s settings calls id t → entry id = (t.name, t)

/-! ## Answers -/

/-- A node that is known is answered with its type. -/
theorem answer_of_mem {calls : List Call} {c : Call} {id : NodeId} {literals : List Literal}
    {arrays : List Bool} {t : EnumType} (hp : s.Through c.place arrays (some id))
    (hc : s.ChoicesAt id literals) (hm : (id, t) ∈ (after s settings calls).enumOf) :
    answer s settings calls c = .ok (wrap arrays (.enum t)) :=
  (Step.known (Schema.outline?_of_choices settings hp hc) ((sound_after calls).lookup hm)).answer

/-- Whatever is asked in between, the node keeps its enumerated type. -/
theorem answer_choices {calls : List Call} {c c' : Call} {id : NodeId} {literals : List Literal}
    {arrays arrays' : List Bool} {t : TargetType} (hp : s.Through c.place arrays (some id))
    (hc : s.ChoicesAt id literals) (ha : answer s settings calls c = .ok (wrap arrays t))
    (later : List Call) (hp' : s.Through c'.place arrays' (some id)) :
    answer s settings (calls ++ c :: later) c' = .ok (wrap arrays' t) := by
  have hstep := step_after s settings calls c
  rw [ha] at hstep
  obtain ⟨e, he, hm⟩ := hstep.exists_enum (Schema.outline?_of_choices settings hp hc)
  obtain rfl := TargetType.wrap_inj he
  have hgrows := grows_after s settings (calls ++ [c]) later
  rw [List.append_assoc] at hgrows
  exact answer_of_mem hp' hc (hgrows.enumOf hm)

/-- Whatever is asked in between, the same call gets the same type. -/
theorem answer_again {calls : List Call} {c : Call} {t : TargetType}
    (ha : answer s settings calls c = .ok t) (later : List Call) :
    answer s settings (calls ++ c :: later) c = .ok t := by
  have hstep := step_after s settings calls c
  have hgrows := grows_after s settings (calls ++ [c]) later
  rw [List.append_assoc] at hgrows
  generalize hr : after s settings (calls ++ [c]) = r' at hstep hgrows
  have ha' := ha
  rw [ha] at hstep
  cases hstep with
  | type ho => exact (Step.type ho).answer
  | unrecognized ho hshort => exact (Step.unrecognized ho hshort).answer
  | known ho | new ho =>
    obtain ⟨hp, hc⟩ := Schema.outline?_eq_choices_iff.mp ho
    exact answer_choices hp hc ha' later hp
  | @object arrays id ho =>
    -- the allocator gives the name again that it gave first
    obtain ⟨asked, hnames⟩ := hgrows.names
    have hname : ((after s settings (calls ++ c :: later)).names.allocate
        (Naming.className c.hint) id).1 =
          ((after s settings calls).names.allocate (Naming.className c.hint) id).1 := by
      have hrun := Naming.Allocator.allocate_run (after s settings calls).names
        (Naming.className c.hint) id asked
      rw [← List.singleton_append, hnames]
      exact (Prod.ext_iff.mp hrun).1
    have hagain := (Step.object (r := after s settings (calls ++ c :: later)) ho).answer
    rw [hagain, hname]

/-! ## Entries -/

theorem mem_enums {calls : List Call} {name : String} {t : EnumType} :
    (name, t) ∈ (after s settings calls).enums ↔
      t.name = name ∧ ∃ id, (id, t) ∈ (after s settings calls).enumOf := by
  rw [(sound_after calls).listed, List.mem_map]
  constructor
  · rintro ⟨⟨id, t⟩, hm, ⟨⟩⟩
    exact ⟨rfl, id, hm⟩
  · rintro ⟨rfl, id, hm⟩
    exact ⟨(id, t), hm, rfl⟩

/-- The entry of a node with choices, once it is resolved. -/
def entryOf (s : Schema) (settings : Settings) (calls : List Call) (id : NodeId) :
    String × EnumType :=
  let t := ((after s settings calls).enumOf.lookup id).getD default
  (t.name, t)

theorem entryOf_eq {calls : List Call} {id : NodeId} {t : EnumType}
    (h : (id, t) ∈ (after s settings calls).enumOf) :
    entryOf s settings calls id = (t.name, t) := by
  simp [entryOf, (sound_after calls).lookup h]

theorem bijOn_entryOf (calls : List Call) : Set.BijOn (entryOf s settings calls)
    {id | ∃ t, ResolvedTo s settings calls id t} {e | e ∈ (after s settings calls).enums} := by
  refine ⟨?_, ?_, ?_⟩
  · rintro id ⟨t, ht⟩
    have hm := mem_enumOf_after.mpr ht
    rw [entryOf_eq hm]
    exact mem_enums.mpr ⟨rfl, id, hm⟩
  · rintro id ⟨t, ht⟩ id' ⟨t', ht'⟩ he
    have hm := mem_enumOf_after.mpr ht
    have hm' := mem_enumOf_after.mpr ht'
    rw [entryOf_eq hm, entryOf_eq hm'] at he
    exact (sound_after calls).id_eq_of_name hm hm' (congrArg Prod.fst he)
  · rintro ⟨name, t⟩ he
    obtain ⟨rfl, id, hm⟩ := mem_enums.mp he
    exact ⟨id, ⟨t, mem_enumOf_after.mp hm⟩, entryOf_eq hm⟩

/-- Whatever a resolver is asked, and whether or not it could answer, it is stable. -/
theorem stable_calls (s : Schema) (settings : Settings) (calls : List Call) :
    Stable s settings calls where
  repeats _ _ ha later := answer_again ha later
  choices _ _ _ _ _ hp hc ha later _ _ hp' := answer_choices hp hc ha later hp'
  unique id id' name h h' :=
    Option.some.inj ((owner?_of_given h).symm.trans (owner?_of_given h'))
  keyed e he := (mem_enums.mp he).1.symm
  once := by
    rw [(sound_after calls).listed, List.map_map]
    exact (sound_after calls).names_nodup
  entries := ⟨entryOf s settings calls, bijOn_entryOf calls,
    fun _ _ h => entryOf_eq (mem_enumOf_after.mpr h)⟩

end SchemaModel.Resolver
