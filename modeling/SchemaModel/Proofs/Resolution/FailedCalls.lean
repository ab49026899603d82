import SchemaModel.Proofs.Naming.Members
import SchemaModel.Proofs.Resolution.Calls

/-!
Resolvers after a call that failed. Choices that collide are named before they are found to collide,
and their node keeps the name (`Reserves`); nothing else is left of the call. Whatever is asked from
then on is answered as if it had not been made, but for names, and with the same names as long as the
reserved one is not given to another node (`leavesName_of_collision`). A call that would have given
it shows another name instead, unless what it answers shows no name at all.
-/
namespace SchemaModel

/-! ## Reserved names -/

namespace Naming.Allocator

variable {Owner : Type} {a a' : Allocator Owner} {name base : String} {who o : Owner}

/-- Next to `a`, an allocator that differs from it in one name only: there it belongs to `who`, and
in `a` to nobody else. -/
structure Reserves (a a' : Allocator Owner) (name : String) (who : Owner) : Prop where
  owner : ∀ n, a'.owner? n = if n = name then some who else a.owner? n
  free : ¬ a.Foreign who name

theorem Reserves.foreign_iff (h : a.Reserves a' name who) {n : String} :
    a'.Foreign o n ↔ if n = name then who ≠ o else a.Foreign o n := by
  unfold Foreign
  rw [h.owner]
  split
  · simp
  · rfl

/-- A name that others have in `a` others have next to it as well. -/
theorem Reserves.foreign (h : a.Reserves a' name who) {n : String} (hn : a.Foreign o n) :
    a'.Foreign o n := by
  rw [h.foreign_iff]
  split
  · rename_i heq
    subst heq
    obtain ⟨p, hne, hp⟩ := hn
    rintro rfl
    exact h.free ⟨p, hne, hp⟩
  · exact hn

variable [DecidableEq Owner]

/-- The first candidate that nobody else has is given out. -/
theorem allocate_eq_candidate {k : Nat} (hpassed : ∀ j < k, a.Foreign who (candidate base j))
    (hend : ¬ a.Foreign who (candidate base k)) : (a.allocate base who).1 = candidate base k := by
  obtain ⟨_, -, -, -, hsearch⟩ := exists_search a base who
  have hname := search_of_foreign (Nat.zero_add k) (fun j _ hj => hpassed j hj) hend
  exact (hname.unique hsearch).2

theorem reserves_allocate (a : Allocator Owner) (base : String) (who : Owner) :
    a.Reserves (a.allocate base who).2 (a.allocate base who).1 who :=
  ⟨owner?_allocate_eq a base who, not_foreign_of_isFree (isFree_allocate a base who)⟩

/-- A node that is not given the reserved name is given the same one on both sides. -/
theorem Reserves.allocate_eq (h : a.Reserves a' name who)
    (hname : (a.allocate base o).1 = name → o = who) :
    (a'.allocate base o).1 = (a.allocate base o).1 := by
  obtain ⟨k, -, hk, hpassed, -⟩ := exists_search a base o
  have hend := not_foreign_of_isFree (isFree_allocate a base o)
  rw [hk] at hname hend ⊢
  refine allocate_eq_candidate (fun j hj => h.foreign (hpassed j hj)) ?_
  rw [h.foreign_iff]
  split
  · rename_i heq
    simpa using (hname heq).symm
  · exact hend

theorem Reserves.allocate (h : a.Reserves a' name who)
    (hname : (a.allocate base o).1 = name → o = who) :
    (a.allocate base o).2.Reserves (a'.allocate base o).2 name who := by
  refine ⟨fun n => ?_, ?_⟩
  · rw [owner?_allocate_eq, owner?_allocate_eq, h.allocate_eq hname, h.owner]
    by_cases hn : n = name
    · subst hn
      by_cases hgiven : n = (a.allocate base o).1
      · rw [if_pos hgiven, if_pos rfl, hname hgiven.symm]
      · rw [if_neg hgiven, if_pos rfl, if_pos rfl]
    · rw [if_neg hn, if_neg hn]
  · rintro ⟨p, hne, hp⟩
    rw [owner?_allocate_eq] at hp
    split at hp
    · rename_i heq
      cases hp
      exact hne (hname heq.symm)
    · exact h.free ⟨p, hne, hp⟩

/-- The reserved name is given to nobody else. -/
theorem Reserves.allocate_ne (h : a.Reserves a' name who) (hne : o ≠ who) :
    (a'.allocate base o).1 ≠ name := by
  intro hname
  refine not_foreign_of_isFree (isFree_allocate a' base o) (h.foreign_iff.mpr ?_)
  rw [if_pos hname]
  exact hne.symm

end Naming.Allocator

/-! ## Choices under two names -/

namespace Enumeration

variable {name name' : String} {literals literals' : List Literal}

theorem scope_of_type {c : Naming.Collision} (h : type name literals = .error (.collision c)) :
    c.scope = "enum " ++ name :=
  (firstClash_of_error (type_eq_collision.mp h).2).2.2

/-- What becomes of choices tells their name, unless they cannot be written: it is that of the type,
or in the scope of the collision. -/
theorem name_eq_of_type_eq (hwritable : type name literals ≠ .error .digits)
    (h : type name literals = type name' literals') : name = name' := by
  cases ht : type name literals with
  | ok t =>
    rw [ht] at h
    exact (name_of_type ht).symm.trans (name_of_type h.symm)
  | error e =>
    rw [ht] at h
    cases e with
    | digits => exact absurd ht hwritable
    | collision c =>
      have hscope := (scope_of_type ht).symm.trans (scope_of_type h.symm)
      exact (String.append_right_inj "enum ").mp hscope

/-- Choices that have members under one name have the same ones under any other. -/
theorem exists_type {t : EnumType} (name' : String) (h : type name literals = .ok t) :
    ∃ t', type name' literals = .ok t' ∧ t'.members = t.members := by
  obtain ⟨t', ht'⟩ := type_ok_iff.mpr (type_ok_iff.mp ⟨t, h⟩)
  exact ⟨t', ht', members_eq_of_type h ht'⟩

/-- The error of choices under another name, which shows in the scope of a collision. -/
def Error.scoped (name : String) : Error → Error
  | .collision c => .collision { c with scope := "enum " ++ name }
  | .digits => .digits

/-- Choices that have no type under one name have none under any other, for the same reason. -/
theorem type_eq_error_scoped {e : Error} (name' : String) (h : type name literals = .error e) :
    type name' literals = .error (e.scoped name') := by
  cases e with
  | digits => exact type_eq_digits.mpr (type_eq_digits.mp h)
  | collision c =>
    obtain ⟨hshort, hms⟩ := type_eq_collision.mp h
    obtain ⟨hclash, hname, -⟩ := firstClash_of_error hms
    exact type_eq_collision.mpr ⟨hshort, members_error_iff.mpr ⟨hclash, hname, rfl⟩⟩

end Enumeration

namespace Resolver

variable {s : Schema} {settings : Settings} {r r' r₁ r₁' : Resolver} {c d : Call} {name : String}
  {id : NodeId} {res res' : Except ResolveError TargetType} {calls later : List Call}

/-- Next to `r`, a resolver that differs from it only in that `name` is reserved for a node. -/
structure Reserves (r r' : Resolver) (name : String) (id : NodeId) : Prop where
  names : r.names.Reserves r'.names name id
  enums : r'.enums = r.enums
  enumOf : r'.enumOf = r.enumOf

theorem Reserves.allocated (h : r.Reserves r' name id) {base : String} {o : NodeId}
    (hname : (r.names.allocate base o).1 = name → o = id) :
    (r.allocated base o).Reserves (r'.allocated base o) name id :=
  ⟨h.names.allocate hname, h.enums, h.enumOf⟩

/-- Unless the call gives the reserved name to another node, the two resolvers answer it alike and
still differ in that name only. -/
theorem Reserves.step (h : r.Reserves r' name id) (hs : Step s settings r d res r₁)
    (hfree : ¬ r₁.names.Foreign id name) :
    ∃ r₁', Step s settings r' d res r₁' ∧ r₁.Reserves r₁' name id := by
  -- a name that the call gives belongs to the node for which it was asked
  have hgiven : ∀ base o, r₁.names = (r.names.allocate base o).2 →
      (r.names.allocate base o).1 = name → o = id := by
    rintro base o hnames rfl
    by_contra hne
    exact hfree ⟨o, hne, hnames ▸ Naming.Allocator.owner?_allocate r.names base o⟩
  cases hs with
  | endless ho => exact ⟨r', .endless ho, h⟩
  | type ho => exact ⟨r', .type ho, h⟩
  | unrecognized ho hshort =>
    exact ⟨_, .unrecognized ho hshort, ⟨h.names, h.enums, h.enumOf⟩⟩
  | unshown ho hlong => exact ⟨r', .unshown ho hlong, h⟩
  | known ho hl => exact ⟨r', .known ho (h.enumOf ▸ hl), h⟩
  | object ho =>
    have hname := hgiven _ _ rfl
    refine ⟨_, ?_, h.allocated hname⟩
    rw [← h.names.allocate_eq hname]
    exact .object ho
  | new ho hl ht =>
    have hname := hgiven _ _ rfl
    have hsame := h.names.allocate_eq hname
    refine ⟨_, .new ho (h.enumOf ▸ hl) (hsame ▸ ht), h.names.allocate hname, ?_, ?_⟩
    · simp only [enumerated, hsame, h.enums]
    · simp only [enumerated, h.enumOf]
  | refused ho hl ht =>
    have hname := hgiven _ _ rfl
    exact ⟨_, .refused ho (h.enumOf ▸ hl) (h.names.allocate_eq hname ▸ ht), h.allocated hname⟩

/-- What is answered for choices that become the type `x`, or have none. -/
def choicesAnswer (arrays : List Bool) (x : Except Enumeration.Error EnumType) :
    Except ResolveError TargetType :=
  (x.mapError .ofEnumeration).map fun t => wrap arrays (.enum t)

theorem choicesAnswer_inj {arrays : List Bool} {x y : Except Enumeration.Error EnumType}
    (h : choicesAnswer arrays x = choicesAnswer arrays y) : x = y := by
  cases x with
  | ok t =>
    cases y with
    | ok u =>
      cases TargetType.wrap_inj (Except.ok.inj h)
      rfl
    | error c => cases h
  | error e =>
    cases y with
    | ok u => cases h
    | error e' => cases e <;> cases e' <;> cases h <;> rfl

/-- Choices that were not met before get the first name that is free. -/
theorem Step.ofChoices (hs : Step s settings r d res r₁) {arrays : List Bool} {o : NodeId}
    {literals : List Literal}
    (ho : s.outline? settings d.place = some ⟨arrays, .choices o literals⟩)
    (hl : r.enumOf.lookup o = none) : res = choicesAnswer arrays
      (Enumeration.type (r.names.allocate (Naming.className d.hint "Enum") o).1 literals) := by
  cases ht : Enumeration.type (r.names.allocate (Naming.className d.hint "Enum") o).1 literals with
  | ok t => exact ((Step.new ho hl ht).unique hs).1
  | error e => exact ((Step.refused ho hl ht).unique hs).1

/-- A call that gives the reserved name to another node shows it, unless its choices cannot be
written. -/
theorem Reserves.ne_of_foreign (h : r.Reserves r' name id) (hs : Step s settings r d res r₁)
    (hs' : Step s settings r' d res' r₁') (hforeign : r₁.names.Foreign id name)
    (hwritable : res ≠ .error .digits) : res ≠ res' := by
  rintro rfl
  obtain ⟨p, hne, hp⟩ := hforeign
  have hold : r.names.owner? name ≠ some p := fun hp => h.names.free ⟨p, hne, hp⟩
  -- the call gave the name to `p`, for which another one is found next to it
  have hgiven : ∀ base o, r₁.names = (r.names.allocate base o).2 →
      (r.names.allocate base o).1 ≠ (r'.names.allocate base o).1 := by
    intro base o hnames heq
    rw [hnames, Naming.Allocator.owner?_allocate_eq] at hp
    split at hp
    · rename_i hname
      cases hp
      exact h.names.allocate_ne hne (heq.symm.trans hname.symm)
    · exact hold hp
  have hnames : ∀ {arrays o literals},
      s.outline? settings d.place = some ⟨arrays, .choices o literals⟩ →
      r.enumOf.lookup o = none →
      (r.names.allocate (Naming.className d.hint "Enum") o).1 =
        (r'.names.allocate (Naming.className d.hint "Enum") o).1 := by
    intro arrays o literals ho hl
    have hres := hs.ofChoices ho hl
    have htype := hres.symm.trans (hs'.ofChoices ho (h.enumOf ▸ hl))
    refine Enumeration.name_eq_of_type_eq (fun ht => hwritable ?_) (choicesAnswer_inj htype)
    rw [hres, ht]
    rfl
  cases hs with
  | endless _ | type _ | unrecognized _ _ | unshown _ _ | known _ _ => exact hold hp
  | object ho =>
    have := TargetType.wrap_inj (Except.ok.inj (hs'.unique (.object ho)).1)
    exact hgiven _ _ rfl (TargetType.reference.inj this).symm
  | new ho hl _ | refused ho hl _ => exact hgiven _ _ rfl (hnames ho hl)

/-! ## Answers without names -/

/-- An answer without the names that were given, which collisions show in their scope. -/
def nameless : Except ResolveError TargetType → Except ResolveError TargetType
  | .ok t => .ok t.nameless
  | .error (.collision c) => .error (.collision { c with scope := "" })
  | .error .digits => .error .digits
  | .error .endlessItems => .error .endlessItems

/-- Choices become the same under any two names, but for the names. -/
theorem nameless_choicesAnswer (arrays : List Bool) (name name' : String)
    (literals : List Literal) :
    nameless (choicesAnswer arrays (Enumeration.type name' literals)) =
      nameless (choicesAnswer arrays (Enumeration.type name literals)) := by
  cases ht : Enumeration.type name literals with
  | ok t =>
    obtain ⟨t', ht', hmembers⟩ := Enumeration.exists_type name' ht
    rw [ht']
    simp [choicesAnswer, Except.mapError, Except.map, nameless, TargetType.nameless, hmembers]
  | error e =>
    rw [Enumeration.type_eq_error_scoped name' ht]
    cases e <;> rfl

/-- Two resolvers that met the same nodes with choices and gave the same warnings. -/
structure Akin (r r' : Resolver) : Prop where
  members : (r'.enumOf.map fun (o, t) => (o, t.members)) = r.enumOf.map fun (o, t) => (o, t.members)
  warnings : r'.warnings = r.warnings

theorem Akin.lookup (h : r.Akin r') (o : NodeId) :
    (r'.enumOf.lookup o).map (·.members) = (r.enumOf.lookup o).map (·.members) := by
  rw [← Tables.lookup_map, h.members, Tables.lookup_map]

theorem Akin.lookup_eq_none (h : r.Akin r') {o : NodeId} (hl : r.enumOf.lookup o = none) :
    r'.enumOf.lookup o = none := by
  have hlookup := h.lookup o
  rw [hl] at hlookup
  exact Option.map_eq_none_iff.mp hlookup

/-- Resolvers that are akin answer alike, but for names, and stay akin. -/
theorem Akin.step (h : r.Akin r') (hs : Step s settings r d res r₁)
    (hs' : Step s settings r' d res' r₁') : nameless res' = nameless res ∧ r₁.Akin r₁' := by
  have hchoices : ∀ {arrays o literals},
      s.outline? settings d.place = some ⟨arrays, .choices o literals⟩ →
      r.enumOf.lookup o = none → nameless res' = nameless res := by
    intro arrays o literals ho hl
    rw [hs.ofChoices ho hl, hs'.ofChoices ho (h.lookup_eq_none hl)]
    exact nameless_choicesAnswer ..
  cases hs with
  | endless ho =>
    obtain ⟨rfl, rfl⟩ := Step.unique (.endless ho) hs'
    exact ⟨rfl, h⟩
  | type ho =>
    obtain ⟨rfl, rfl⟩ := Step.unique (.type ho) hs'
    exact ⟨rfl, h⟩
  | unrecognized ho hshort =>
    obtain ⟨rfl, rfl⟩ := Step.unique (.unrecognized ho hshort) hs'
    exact ⟨rfl, h.members, congrArg (· ++ _) h.warnings⟩
  | unshown ho hlong =>
    obtain ⟨rfl, rfl⟩ := Step.unique (.unshown ho hlong) hs'
    exact ⟨rfl, h⟩
  | object ho =>
    obtain ⟨rfl, rfl⟩ := Step.unique (.object ho) hs'
    exact ⟨by simp [nameless, TargetType.nameless], h.members, h.warnings⟩
  | @known _ o _ t ho hl =>
    have hlookup := h.lookup o
    rw [hl] at hlookup
    obtain ⟨t', hl', hmembers⟩ := Option.map_eq_some_iff.mp hlookup
    obtain ⟨rfl, rfl⟩ := Step.unique (.known ho hl') hs'
    exact ⟨by simp [nameless, TargetType.nameless, hmembers], h⟩
  | new ho hl ht =>
    refine ⟨hchoices ho hl, ?_⟩
    obtain ⟨t', ht', hmembers⟩ := Enumeration.exists_type _ ht
    obtain ⟨rfl, rfl⟩ := Step.unique (.new ho (h.lookup_eq_none hl) ht') hs'
    exact ⟨by simp [h.members, hmembers], h.warnings⟩
  | refused ho hl ht =>
    refine ⟨hchoices ho hl, ?_⟩
    obtain ⟨rfl, rfl⟩ := Step.unique (.refused ho (h.lookup_eq_none hl)
      (Enumeration.type_eq_error_scoped _ ht)) hs'
    exact ⟨h.members, h.warnings⟩

/-! ## After a failed call -/

/-- A collision is the end of one course. -/
theorem Step.exists_reserved {e : Naming.Collision}
    (hs : Step s settings r c (.error (.collision e)) r₁) :
    ∃ arrays id base, s.Through c.place arrays (some id) ∧
      e.scope = "enum " ++ (r.names.allocate base id).1 ∧ r₁ = r.allocated base id := by
  generalize hres : (.error (.collision e) : Except ResolveError TargetType) = res at hs
  cases hs with
  | @refused _ _ _ cause ho _ ht =>
    cases cause with
    | digits => cases hres
    | collision c =>
      cases hres
      exact ⟨_, _, _, (Schema.outline?_eq_choices_iff.mp ho).1, Enumeration.scope_of_type ht, rfl⟩
  | _ => cases hres

/-- What is left of a failed call: its node keeps the name that it got. -/
structure LeavesName (s : Schema) (settings : Settings) (calls : List Call) (c : Call)
    (id : NodeId) (name : String) : Prop where
  reserved : (after s settings (calls ++ [c])).names.owner? name = some id
  /-- Whatever is asked from then on is answered as without the failed call, but for names. -/
  answers : ∀ later d, nameless (answer s settings (calls ++ c :: later) d) =
    nameless (answer s settings (calls ++ later) d)
  tables : ∀ later, (after s settings (calls ++ c :: later)).enums.map (·.2.members) =
    (after s settings (calls ++ later)).enums.map (·.2.members)
  warnings : ∀ later, (after s settings (calls ++ c :: later)).warnings =
    (after s settings (calls ++ later)).warnings
  /-- The names are the same as well if no other node would be given the one reserved. -/
  same : ∀ later, ¬ (after s settings (calls ++ later)).names.Foreign id name →
    (∀ before d, before ++ [d] <+: later →
      answer s settings (calls ++ c :: before) d = answer s settings (calls ++ before) d) ∧
    (after s settings (calls ++ c :: later)).enums = (after s settings (calls ++ later)).enums
  /-- The first call that would give it to another node is answered otherwise, unless its choices
  cannot be written. -/
  differs : ∀ before d, ¬ (after s settings (calls ++ before)).names.Foreign id name →
    (after s settings (calls ++ (before ++ [d]))).names.Foreign id name →
    answer s settings (calls ++ before) d ≠ .error .digits →
    answer s settings (calls ++ c :: before) d ≠ answer s settings (calls ++ before) d

theorem akin_after (hfirst : (after s settings calls).Akin (after s settings (calls ++ [c])))
    (later : List Call) :
    (after s settings (calls ++ later)).Akin (after s settings (calls ++ c :: later)) := by
  rw [List.append_cons]
  induction later using List.reverseRecOn with
  | nil => simpa using hfirst
  | append_singleton later d ih =>
    rw [← List.append_assoc, ← List.append_assoc]
    exact (ih.step (step_after ..) (step_after ..)).2

/-- A name that another node was given stays with it. -/
theorem foreign_after {before : List Call} (hpre : before <+: later)
    (h : (after s settings (calls ++ before)).names.Foreign id name) :
    (after s settings (calls ++ later)).names.Foreign id name := by
  obtain ⟨rest, rfl⟩ := hpre
  obtain ⟨p, hne, hp⟩ := h
  rw [← List.append_assoc]
  exact ⟨p, hne, (grows_after s settings (calls ++ before) rest).owner? hp⟩

section
variable (hfirst : (after s settings calls).Reserves (after s settings (calls ++ [c])) name id)
include hfirst

/-- As long as no other node is given the reserved name, that name is all that is left. -/
theorem reserves_of_not_foreign
    (hfree : ¬ (after s settings (calls ++ later)).names.Foreign id name) :
    (after s settings (calls ++ later)).Reserves (after s settings (calls ++ c :: later)) name
      id := by
  rw [List.append_cons]
  induction later using List.reverseRecOn with
  | nil => simpa using hfirst
  | append_singleton later d ih =>
    have hreserves := ih fun hforeign =>
      hfree (foreign_after (List.prefix_append later [d]) hforeign)
    rw [← List.append_assoc] at hfree
    obtain ⟨r', hstep, h⟩ := hreserves.step (step_after s settings (calls ++ later) d) hfree
    rw [← List.append_assoc, ← List.append_assoc]
    obtain ⟨-, rfl⟩ := hstep.unique (step_after ..)
    exact h

theorem same_of_not_foreign (hfree : ¬ (after s settings (calls ++ later)).names.Foreign id name)
    {before : List Call} (hpre : before ++ [d] <+: later) :
    answer s settings (calls ++ c :: before) d = answer s settings (calls ++ before) d := by
  have hbefore := (List.prefix_append before [d]).trans hpre
  have hreserves := reserves_of_not_foreign hfirst fun h => hfree (foreign_after hbefore h)
  have hstep := step_after s settings (calls ++ before) d
  rw [List.append_assoc] at hstep
  obtain ⟨r', hstep', -⟩ := hreserves.step hstep fun h => hfree (foreign_after hpre h)
  exact hstep'.answer

theorem differs_of_foreign {before : List Call}
    (hfree : ¬ (after s settings (calls ++ before)).names.Foreign id name)
    (hforeign : (after s settings (calls ++ (before ++ [d]))).names.Foreign id name)
    (hwritable : answer s settings (calls ++ before) d ≠ .error .digits) :
    answer s settings (calls ++ c :: before) d ≠ answer s settings (calls ++ before) d := by
  have hstep := step_after s settings (calls ++ before) d
  have hstep' := step_after s settings (calls ++ c :: before) d
  rw [← List.append_assoc] at hforeign
  exact ((reserves_of_not_foreign hfirst hfree).ne_of_foreign hstep hstep' hforeign hwritable).symm

end

/-- A call that fails for a collision leaves nothing behind but the name that its node was given. -/
theorem leavesName_of_collision {e : Naming.Collision}
    (h : answer s settings calls c = .error (.collision e)) :
    ∃ arrays id name, s.Through c.place arrays (some id) ∧ e.scope = "enum " ++ name ∧
      LeavesName s settings calls c id name := by
  have hstep := step_after s settings calls c
  rw [h] at hstep
  obtain ⟨arrays, id, base, hp, hscope, hafter⟩ := hstep.exists_reserved
  refine ⟨arrays, id, _, hp, hscope, ?_⟩
  have hreserves : (after s settings calls).Reserves (after s settings (calls ++ [c]))
      ((after s settings calls).names.allocate base id).1 id :=
    hafter ▸ ⟨Naming.Allocator.reserves_allocate _ base id, rfl, rfl⟩
  have hakin := akin_after (hafter ▸ ⟨rfl, rfl⟩ :
    (after s settings calls).Akin (after s settings (calls ++ [c])))
  exact {
    reserved := by
      rw [hafter]
      exact Naming.Allocator.owner?_allocate _ base id
    answers := fun later d => ((hakin later).step (step_after ..) (step_after ..)).1
    tables := fun later => by
      rw [(sound_after _).listed, (sound_after _).listed]
      simpa [Function.comp_def] using congrArg (List.map Prod.snd) (hakin later).members
    warnings := fun later => (hakin later).warnings
    same := fun later hfree => ⟨fun _ _ hpre => same_of_not_foreign hreserves hfree hpre,
      (reserves_of_not_foreign hreserves hfree).enums⟩
    differs := fun _ _ hfree hforeign hwritable =>
      differs_of_foreign hreserves hfree hforeign hwritable }

/-- Two nodes with choices, of which the first ones collide. -/
def headings : Schema :=
  { root := 0
    nodes := #[
      { properties := some [("a", some 1), ("b", some 2)] },
      { enum := some [.text "left", .text "Left"] },
      { enum := some [.text "up"] }] }

theorem leavesName_headings : answer headings {} [] ⟨some 1, "turn"⟩ =
      .error (.collision ⟨"LEFT", "left", "Left", "enum Turn"⟩) ∧
    ∃ arrays id name, headings.Through (some 1) arrays (some id) ∧ "enum Turn" = "enum " ++ name ∧
      LeavesName headings {} [] ⟨some 1, "turn"⟩ id name := by
  have hcollision : answer headings {} [] ⟨some 1, "turn"⟩ =
    .error (.collision ⟨"LEFT", "left", "Left", "enum Turn"⟩) := rfl
  exact ⟨hcollision, leavesName_of_collision hcollision⟩

/-- The name that collided choices keep is one that another node would have been given. -/
theorem not_undone_headings : ¬ ∀ (s : Schema) (settings : Settings) (calls : List Call) (c : Call)
    (e : Naming.Collision), answer s settings calls c = .error (.collision e) →
    ∀ later, (∀ d ∈ later, d.place ≠ c.place) →
      (∀ before d, before ++ [d] <+: later →
        answer s settings (calls ++ c :: before) d = answer s settings (calls ++ before) d) ∧
      (after s settings (calls ++ c :: later)).enums =
        (after s settings (calls ++ later)).enums := by
  intro h
  have hsame := (h headings {} [] ⟨some 1, "turn"⟩ _ rfl [⟨some 2, "turn"⟩] (by simp)).1 [] _
    List.prefix_rfl
  have hwithout : answer headings {} [] ⟨some 2, "turn"⟩ =
    .ok (.enum ⟨"Turn", [⟨"UP", 0, "up"⟩]⟩) := rfl
  have hwith : answer headings {} [⟨some 1, "turn"⟩] ⟨some 2, "turn"⟩ =
    .ok (.enum ⟨"Turn2", [⟨"UP", 0, "up"⟩]⟩) := rfl
  rw [List.nil_append, List.nil_append, hwith, hwithout] at hsame
  simp at hsame

end Resolver
end SchemaModel
