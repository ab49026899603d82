import SchemaModel.Proofs.Schema.Faults

/-!
Homes of nodes. A node is made under the pointer at which references end; that pointer is its home,
and it is the home of no other node. Every pointer that is remembered with a node leads to its home,
and once a node is filled, everything that its object names is remembered as well. So loading that
succeeds has been everywhere, and came upon no fault.
-/
namespace SchemaModel

open Schema

namespace Loading

/-- A pointer under which a node is made: it leads to an object. -/
def Home (l : Loading) (document : Document) (id : NodeId) (pointer : String) : Prop :=
  (pointer, id) ∈ l.places ∧
    ∃ v entries, Pointer.resolve document pointer = .ok v ∧ Holds document v entries

/-- What holds of homes while loading; nodes in `pending` are still to be filled. -/
structure Housed (document : Document) (pending : List NodeId) (l : Loading) : Prop where
  bound : ∀ pointer id, (pointer, id) ∈ l.places → id < l.nodes.size
  /-- References end from every pointer that is remembered. -/
  ends : ∀ pointer id, (pointer, id) ∈ l.places → ∃ v last w,
    Pointer.resolve document pointer = .ok v ∧ Ends document pointer v last w
  /-- A reference is remembered with the node that it leads to. -/
  linked : ∀ pointer id v reference target, (pointer, id) ∈ l.places →
    Pointer.resolve document pointer = .ok v → Refers document v reference target →
    (reference, id) ∈ l.places
  homes : ∀ id id' pointer pointer', l.Home document id pointer → l.Home document id' pointer' →
    (id = id' ↔ pointer = pointer')
  covered : ∀ id pointer v entries, (pointer, id) ∈ l.places → id ∉ pending →
    Pointer.resolve document pointer = .ok v → Holds document v entries →
    ∃ n, l.nodes[id]? = some n ∧ Covers l document pointer entries n

variable {document : Document} {l : Loading} {pending : List NodeId}
  {pointer reference last : String} {id : NodeId} {v w target : Value}
  {entries : List (Value × Value)} {n : SchemaNode}

/-! ## Where pointers lead -/

/-- A node is at home where the references end from any pointer to it. -/
theorem Housed.home (h : Housed document pending l) (hm : (pointer, id) ∈ l.places)
    (hv : Pointer.resolve document pointer = .ok v) (he : Ends document pointer v last w) :
    l.Home document id last := by
  induction he with
  | here ho => exact ⟨hm, _, _, hv, ho⟩
  | reference hr _ ih => exact ih (h.linked _ _ _ _ _ hm hv hr) hr.2

/-! ## Steps -/

theorem Housed.empty : Housed document pending ⟨#[], []⟩ := by
  constructor <;> simp [Home]

theorem Housed.register (h : Housed document pending l) (hnew : l.place? pointer = none)
    (hv : Pointer.resolve document pointer = .ok v) (ho : Holds document v entries) :
    Housed document (l.nodes.size :: pending) (l.register pointer) := by
  have hg := Grows.register l pointer
  have hkey : ∀ id, (pointer, id) ∉ l.places := fun id hm =>
    Tables.lookup_eq_none_iff.mp hnew (List.mem_map_of_mem hm)
  have hhome : ∀ {id p}, (l.register pointer).Home document id p →
      l.Home document id p ∨ (id = l.nodes.size ∧ p = pointer) := by
    rintro id p ⟨hm, hp⟩
    obtain hm | hm := List.mem_cons.mp hm
    · cases hm
      exact .inr ⟨rfl, rfl⟩
    · exact .inl ⟨hm, hp⟩
  -- neither the new node nor its pointer was there
  have hfresh : ∀ {id p}, l.Home document id p → id ≠ l.nodes.size ∧ p ≠ pointer := by
    rintro id p ⟨hm, -⟩
    refine ⟨Nat.ne_of_lt (h.bound p id hm), ?_⟩
    rintro rfl
    exact hkey id hm
  refine ⟨?_, ?_, ?_, ?_, ?_⟩
  · intro p id hm
    obtain hm | hm := List.mem_cons.mp hm
    · cases hm
      simp [Loading.register]
    · exact Nat.lt_of_lt_of_le (h.bound p id hm) hg.size
  · intro p id hm
    obtain hm | hm := List.mem_cons.mp hm
    · cases hm
      exact ⟨v, _, _, hv, .here ho⟩
    · exact h.ends p id hm
  · intro p id u reference target hm hu hr
    obtain hm | hm := List.mem_cons.mp hm
    · cases hm
      rw [hv] at hu
      cases hu
      exact absurd ho hr.not_holds
    · exact List.mem_cons_of_mem _ (h.linked _ _ _ _ _ hm hu hr)
  · intro id id' p p' hp hp'
    obtain hold | ⟨rfl, rfl⟩ := hhome hp <;> obtain hold' | ⟨rfl, rfl⟩ := hhome hp'
    · exact h.homes _ _ _ _ hold hold'
    · exact iff_of_false (hfresh hold).1 (hfresh hold).2
    · exact iff_of_false (hfresh hold').1.symm (hfresh hold').2.symm
    · exact iff_of_true rfl rfl
  · intro id p u es hm hpending hu hes
    simp only [List.mem_cons, not_or] at hpending
    obtain hm | hm := List.mem_cons.mp hm
    · cases hm
      exact absurd rfl hpending.1
    · obtain ⟨n, hn, hcovers⟩ := h.covered id p u es hm hpending.2 hu hes
      refine ⟨n, ?_, hcovers.after hg⟩
      rw [Loading.register, Array.getElem?_push, if_neg hpending.1, hn]

theorem Housed.link (h : Housed document pending l) (hm : (reference, id) ∈ l.places)
    (hv : Pointer.resolve document pointer = .ok v) (hr : Refers document v reference target) :
    Housed document pending (l.link pointer id) := by
  have hg := Grows.link l pointer id
  -- the pointer leads on, so it is no home
  have hhome : ∀ {id' p}, (l.link pointer id).Home document id' p → l.Home document id' p := by
    rintro id' p ⟨hm', u, es, hu, hes⟩
    obtain hm' | hm' := List.mem_cons.mp hm'
    · cases hm'
      rw [hv] at hu
      cases hu
      exact absurd hes hr.not_holds
    · exact ⟨hm', u, es, hu, hes⟩
  refine ⟨?_, ?_, ?_, ?_, ?_⟩
  · intro p id' hm'
    obtain hm' | hm' := List.mem_cons.mp hm'
    · cases hm'
      exact h.bound _ _ hm
    · exact h.bound p id' hm'
  · intro p id' hm'
    obtain hm' | hm' := List.mem_cons.mp hm'
    · cases hm'
      obtain ⟨u, last, w, hu, he⟩ := h.ends _ _ hm
      rw [hr.2] at hu
      cases hu
      exact ⟨v, last, w, hv, .reference hr he⟩
    · exact h.ends p id' hm'
  · intro p id' u reference' target' hm' hu hr'
    obtain hm' | hm' := List.mem_cons.mp hm'
    · cases hm'
      rw [hv] at hu
      cases hu
      obtain ⟨rfl, -⟩ := hr.unique hr'
      exact List.mem_cons_of_mem _ hm
    · exact List.mem_cons_of_mem _ (h.linked _ _ _ _ _ hm' hu hr')
  · exact fun id' id'' p p' hp hp' => h.homes _ _ _ _ (hhome hp) (hhome hp')
  · intro id' p u es hm' hpending hu hes
    obtain ⟨hold, -⟩ := hhome ⟨hm', u, es, hu, hes⟩
    obtain ⟨n, hn, hcovers⟩ := h.covered id' p u es hold hpending hu hes
    exact ⟨n, hn, hcovers.after hg⟩

theorem Housed.fill (h : Housed document (id :: pending) l) (hm : (pointer, id) ∈ l.places)
    (hv : Pointer.resolve document pointer = .ok v) (ho : Holds document v entries)
    (hn : Covers l document pointer entries n) : Housed document pending (l.fill id n) := by
  have hg := Grows.fill l id n
  refine ⟨fun p id' hm' => Nat.lt_of_lt_of_le (h.bound p id' hm') hg.size, h.ends, h.linked, h.homes,
    ?_⟩
  intro id' p u es hm' hpending hu hes
  by_cases hid : id' = id
  · subst hid
    obtain rfl := (h.homes _ _ _ _ ⟨hm', u, es, hu, hes⟩ ⟨hm, v, entries, hv, ho⟩).mp rfl
    rw [hv] at hu
    cases hu
    obtain rfl := ho.unique hes
    refine ⟨n, ?_, hn.after hg⟩
    simp [Loading.fill, h.bound _ _ hm]
  · obtain ⟨n', hn', hcovers⟩ := h.covered id' p u es hm' (by simp [hid, hpending]) hu hes
    refine ⟨n', ?_, hcovers.after hg⟩
    rw [Loading.fill, Array.getElem?_setIfInBounds, if_neg (Ne.symm hid), hn']

theorem stepsKeep_housed : StepsKeep document (Housed document) where
  register h hnew hv ho := h.register hnew hv ho
  link h hm hv hr := h.link hm hv hr
  fill h hm hv ho hn := h.fill hm hv ho hn

/-! ## Nothing is left out -/

/-- Every place that is visited is remembered. -/
theorem Housed.known (hd : document.IsJson) (h : Housed document [] l)
    (hroot : (Pointer.root, id) ∈ l.places) (hv : Visited document pointer v) :
    ∃ id, (pointer, id) ∈ l.places := by
  induction hv with
  | root => exact ⟨id, hroot⟩
  | target hp hr ih =>
    obtain ⟨id, hm⟩ := ih
    exact ⟨id, h.linked _ _ _ _ _ hm (hp.resolve hd) hr⟩
  | inner hp ho hi ih =>
    obtain ⟨id, hm⟩ := ih
    obtain ⟨n, -, hcovers⟩ := h.covered _ _ _ _ hm List.not_mem_nil (hp.resolve hd) ho
    exact hcovers.inner hi

end Loading

namespace Schema

variable {document : Document} {l : Loading} {pointer last : String} {v w : Value}
  {entries : List (Value × Value)} {n : SchemaNode} {e : LoadError}

theorem Kindless.not_declared {k : Value} (h : Kindless document w) :
    declaredKind document w ≠ .ok k := by
  intro hk
  unfold declaredKind at hk
  split at hk
  · exact h.null ‹_›
  · exact h.text _ ‹_›
  · exact h.list _ ‹_›
  · cases hk

theorem documentation_not_long {d : Value} (h : documentation v = .ok d) : v.hasLong = false := by
  cases hlong : v.hasLong with
  | false => rfl
  | true =>
    rw [documentation_eq_error.mpr ⟨hlong, rfl⟩] at h
    cases h

/-- An object that is covered has no faults. -/
theorem Covers.not_objectFault (hd : document.IsJson) (h : Covers l document pointer entries n) :
    ¬ ObjectFault document pointer entries e := by
  obtain ⟨base, hbase, -⟩ := h.declared
  unfold declaration at hbase
  simp only [hd.closed_eq] at hbase
  obtain ⟨kind, hkind, hbase⟩ := Fallible.bind_eq_ok.mp hbase
  obtain ⟨title, htitle, hbase⟩ := Fallible.bind_eq_ok.mp hbase
  obtain ⟨description, hdescription, -⟩ := Fallible.bind_eq_ok.mp hbase
  intro hfault
  cases hfault with
  | kind hw hkindless =>
    rw [hw] at hkind
    exact hkindless.not_declared hkind
  | unshown hunshown =>
    cases hunshown with
    | kind hw hkindless =>
      rw [hw] at hkind
      exact hkindless.not_declared hkind
    | documentation hname hw hlong =>
      have hshort : ((Value.entry? _ entries).getD .null).hasLong = false :=
        hname.elim (fun hname => hname ▸ documentation_not_long htitle)
          fun hname => hname ▸ documentation_not_long hdescription
      rw [hw, Option.getD_some, hlong] at hshort
      cases hshort
  | properties hw hn =>
    obtain ⟨ps, -, es, hes, -⟩ := exists_of_rel_right h.properties hw
    exact hn es hes
  | enum hw hn =>
    have hchoices := h.enum
    rw [choices, hw, Option.map_some] at hchoices
    split at hchoices
    · cases ‹some _ = none›
    · exact hn _ (Option.some.inj ‹_›)
    · cases hchoices

/-- A place from which references end is at fault only by its object. -/
theorem Ends.object_of_fault (h : Ends document pointer v last w)
    (hfault : Fault document pointer v e) :
    ∃ entries, Holds document v entries ∧ ObjectFault document pointer entries e := by
  cases hfault with
  | selfReference _ hl => exact absurd hl h.not_loops
  | externalReference hr he | unresolvable hr he | index hr he =>
    obtain ⟨_, target, ⟨⟩, ht⟩ := h.follows hr
    rw [ht] at he
    cases he
  | referenceKind hr hw =>
    obtain ⟨reference, -, rfl, -⟩ := h.follows hr
    exact absurd rfl (hw reference)
  | notObject hn =>
    obtain ⟨entries, hc⟩ := h.content
    exact absurd hc (hn entries)
  | object ho hfault => exact ⟨_, ho, hfault⟩

/-- A document that was loaded has no faults. -/
theorem not_faulty_of_ok (hd : document.IsJson) {s : Schema} (h : ofDocument document = .ok s) :
    ¬ Faulty document e := by
  rintro ⟨pointer, v, hv, hfault⟩
  obtain ⟨places, hhoused, hroot⟩ := keeps_ofDocument hd Loading.stepsKeep_housed .empty h
  obtain ⟨id, hm⟩ := hhoused.known hd hroot hv
  obtain ⟨v', last, w, hv', hends⟩ := hhoused.ends _ _ hm
  have hresolve := hv.resolve hd
  obtain rfl : v = v' := by
    rw [hresolve] at hv'
    cases hv'
    rfl
  obtain ⟨entries, ho, hobject⟩ := hends.object_of_fault hfault
  obtain ⟨n, -, hcovers⟩ := hhoused.covered _ _ _ _ hm List.not_mem_nil hresolve ho
  exact hcovers.not_objectFault hd hobject

end Schema
end SchemaModel
