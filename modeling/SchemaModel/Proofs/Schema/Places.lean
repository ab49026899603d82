import Mathlib.Logic.Relation
import SchemaModel.Proofs.Schema.Declarations

/-!
The places of a document that loading visits, each under the pointer that leads it there: the whole
document, what a reference points to, and the children that an object names. Following references
from a place ends at an object or goes on forever.
-/
namespace SchemaModel.Schema

open Relation (ReflTransGen TransGen)

/-! ## References and objects -/

/-- A place refers to another one by a text. -/
def Refers (document : Document) (v : Value) (reference : String) (target : Value) : Prop :=
  reference? (document.content v) = some (.text reference) ∧
    Pointer.resolve document reference = .ok target

/-- A place refers to another one. -/
def RefersTo (document : Document) (v target : Value) : Prop :=
  ∃ reference, Refers document v reference target

/-- A place holds an object that is no reference. -/
def Holds (document : Document) (v : Value) (entries : List (Value × Value)) : Prop :=
  document.content v = .mapping entries ∧ Value.entry? "$ref" entries = none

/-- The children that an object under a pointer names, each under its own pointer. -/
inductive Inner (document : Document) (pointer : String) (entries : List (Value × Value)) :
    String → Value → Prop
  | property {w ps name u} (hw : Value.entry? "properties" entries = some w)
      (hps : document.content w = .mapping ps) (hu : (.text name, u) ∈ ps) :
      Inner document pointer entries (Pointer.property pointer name) u
  | items {u} (hu : Value.entry? "items" entries = some u) :
      Inner document pointer entries (Pointer.items pointer) u

/-- The places that are visited, each with the pointer under which it is. -/
inductive Visited (document : Document) : String → Value → Prop
  | root : Visited document Pointer.root document.value
  | target {pointer v reference target} (h : Visited document pointer v)
      (hr : Refers document v reference target) : Visited document reference target
  | inner {pointer v entries pointer' w} (h : Visited document pointer v)
      (ho : Holds document v entries) (hi : Inner document pointer entries pointer' w) :
      Visited document pointer' w

variable {document : Document} {pointer pointer' reference : String} {v w target : Value}
  {entries : List (Value × Value)}

theorem reference?_eq {object reference : Value} (h : reference? object = some reference) :
    ∃ entries, object = .mapping entries ∧ Value.entry? "$ref" entries = some reference := by
  cases object
  case mapping entries => exact ⟨entries, rfl, h⟩
  all_goals cases h

theorem reference?_of_holds (h : Holds document v entries) :
    reference? (document.content v) = none := by
  rw [h.1]
  exact h.2

theorem Holds.unique {es : List (Value × Value)} (h : Holds document v entries)
    (h' : Holds document v es) : entries = es := by
  have := h.1.symm.trans h'.1
  cases this
  rfl

theorem Refers.not_holds (h : Refers document v reference target) :
    ¬ Holds document v entries := by
  intro ho
  have := h.1
  rw [reference?_of_holds ho] at this
  cases this

theorem Refers.unique {reference' : String} {target' : Value}
    (h : Refers document v reference target) (h' : Refers document v reference' target') :
    reference = reference' ∧ target = target' := by
  have hr := h.1.symm.trans h'.1
  cases hr
  have ht := h.2.symm.trans h'.2
  cases ht
  exact ⟨rfl, rfl⟩

theorem RefersTo.unique {u : Value} (h : RefersTo document v w) (h' : RefersTo document v u) :
    w = u := by
  obtain ⟨_, hr⟩ := h
  obtain ⟨_, hr'⟩ := h'
  exact (hr.unique hr').2

/-! ## Pointers lead to the places -/

theorem Inner.resolve (hd : document.IsJson) (hv : Pointer.resolve document pointer = .ok v)
    (hc : document.content v = .mapping entries) (h : Inner document pointer entries pointer' w) :
    Pointer.resolve document pointer' = .ok w := by
  have hj := Document.entriesJson_of_content (hd.resolve hv) hc
  cases h with
  | property hw hps hu =>
    have hpj := Document.entriesJson_of_content (Value.isJson_of_entry? hj hw) hps
    exact Pointer.resolve_property hv hc hw hps (Value.entry?_of_mem hpj hu)
  | items hu => exact Pointer.resolve_items hv hc hu

/-- A place is where the pointer leads that it is visited under. -/
theorem Visited.resolve (hd : document.IsJson) (h : Visited document pointer v) :
    Pointer.resolve document pointer = .ok v := by
  induction h with
  | root => exact Pointer.resolve_root
  | target _ hr _ => exact hr.2
  | inner _ ho hi ih => exact hi.resolve hd ih ho.1

/-! ## The end of references -/

/-- Following references from a place under a pointer ends at an object under another one. -/
inductive Ends (document : Document) : String → Value → String → Value → Prop
  | here {pointer : String} {v : Value} {entries : List (Value × Value)}
      (h : Holds document v entries) : Ends document pointer v pointer v
  | reference {pointer reference last : String} {v target w : Value}
      (hr : Refers document v reference target) (h : Ends document reference target last w) :
      Ends document pointer v last w

/-- Following references from a place never leaves references. -/
def Loops (document : Document) (v : Value) : Prop :=
  ∀ w, ReflTransGen (RefersTo document) v w → ∃ u, RefersTo document w u

variable {last : String}

theorem Ends.of_holds (h : Ends document pointer v last w) (ho : Holds document v entries) :
    last = pointer ∧ w = v := by
  cases h with
  | here => exact ⟨rfl, rfl⟩
  | reference hr _ => exact absurd ho hr.not_holds

theorem Ends.of_refers (h : Ends document pointer v last w)
    (hr : Refers document v reference target) : Ends document reference target last w := by
  cases h with
  | here ho => exact absurd ho hr.not_holds
  | reference hr' h =>
    obtain ⟨rfl, rfl⟩ := hr.unique hr'
    exact h

/-- References lead on in one way only. -/
theorem Ends.unique {last' : String} {w' : Value} (h : Ends document pointer v last w)
    (h' : Ends document pointer v last' w') : last = last' ∧ w = w' := by
  induction h with
  | here ho =>
    obtain ⟨rfl, rfl⟩ := h'.of_holds ho
    exact ⟨rfl, rfl⟩
  | reference hr _ ih => exact ih (h'.of_refers hr)

theorem Ends.content (h : Ends document pointer v last w) :
    ∃ entries, document.content v = .mapping entries := by
  cases h with
  | here ho => exact ⟨_, ho.1⟩
  | reference hr _ =>
    obtain ⟨entries, hc, -⟩ := reference?_eq hr.1
    exact ⟨entries, hc⟩

/-- A reference from which references end can be followed. -/
theorem Ends.follows {u : Value} (h : Ends document pointer v last w)
    (hr : reference? (document.content v) = some u) :
    ∃ reference target, u = .text reference ∧ Pointer.resolve document reference = .ok target := by
  cases h with
  | here ho =>
    rw [reference?_of_holds ho] at hr
    cases hr
  | reference hr' _ =>
    rw [hr'.1] at hr
    cases hr
    exact ⟨_, _, rfl, hr'.2⟩

theorem Ends.resolve (h : Ends document pointer v last w)
    (hv : Pointer.resolve document pointer = .ok v) : Pointer.resolve document last = .ok w := by
  induction h with
  | here => exact hv
  | reference hr _ ih => exact ih hr.2

theorem Ends.visited (h : Ends document pointer v last w) (hv : Visited document pointer v) :
    Visited document last w := by
  induction h with
  | here => exact hv
  | reference hr _ ih => exact ih (hv.target hr)

theorem Ends.not_loops (h : Ends document pointer v last w) : ¬ Loops document v := by
  induction h with
  | here ho =>
    intro hl
    obtain ⟨u, reference, hr⟩ := hl _ .refl
    exact hr.not_holds ho
  | reference hr _ ih => exact fun hl => ih fun u hu => hl u (.head ⟨_, hr⟩ hu)

/-- A place that leads back to itself never leads out: whatever is met on the way lies on the same
round. -/
theorem loops_of_cycle (h : TransGen (RefersTo document) v v) : Loops document v := by
  have hround : ∀ w, ReflTransGen (RefersTo document) v w → TransGen (RefersTo document) w w := by
    intro w hw
    induction hw with
    | refl => exact h
    | tail _ hstep ih =>
      obtain ⟨u, hfirst, hrest⟩ := TransGen.head'_iff.mp ih
      obtain rfl := hfirst.unique hstep
      exact .tail' hrest hstep
  intro w hw
  obtain ⟨u, hfirst, -⟩ := TransGen.head'_iff.mp (hround w hw)
  exact ⟨u, hfirst⟩

end SchemaModel.Schema
