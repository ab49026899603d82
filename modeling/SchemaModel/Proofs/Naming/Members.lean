import Mathlib.Data.List.Induction
import SchemaModel.Proofs.Naming.Keywords

/-!
What the members of texts are, and which error there is instead. Distinct texts have members in
order of first occurrence, unless some text makes a name that a different text before it makes too;
the error then names the first such text (`members_exact`).
-/
namespace SchemaModel

namespace Naming

/-- No keyword is written in capitals. -/
theorem not_mem_keywords_of_isConstantName {name : String} (h : isConstantName name = true) :
    name ∉ keywords := by
  have hnone : ∀ k ∈ keywords, isConstantName k = false := by decide
  intro hk
  rw [hnone name hk] at h
  cases h

theorem isLower_of_isConstantName {name : String} (h : isConstantName name = true) {c : Char}
    (hc : c ∈ name.toList) : c.isLower = false := by
  rw [isConstantName, Bool.and_eq_true, List.all_eq_true] at h
  have hshape := h.1 c hc
  simp only [Bool.or_eq_true, beq_iff_eq] at hshape
  -- a capital, a digit and the underscore are all characters that have no small form
  obtain (rfl | hc) | hc := hshape
  · rfl
  · exact of_ascii (P := fun c => c.isUpper = true → c.isLower = false) (by decide)
      (isWordChar_of_isUpper hc) hc
  · exact of_ascii (P := fun c => c.isDigit = true → c.isLower = false) (by decide)
      (isWordChar_of_isDigit hc) hc

end Naming

namespace Enumeration

variable {scope text first second : String} {ts : List String} {ms ms' : List Member}

/-! ## Members -/

/-- One member for each distinct text, in order of first occurrence and numbered in this order. -/
structure Enumerates (ts : List String) (ms : List Member) : Prop extends Named ms where
  literals : ms.map (·.literal) = ts.eraseDups
  ordinals : ms.map (·.ordinal) = List.range ms.length

theorem Enumerates.nil : Enumerates [] [] := ⟨.nil, rfl, rfl⟩

/-- A text behind others counts unless it is among them. -/
theorem eraseDups_concat (ts : List String) (t : String) :
    (ts ++ [t]).eraseDups = if t ∈ ts then ts.eraseDups else ts.eraseDups ++ [t] := by
  rw [List.eraseDups_append, List.cons_removeAll]
  by_cases ht : t ∈ ts
  · simp [ht, List.removeAll]
  · simp [ht, List.removeAll, List.eraseDups_cons]

/-- A step enumerates the text that it is given as well. -/
theorem Enumerates.addMember (h : Enumerates ts ms) (ha : addMember scope ms text = .ok ms') :
    Enumerates (ts ++ [text]) ms' := by
  have hmem : text ∈ ts ↔ ∃ m ∈ ms, m.literal = text := by
    rw [← List.mem_eraseDups, ← h.literals, List.mem_map]
  refine ⟨h.toNamed.addMember ha, ?_, ?_⟩
  · rw [eraseDups_concat, ← h.literals]
    rcases addMember_ok ha with ⟨hold, rfl⟩ | ⟨rfl, hnew, -⟩
    · rw [if_pos (hmem.mpr hold)]
    · have hnot : text ∉ ts := by
        rw [hmem]
        rintro ⟨m, hm, hl⟩
        exact hnew m hm hl
      rw [if_neg hnot, List.map_append]
      rfl
  · rcases addMember_ok ha with ⟨-, rfl⟩ | ⟨rfl, -, -⟩
    · exact h.ordinals
    · simp [h.ordinals, List.range_succ]

/-- A run enumerates the texts that it goes through. -/
theorem enumerates_members (h : members ts scope = .ok ms) : Enumerates ts ms := by
  induction ts using List.reverseRecOn generalizing ms with
  | nil =>
    cases h
    exact .nil
  | append_singleton ts t ih =>
    rw [members, List.foldlM_append] at h
    obtain ⟨ms₁, hms₁, h⟩ := Fallible.bind_eq_ok.mp h
    rw [List.foldlM_cons] at h
    obtain ⟨ms₂, hms₂, h⟩ := Fallible.bind_eq_ok.mp h
    cases h
    exact (ih hms₁).addMember hms₂

/-- The ordinal of a member is the rank of its text. -/
theorem Enumerates.ordinal_eq (h : Enumerates ts ms) {m : Member} (hm : m ∈ ms) :
    m.ordinal = ts.eraseDups.idxOf m.literal := by
  obtain ⟨i, hi, rfl⟩ := List.getElem_of_mem hm
  have hordinal : ms[i].ordinal = i := by
    have := congrArg (·[i]?) h.ordinals
    simpa [hi] using this
  have hrank := h.nodup_literals.idxOf_getElem i (by simpa using hi)
  rw [List.getElem_map] at hrank
  rw [hordinal, ← h.literals, hrank]

/-- Texts are enumerated in one way. -/
theorem Enumerates.unique (h : Enumerates ts ms) (h' : Enumerates ts ms') : ms = ms' := by
  have hlength : ms.length = ms'.length := by
    have := congrArg List.length (h.literals.trans h'.literals.symm)
    simpa using this
  refine List.ext_getElem hlength fun i hi hi' => ?_
  have hliteral : ms[i].literal = ms'[i].literal := by
    have := congrArg (·[i]?) (h.literals.trans h'.literals.symm)
    simpa [hi, hi'] using this
  have hordinal : ms[i].ordinal = ms'[i].ordinal := by
    rw [h.ordinal_eq (List.getElem_mem hi), h'.ordinal_eq (List.getElem_mem hi'), hliteral]
  have hname : ms[i].name = ms'[i].name := by
    rw [h.name _ (List.getElem_mem hi), h'.name _ (List.getElem_mem hi'), hliteral]
  cases hm : ms[i]
  cases hm' : ms'[i]
  simp_all

/-! ## The first clash -/

/-- What stands before the second text of a first clash is free of clashes, so that there is no other
first clash. -/
theorem FirstClash.unique {first' second' : String} (h : FirstClash ts first second)
    (h' : FirstClash ts first' second') : first = first' ∧ second = second' := by
  obtain ⟨before, after, rfl, hfree, hfirst, hne, hname⟩ := h
  obtain ⟨before', after', hsplit, hfree', hfirst', hne', hname'⟩ := h'
  obtain rfl : before = before' := by
    -- the longer one of the two would hold the second text of the other clash
    rcases List.append_eq_append_iff.mp hsplit with ⟨between, rfl, hrest⟩ | ⟨between, rfl, hrest⟩
    · cases between with
      | nil => simp
      | cons t between =>
        obtain ⟨rfl, -⟩ := List.cons.inj hrest
        exact absurd (clash_of_mem hfirst hne hname between) hfree'
    · cases between with
      | nil => simp
      | cons t between =>
        obtain ⟨rfl, -⟩ := List.cons.inj hrest
        exact absurd (clash_of_mem hfirst' hne' hname' between) hfree
  obtain ⟨rfl, -⟩ := List.cons.inj (List.append_cancel_left hsplit)
  refine ⟨?_, rfl⟩
  by_contra hother
  exact hfree ⟨first, hfirst, first', hfirst', hother, hname.trans hname'.symm⟩

/-- A run ends at the first clash. -/
theorem members_error_iff {c : Naming.Collision} : members ts scope = .error c ↔
    FirstClash ts c.first c.second ∧ c.name = Naming.constantName c.second ∧ c.scope = scope := by
  constructor
  · exact firstClash_of_error
  · rintro ⟨hclash, hname, hscope⟩
    cases h : members ts scope with
    | ok ms => exact absurd hclash.clash (not_clash_of_ok h)
    | error c' =>
      obtain ⟨hclash', hname', hscope'⟩ := firstClash_of_error h
      obtain ⟨hfirst, hsecond⟩ := hclash.unique hclash'
      rw [hsecond, ← hname'] at hname
      rw [← hscope'] at hscope
      cases c
      cases c'
      simp_all

/-- Texts have members exactly if no two different ones make one name: one member for each distinct
text, in order of first occurrence, under a name in capitals that is no keyword. Otherwise the error
names the first text whose name a different text before it makes, and that text. -/
theorem members_exact (ts : List String) (scope : String) :
    ((∃ ms, members ts scope = .ok ms) ↔ ¬ Clash ts) ∧
      (∀ ms, members ts scope = .ok ms ↔ ¬ Clash ts ∧ Enumerates ts ms) ∧
      (∀ ms, members ts scope = .ok ms → ∀ m ∈ ms, Naming.isIdentifier m.name = true ∧
        (∀ c ∈ m.name.toList, c.isLower = false) ∧ m.name ∉ Naming.keywords) ∧
      ∀ c, members ts scope = .error c ↔
        FirstClash ts c.first c.second ∧ c.name = Naming.constantName c.second ∧
          c.scope = scope := by
  refine ⟨members_ok_iff scope, fun ms => ?_, fun ms h m hm => ?_, fun _ => members_error_iff⟩
  · constructor
    · intro h
      exact ⟨not_clash_of_ok h, enumerates_members h⟩
    · rintro ⟨hfree, hms⟩
      obtain ⟨ms', h'⟩ := (members_ok_iff scope).mpr hfree
      rw [hms.unique (enumerates_members h')]
      exact h'
  · have hshape : Naming.isConstantName m.name = true := by
      rw [(enumerates_members h).name m hm]
      exact Naming.isConstantName_constantName _
    exact ⟨Naming.isIdentifier_of_isClassName (Naming.isClassName_of_isConstantName hshape),
      fun c => Naming.isLower_of_isConstantName hshape,
      Naming.not_mem_keywords_of_isConstantName hshape⟩

/-- A text that comes again does not clash with itself; one that differs in a hyphen does. -/
example : members ["one two", "one two", "one-two", "3"] =
    .error ⟨"ONE_TWO", "one two", "one-two", "enum"⟩ := by decide

end Enumeration
end SchemaModel
