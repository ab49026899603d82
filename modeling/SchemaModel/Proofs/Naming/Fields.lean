import Mathlib.Data.List.Induction
import SchemaModel.Naming.FieldTable
import SchemaModel.Proofs.Naming.Keywords
import SchemaModel.Proofs.Tables

/-!
Field tables over a whole run. A table remembers which texts were granted a name, whatever was
refused in between, so that a claim is refused exactly if another text was granted the same name
before. Every name that is granted may stand as a field of a class.
-/
namespace SchemaModel.Naming

/-! ## Legal names -/

/-- A name that a field may have. -/
structure IsLegalField (name : String) : Prop where
  identifier : isIdentifier name = true
  notKeyword : name ∉ keywords
  notSoft : name ∉ softKeywords

theorem isIdentifier_of_isFieldName {name : String} (h : isFieldName name = true) :
    isIdentifier name = true := by
  rw [isFieldName, Bool.and_eq_true] at h
  refine isIdentifier_of_shape (fun c hc => ?_) h.2 fun c hc => ?_
  · exact Bool.or_eq_true_iff.mpr (.inr hc)
  · have hshape := List.all_eq_true.mp h.1 c hc
    simp only [Bool.or_eq_true, beq_iff_eq] at hshape
    rcases hshape with (hc | hc) | hc
    · exact .inl hc
    · have hletter : c.isAlpha = true := Bool.or_eq_true_iff.mpr (.inr hc)
      exact .inr (Bool.or_eq_true_iff.mpr (.inl hletter))
    · exact .inr (isWordChar_of_isDigit hc)

/-- The underscore that sets a name apart from a keyword does not make another one. -/
theorem guardKeyword_not_mem (name : String) :
    guardKeyword name ∉ keywords ∧ guardKeyword name ∉ softKeywords := by
  have hapart : ∀ k ∈ keywords ++ softKeywords, k ++ "_" ∉ keywords ∧ k ++ "_" ∉ softKeywords := by
    decide
  rw [guardKeyword]
  split
  · rename_i hk
    exact hapart name (List.mem_append.mpr hk)
  · rename_i hk
    exact not_or.mp hk

theorem isLegalField_fieldName (text : String) : IsLegalField (fieldName text) := by
  have hidentifier := isIdentifier_of_isFieldName (isFieldName_fieldName text)
  suffices h : fieldName text ∉ keywords ∧ fieldName text ∉ softKeywords from
    ⟨hidentifier, h.1, h.2⟩
  unfold fieldName
  split
  · decide
  · exact guardKeyword_not_mem _

namespace FieldTable

variable {t t' : FieldTable} {scope source name : String} {sources earlier : List String}

/-! ## Single claims -/

theorem claim_ok (h : t.claim source = .ok (name, t')) : name = fieldName source ∧
    ((t.source? name = none ∧ t' = { t with sources := t.sources ++ [(name, source)] }) ∨
      (t.source? name = some source ∧ t' = t)) := by
  unfold claim at h
  dsimp only at h
  split at h
  · rename_i hnone
    cases h
    exact ⟨rfl, .inl ⟨hnone, rfl⟩⟩
  · rename_i previous hsome
    split at h
    · rename_i heq
      cases h
      exact ⟨rfl, .inr ⟨heq ▸ hsome, rfl⟩⟩
    · cases h

/-- A claim is refused because of the text that the table has for its name. -/
theorem claim_error_iff {c : Collision} : t.claim source = .error c ↔
    ∃ first, t.source? (fieldName source) = some first ∧ first ≠ source ∧
      c = ⟨fieldName source, first, source, t.scope⟩ := by
  unfold claim
  dsimp only
  cases t.source? (fieldName source) with
  | none => simp
  | some previous =>
    by_cases heq : previous = source
    · simp [heq]
    · simp [heq, eq_comm (b := c)]

/-! ## Runs -/

/-- The table after a claim. A claim that is refused leaves it as it is. -/
def after (t : FieldTable) (source : String) : FieldTable :=
  match t.claim source with
  | .ok (_, t') => t'
  | .error _ => t

/-- The table after claims for a sequence of texts. -/
def run (t : FieldTable) (sources : List String) : FieldTable := sources.foldl after t

/-- One of the claims that were made on a new table was granted: that of `source`, which got
`name`. -/
def Granted (scope : String) (sources : List String) (source name : String) : Prop :=
  ∃ before later t, sources = before ++ source :: later ∧
    ((empty scope).run before).claim source = .ok (name, t)

theorem run_concat (t : FieldTable) (sources : List String) (source : String) :
    t.run (sources ++ [source]) = (t.run sources).after source := by
  simp [run]

theorem granted_nil : ¬ Granted scope [] source name := by
  rintro ⟨before, later, t, h, -⟩
  simp at h

/-- The last claim was granted, or an earlier one was. -/
theorem granted_concat {last : String} : Granted scope (sources ++ [last]) source name ↔
    Granted scope sources source name ∨
      source = last ∧ ∃ t, ((empty scope).run sources).claim last = .ok (name, t) := by
  constructor
  · rintro ⟨before, later, t, hsplit, hclaim⟩
    rcases List.eq_nil_or_concat later with rfl | ⟨later, x, rfl⟩
    · obtain ⟨rfl, rfl⟩ := List.append_singleton_inj.mp hsplit
      exact .inr ⟨rfl, t, hclaim⟩
    · have hsplit' : sources ++ [last] = (before ++ source :: later) ++ [x] := by simp [hsplit]
      obtain ⟨rfl, -⟩ := List.append_singleton_inj.mp hsplit'
      exact .inl ⟨before, later, t, rfl, hclaim⟩
  · rintro (⟨before, later, t, rfl, hclaim⟩ | ⟨rfl, t, hclaim⟩)
    · exact ⟨before, later ++ [last], t, by simp, hclaim⟩
    · exact ⟨sources, [], t, rfl, hclaim⟩

/-- A table has the texts that were granted their names. -/
structure Records (t : FieldTable) (scope : String) (sources : List String) : Prop where
  scope_eq : t.scope = scope
  granted : ∀ name source, t.source? name = some source ↔ Granted scope sources source name

theorem Records.empty (scope : String) : (empty scope).Records scope [] where
  scope_eq := rfl
  granted _ _ := ⟨nofun, fun h => absurd h granted_nil⟩

/-- One more claim is recorded if it is granted. -/
theorem Records.after (h : ((FieldTable.empty scope).run sources).Records scope sources)
    (last : String) :
    (((FieldTable.empty scope).run sources).after last).Records scope (sources ++ [last]) := by
  rw [FieldTable.after]
  cases hclaim : ((FieldTable.empty scope).run sources).claim last with
  | error c =>
    refine ⟨h.scope_eq, fun name source => ?_⟩
    rw [granted_concat, hclaim, h.granted]
    simp
  | ok p =>
    obtain ⟨given, t'⟩ := p
    have hlast : ∀ name source, Granted scope (sources ++ [last]) source name ↔
        Granted scope sources source name ∨ source = last ∧ given = name := by
      intro name source
      rw [granted_concat, hclaim]
      simp
    obtain ⟨-, ⟨hnew, rfl⟩ | ⟨hold, rfl⟩⟩ := claim_ok hclaim
    · -- the name is entered behind the others, where it is found since it is new
      refine ⟨h.scope_eq, fun name source => ?_⟩
      rw [hlast, ← h.granted]
      simp only [source?, List.lookup_append, Option.or_eq_some_iff] at hnew ⊢
      by_cases hname : name = given
      · subst hname
        simp [hnew, eq_comm]
      · have hne : (name == given) = false := by simpa using hname
        simp [List.lookup_cons, hne, Ne.symm hname]
    · refine ⟨h.scope_eq, fun name source => ?_⟩
      rw [hlast, h.granted]
      constructor
      · exact .inl
      · rintro (hgranted | ⟨rfl, rfl⟩)
        · exact hgranted
        · exact (h.granted _ _).mp hold

theorem records_run (scope : String) (sources : List String) :
    ((empty scope).run sources).Records scope sources := by
  induction sources using List.reverseRecOn with
  | nil => exact .empty scope
  | append_singleton sources last ih =>
    rw [run_concat]
    exact ih.after last

/-! ## What was granted -/

theorem Granted.eq_fieldName (h : Granted scope sources source name) : name = fieldName source := by
  obtain ⟨before, later, t, -, hclaim⟩ := h
  exact (claim_ok hclaim).1

/-- A name is granted to one text only. -/
theorem Granted.eq_of_name {other : String} (h : Granted scope sources source name)
    (h' : Granted scope sources other name) : source = other := by
  rw [← (records_run scope sources).granted] at h h'
  exact Option.some.inj (h.symm.trans h')

/-- What holds of the claims that are made on a new table. -/
structure Lawful (scope : String) (earlier : List String) : Prop where
  /-- A claim is refused exactly if a different text was granted its name before, and the error
  reports that text. -/
  refused : ∀ source c, ((empty scope).run earlier).claim source = .error c ↔
    ∃ first, Granted scope earlier first (fieldName source) ∧ first ≠ source ∧
      c = ⟨fieldName source, first, source, scope⟩
  /-- A claim that is refused might as well not have been made. -/
  harmless : ∀ source c, ((empty scope).run earlier).claim source = .error c →
    ∀ later, (empty scope).run (earlier ++ source :: later) = (empty scope).run (earlier ++ later)
  named : ∀ source name, Granted scope earlier source name → name = fieldName source
  differ : ∀ source other name name', Granted scope earlier source name →
    Granted scope earlier other name' → source ≠ other → name ≠ name'
  legal : ∀ source name, Granted scope earlier source name → IsLegalField name

theorem lawful (scope : String) (earlier : List String) : Lawful scope earlier where
  refused source c := by
    have hrecords := records_run scope earlier
    rw [claim_error_iff, hrecords.scope_eq]
    simp only [hrecords.granted]
  harmless source c h later := by
    have hafter : ((empty scope).run earlier).after source = (empty scope).run earlier := by
      rw [after, h]
    simp only [run, List.foldl_append, List.foldl_cons] at hafter ⊢
    rw [hafter]
  named _ _ h := h.eq_fieldName
  differ source other name name' h h' hne := by
    rintro rfl
    exact hne (h.eq_of_name h')
  legal source name h := by
    rw [h.eq_fieldName]
    exact isLegalField_fieldName source

end FieldTable
end SchemaModel.Naming
