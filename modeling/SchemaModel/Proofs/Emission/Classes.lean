import SchemaModel.Emission.Module
import SchemaModel.Proofs.Runs

/-!
What a generated module defines: behind the head, one class for every enumerated type and every
generated type, in this order.
-/
namespace SchemaModel.Emission

open Fallible

/-- The body of a class: at least one line, all of them indented or empty. -/
def IsBody (body : List String) : Prop :=
  body ≠ [] ∧ ∀ line ∈ body, line = "" ∨ ∃ rest, line = indent ++ rest

/-- The lines of a class of the given name. -/
inductive IsClass (name : String) : List String → Prop
  | enumerated {body} (hb : IsBody body) : IsClass name (("class " ++ name ++ "(Enum):") :: body)
  | data {body} (hb : IsBody body) : IsClass name ("@dataclass" :: ("class " ++ name ++ ":") :: body)

/-- A text that holds, behind the head, one class for each of the names. -/
def Defines (text : String) (names : List String) : Prop :=
  ∃ classes, List.Forall₂ IsClass names classes ∧
    text = "\n".intercalate (head ++ (classes.map fun ls => "" :: "" :: ls).flatten ++ [""])

theorem isClass_enumLines (t : EnumType) : IsClass t.name (enumLines t) := by
  refine .enumerated ⟨?_, ?_⟩
  · cases hm : t.members <;> simp
  · intro line hl
    obtain hl | hl := List.mem_append.mp hl
    · split at hl
      · exact .inr ⟨"pass", List.mem_singleton.mp hl⟩
      · cases hl
    · obtain ⟨m, -, rfl⟩ := List.mem_map.mp hl
      exact .inr ⟨m.name ++ (" = " ++ Text.quoted m.literal), by simp [String.append_assoc]⟩

/-- A body without lines is replaced. -/
theorem isBody_orPass {body : List String}
    (h : ∀ line ∈ body, line = "" ∨ ∃ rest, line = indent ++ rest) :
    IsBody (if body.isEmpty then [indent ++ "pass"] else body) := by
  by_cases hb : body.isEmpty = true
  · rw [if_pos hb]
    exact ⟨by simp, fun line hl => .inr ⟨"pass", List.mem_singleton.mp hl⟩⟩
  · rw [if_neg hb]
    exact ⟨by simpa using hb, h⟩

theorem isBody_documentationLines {t : GeneratedType} {lines : List String}
    (h : documentationLines t = .ok lines) :
    ∀ line ∈ lines, line = "" ∨ ∃ rest, line = indent ++ rest := by
  unfold documentationLines at h
  split at h
  · split at h
    · cases h
      intro line hl
      obtain rfl | hl := List.mem_cons.mp hl
      · exact .inr ⟨_, by rw [documentationLine, String.append_assoc, String.append_assoc]⟩
      · split at hl
        · cases hl
        · exact .inl (List.mem_singleton.mp hl)
    · cases h
  · cases h
    exact fun line hl => absurd hl List.not_mem_nil

theorem isClass_typeLines {t : GeneratedType} {lines : List String} (h : typeLines t = .ok lines) :
    IsClass t.name lines := by
  unfold typeLines at h
  obtain ⟨documentation, hdocumentation, h⟩ := bind_eq_ok.mp h
  obtain ⟨fields, -, h⟩ := bind_eq_ok.mp h
  cases h
  refine .data (isBody_orPass fun line hl => ?_)
  obtain hl | hl := List.mem_append.mp hl
  · exact isBody_documentationLines hdocumentation line hl
  · obtain ⟨field, -, rfl⟩ := List.mem_map.mp hl
    exact .inr ⟨field, rfl⟩

theorem isClass_of_mapM {types : List GeneratedType} {classes : List (List String)}
    (h : types.mapM typeLines = .ok classes) :
    List.Forall₂ IsClass (types.map (·.name)) classes := by
  rw [List.forall₂_map_left_iff]
  exact (forall₂_of_mapM h).imp fun _ _ => isClass_typeLines

/-- A module defines the classes of its types, and nothing else. -/
theorem defines_moduleText {g : Generation} {text : String} (h : moduleText g = .ok text) :
    Defines text (g.enums.map (·.name) ++ g.types.map (·.name)) := by
  unfold moduleText at h
  obtain ⟨_, -, h⟩ := bind_eq_ok.mp h
  obtain ⟨types, ht, h⟩ := bind_eq_ok.mp h
  cases h
  refine ⟨g.enums.map enumLines ++ types, ?_, rfl⟩
  refine List.rel_append ?_ (isClass_of_mapM (mapError_eq_ok.mp ht))
  rw [List.forall₂_map_left_iff, List.forall₂_map_right_iff, List.forall₂_same]
  exact fun t _ => isClass_enumLines t

end SchemaModel.Emission
