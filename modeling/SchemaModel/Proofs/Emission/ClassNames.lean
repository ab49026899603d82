import SchemaModel.Proofs.Emission.Classes
import SchemaModel.Proofs.Generation.Preservation
import SchemaModel.Proofs.Generation.Structure
import SchemaModel.Proofs.Naming.Keywords

/-!
The names of the classes that a module defines. Each is an identifier that the head of the module
leaves free. It is a legal name unless it is one of the three keywords that begin with a capital,
which comes from the name of the generation or of a property that is that word alone (`legal_iff`).
-/
namespace SchemaModel

namespace Schema

/-- The names that a node can get: the candidates for the class name of a text under which the node is
named. -/
def NameMade (s : Schema) (root : String) (id : NodeId) (name : String) : Prop :=
  ∃ hint fallback k, s.NamedUnder root id hint ∧ fallback ∈ ["Type", "Enum"] ∧
    name = Naming.Allocator.candidate (Naming.className hint fallback) k

variable {s : Schema} {root name : String} {id : NodeId}

theorem NameMade.isClassName (h : s.NameMade root id name) : Naming.isClassName name = true := by
  obtain ⟨hint, fallback, k, -, hf, rfl⟩ := h
  have hfallback : ∀ f ∈ ["Type", "Enum"], Naming.isClassName f = true := by decide
  exact Naming.isClassName_candidate (Naming.isClassName_className hint (hfallback fallback hf)) k

/-- A keyword is a name without a number, from a text of one word. -/
theorem NameMade.words_of_keyword (h : s.NameMade root id name)
    (hk : name ∈ Naming.capitalKeywords) : ∃ hint w, s.NamedUnder root id hint ∧
      Naming.words hint.toList = [w] ∧ String.ofList (Naming.capitalize w) = name := by
  obtain ⟨hint, fallback, k, hunder, hf, rfl⟩ := h
  have hfallback : ∀ f ∈ ["Type", "Enum"], f ∉ Naming.capitalKeywords := by decide
  cases k with
  | zero =>
    obtain ⟨w, hw, hname⟩ := Naming.words_of_className (hfallback fallback hf) hk
    exact ⟨hint, w, hunder, hw, hname⟩
  | succ k => exact absurd hk (Naming.candidate_not_mem_keywords _ k)

end Schema

namespace Building

variable {s : Schema} {root : String} {b : Building}

/-- Every owner has names that it can get. -/
def NamesMade (s : Schema) (root : String) (b : Building) : Prop :=
  ∀ name id, b.resolver.names.owner? name = some id → s.NameMade root id name

theorem NamesMade.allocate (h : b.NamesMade s root) {id owner : NodeId} {hint fallback name : String}
    (hunder : s.NamedUnder root id hint) (hf : fallback ∈ ["Type", "Enum"])
    (ho : (b.resolver.names.allocate (Naming.className hint fallback) id).2.owner? name =
      some owner) : s.NameMade root owner name := by
  obtain ho | ⟨rfl, rfl⟩ := Naming.Allocator.owner?_of_allocate ho
  · exact h name owner ho
  · obtain ⟨k, hk, -⟩ := Naming.Allocator.allocate_passes b.resolver.names
      (Naming.className hint fallback) owner
    exact ⟨hint, fallback, k, hunder, hf, hk⟩

theorem preserves_namesMade (s : Schema) (root : String) :
    Preserves s root (NamesMade s root) where
  warned _ _ h := h
  enumerated _ _ _ _ h hunder _ _ _ _ ho := h.allocate (.inr hunder) (by simp) ho
  opened _ _ _ h hunder _ _ _ ho := h.allocate hunder (by simp) ho
  described _ _ _ h := h

end Building

namespace Emission

/-! ## What the head binds -/

/-- The names that a list of imports binds. One that is imported under another name binds the
other. -/
def boundNames : List String → List String
  | _ :: "as" :: name :: ws => name :: boundNames ws
  | name :: ws => name :: boundNames ws
  | [] => []

/-- The names that a line of a module binds. -/
def importedNames (line : String) : List String :=
  match ((line.toList.filter (· ≠ ',')).splitOn ' ').map String.ofList with
  | "import" :: ws => boundNames ws
  | "from" :: _ :: "import" :: ws => boundNames ws
  | _ => []

/-- The names that the head of every module binds. -/
def headNames : List String := head.flatMap importedNames

theorem headNames_eq : headNames = ["annotations", "_dt", "dataclass", "_field", "Enum", "List",
    "MutableSet", "Optional", "_OrderedSet"] := by
  decide +kernel

/-- Classes are kept from the names of the head that a class could have. -/
theorem mem_reserved {name : String} (h : Naming.isClassName name = true) (hn : name ∈ headNames) :
    name ∈ reserved := by
  have hall : ∀ n ∈ ["annotations", "_dt", "dataclass", "_field", "Enum", "List", "MutableSet",
      "Optional", "_OrderedSet"], Naming.isClassName n = true → n ∈ reserved := by decide
  rw [headNames_eq] at hn
  exact hall name hn h

theorem not_mem_reserved {g : Generation} {text : String} (h : moduleText g = .ok text)
    {name : String} (hn : name ∈ g.enums.map (·.name) ++ g.types.map (·.name)) :
    name ∉ reserved := by
  unfold moduleText at h
  obtain ⟨_, hcheck, -⟩ := Fallible.bind_eq_ok.mp h
  unfold checkNames at hcheck
  split at hcheck
  · cases hcheck
  · rename_i hnone
    simpa using List.find?_eq_none.mp hnone name hn

/-! ## Legal names -/

/-- A name that a module may give to a class. -/
structure IsLegal (name : String) : Prop where
  identifier : Naming.isIdentifier name = true
  notKeyword : name ∉ Naming.keywords
  notBound : name ∉ headNames

theorem isLegal_iff {name : String} (h : Naming.isClassName name = true) (hr : name ∉ reserved) :
    IsLegal name ↔ name ∉ Naming.capitalKeywords := by
  constructor
  · exact fun hlegal hk => hlegal.notKeyword ((Naming.mem_keywords_iff h).mpr hk)
  · exact fun hk =>
      { identifier := Naming.isIdentifier_of_isClassName h
        notKeyword := fun hn => hk ((Naming.mem_keywords_iff h).mp hn)
        notBound := fun hn => hr (mem_reserved h hn) }

open Generation

variable {s : Schema} {settings : Settings} {name text : String} {g : Generation}

/-- Every class of a generation has a name that some node can get. -/
theorem exists_nameMade (h : ofSchema s settings name = .ok g) {n : String}
    (hn : n ∈ g.enums.map (·.name) ++ g.types.map (·.name)) : ∃ id, s.NameMade name id n := by
  obtain ⟨b, hinv, hmade, hroot, rfl⟩ :=
    ofSchema_preserves (Building.preserves_namesMade s name) (fun _ _ => nofun) h
  obtain hn | hn := List.mem_append.mp hn
  · rw [hinv.finish_enums] at hn
    obtain ⟨t, ht, rfl⟩ := List.mem_map.mp hn
    obtain ⟨⟨id, _⟩, he, rfl⟩ := List.mem_map.mp ht
    exact ⟨id, hmade _ id (hinv.choices.owned id _ he)⟩
  · obtain ⟨id, hid⟩ := (hinv.mem_finish_names hroot n).mp hn
    exact ⟨id, hmade n id (hinv.owned id n hid)⟩

/-- The classes that a module defines have legal names, except for `False`, `None` and `True`. Such a
name is that of a node named under the name of the generation or of a property that leads to the node,
and that text has this word only, up to the case of its first letter. -/
theorem legal_iff (hg : ofSchema s settings name = .ok g) (hm : moduleText g = .ok text) :
    Defines text (g.enums.map (·.name) ++ g.types.map (·.name)) ∧
      ∀ n ∈ g.enums.map (·.name) ++ g.types.map (·.name),
        (IsLegal n ↔ n ∉ ["False", "None", "True"]) ∧
        (¬ IsLegal n → ∃ id hint w, s.NamedUnder name id hint ∧
          Naming.words hint.toList = [w] ∧ String.ofList (Naming.capitalize w) = n) := by
  refine ⟨defines_moduleText hm, fun n hn => ?_⟩
  obtain ⟨id, hmade⟩ := exists_nameMade hg hn
  have hiff := isLegal_iff hmade.isClassName (not_mem_reserved hm hn)
  refine ⟨hiff, fun hillegal => ⟨id, hmade.words_of_keyword ?_⟩⟩
  rw [hiff, not_not] at hillegal
  exact hillegal

/-- A property whose name is a keyword once it begins with a capital. -/
def absence : Schema :=
  { nodes := #[
      { kind := .text "object", properties := some [("none", some 1), ("1st", some 2)] },
      { kind := .text "object" },
      { enum := some [.text "a"] }]
    root := 0 }

/-- The module for `absence`, found by running the generation. -/
theorem exists_absence : ∃ g text, ofSchema absence {} "root" = .ok g ∧ moduleText g = .ok text ∧
    g.enums.map (·.name) ++ g.types.map (·.name) = ["_1st", "None", "Root"] := by
  have hrun : ((ofSchema absence {} "root").toOption.bind fun g =>
      (moduleText g).toOption.map fun _ => g.enums.map (·.name) ++ g.types.map (·.name)) =
    some ["_1st", "None", "Root"] := by
    decide +kernel
  obtain ⟨g, hg, hrun⟩ := Option.bind_eq_some_iff.mp hrun
  obtain ⟨text, hm, hnames⟩ := Option.map_eq_some_iff.mp hrun
  exact ⟨g, text, Fallible.toOption_eq_some.mp hg, Fallible.toOption_eq_some.mp hm, hnames⟩

theorem legal_iff_absence : ∃ g text, ofSchema absence {} "root" = .ok g ∧
    moduleText g = .ok text ∧ Defines text ["_1st", "None", "Root"] ∧
      ∀ n ∈ ["_1st", "None", "Root"],
        (IsLegal n ↔ n ∉ ["False", "None", "True"]) ∧
        (¬ IsLegal n → ∃ id hint w, absence.NamedUnder "root" id hint ∧
          Naming.words hint.toList = [w] ∧ String.ofList (Naming.capitalize w) = n) := by
  obtain ⟨g, text, hg, hm, hnames⟩ := exists_absence
  exact ⟨g, text, hg, hm, hnames ▸ legal_iff hg hm⟩

/-- Modules do define classes with names that are not legal. -/
theorem not_all_legal : ¬ ∀ (s : Schema) (settings : Settings) (name text : String)
    (g : Generation), ofSchema s settings name = .ok g → moduleText g = .ok text →
      ∀ n ∈ g.enums.map (·.name) ++ g.types.map (·.name), IsLegal n := by
  intro hall
  obtain ⟨g, text, hg, hm, hnames⟩ := exists_absence
  have hlegal := hall absence {} "root" text g hg hm "None" (by simp [hnames])
  exact hlegal.notKeyword (by decide)

end Emission
end SchemaModel
