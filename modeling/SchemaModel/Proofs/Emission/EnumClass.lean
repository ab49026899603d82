import SchemaModel.Emission.Module
import SchemaModel.Proofs.Emission.Forms
import SchemaModel.Proofs.Synthesis.Choices

/-!
Classes of enumerated types, read back. Every line of the body binds the name of a member to the text
that declares it, whatever characters the text holds, so that a default which is written as a member
denotes the text that the literal has.
-/
namespace SchemaModel.Emission

namespace Reader

/-- A class of constants: its name, and what it binds, in order. -/
structure EnumClass where
  name : String
  bindings : List (String × String)
  deriving DecidableEq, Repr

/-- The text in quotes that makes up all of the characters. -/
def text? : List Char → Option String
  | mark :: body =>
    if mark = '\'' ∨ mark = '"' then
      match quoted? mark body.length body with
      | some (text, []) => some (String.ofList text)
      | _ => none
    else none
  | [] => none

/-- The name that an indented line binds, and the text that it binds it to. -/
def binding? (line : String) : Option (String × String) := do
  let rest ← after? indent line.toList
  let name := String.ofList (rest.takeWhile isNameChar)
  let text ← (after? " = " (rest.dropWhile isNameChar)).bind text?
  if Naming.isIdentifier name = true ∧ name ∉ Naming.keywords then some (name, text) else none

/-- What a line of a class body binds. -/
def statement? (line : String) : Option (List (String × String)) :=
  match binding? line with
  | some b => some [b]
  | none => if line = indent ++ "pass" then some [] else none

/-- The name of the class that a line opens, with `Enum` as its base. -/
def className? (line : String) : Option String := do
  let rest ← after? "class " line.toList
  let name := rest.take (rest.length - "(Enum):".length)
  if rest = name ++ "(Enum):".toList then some (String.ofList name) else none

/-- The class that lines define. A class has a body. -/
def class? : List String → Option EnumClass
  | head :: line :: lines => do
    let name ← className? head
    let bound ← (line :: lines).mapM statement?
    some ⟨name, bound.flatten⟩
  | _ => none

/-- The text that an expression denotes which names a constant of a class. -/
def EnumClass.value? (c : EnumClass) (source : String) : Option String :=
  (after? (c.name ++ ".") source.toList).bind fun name => c.bindings.lookup (String.ofList name)

/-! ## Lines -/

theorem text?_quoted (s : String) : text? (Text.quoted s).toList = some s := by
  obtain ⟨mark, body, hbody, hmark, hread⟩ := quoted?_quoted s []
  rw [List.append_nil] at hbody
  rw [hbody, text?, if_pos hmark, hread]
  simp

theorem className?_head (name : String) :
    className? ("class " ++ name ++ "(Enum):") = some name := by
  have hline : ("class " ++ name ++ "(Enum):").toList =
      "class ".toList ++ (name.toList ++ "(Enum):".toList) := by
    rw [String.toList_append, String.toList_append, List.append_assoc]
  have hname : (name.toList ++ "(Enum):".toList).take
      ((name.toList ++ "(Enum):".toList).length - "(Enum):".length) = name.toList := by
    refine List.take_left' ?_
    rw [List.length_append]
    exact (Nat.add_sub_cancel name.toList.length 7).symm
  rw [className?, hline, after?_append, Option.bind_eq_bind, Option.bind_some]
  simp only [hname, if_true, String.ofList_toList]

/-- The line of a member binds its name to its text. -/
theorem binding?_line (text : String) :
    binding? (indent ++ Naming.constantName text ++ " = " ++ Text.quoted text) =
      some (Naming.constantName text, text) := by
  have hline : (indent ++ Naming.constantName text ++ " = " ++ Text.quoted text).toList =
      indent.toList ++ ((Naming.constantName text).toList ++
        (" = ".toList ++ (Text.quoted text).toList)) := by
    simp only [String.toList_append, List.append_assoc]
  have hend : ∀ c ∈ (" = ".toList ++ (Text.quoted text).toList).head?, isNameChar c = false := by
    rintro c ⟨⟩
    decide
  have hchars : ∀ c ∈ (Naming.constantName text).toList, isNameChar c = true :=
    fun _ => isNameChar_of_mem_constantName
  obtain ⟨htake, hdrop⟩ := takeWhile_run hchars hend
  have hshape := Naming.isConstantName_constantName text
  have hidentifier := Naming.isIdentifier_of_isClassName
    (Naming.isClassName_of_isConstantName hshape)
  rw [binding?, hline, after?_append, Option.bind_eq_bind, Option.bind_some]
  simp only [htake, hdrop, after?_append, Option.bind_eq_bind, Option.bind_some, text?_quoted,
    String.ofList_toList]
  rw [if_pos ⟨hidentifier, Naming.not_mem_keywords_of_isConstantName hshape⟩]

/-! ## Classes -/

theorem mapM_statement? {ms : List Member} (h : ∀ m ∈ ms, m.name = Naming.constantName m.literal) :
    (ms.map fun m => indent ++ m.name ++ " = " ++ Text.quoted m.literal).mapM statement? =
      some (ms.map fun m => [(m.name, m.literal)]) := by
  induction ms with
  | nil => rfl
  | cons m ms ih =>
    rw [List.forall_mem_cons] at h
    rw [List.map_cons, List.mapM_cons, ih h.2, statement?, h.1, binding?_line]
    simp [h.1]

theorem class?_cons (head line : String) (lines : List String) :
    class? (head :: line :: lines) = (className? head).bind fun name =>
      ((line :: lines).mapM statement?).bind fun bound => some ⟨name, bound.flatten⟩ := rfl

/-- The class of an enumerated type binds its members in order; one without members binds
nothing. -/
theorem class?_enumLines {t : EnumType} (h : Enumeration.Named t.members) :
    class? (enumLines t) = some ⟨t.name, t.members.map fun m => (m.name, m.literal)⟩ := by
  obtain ⟨name, ms⟩ := t
  cases ms with
  | nil =>
    have hpass : [indent ++ "pass"].mapM statement? = some [[]] := by decide
    have hlines : enumLines ⟨name, []⟩ = ["class " ++ name ++ "(Enum):", indent ++ "pass"] := rfl
    rw [hlines, class?_cons, className?_head, hpass]
    rfl
  | cons m ms =>
    have hlines : enumLines ⟨name, m :: ms⟩ = ("class " ++ name ++ "(Enum):") ::
        (m :: ms).map fun m => indent ++ m.name ++ " = " ++ Text.quoted m.literal := rfl
    have hflat : ((m :: ms).map fun m => [(m.name, m.literal)]).flatten =
        (m :: ms).map fun m => (m.name, m.literal) := by
      rw [← List.flatMap_def, ← List.map_eq_flatMap]
    have hbody := mapM_statement? h.name
    rw [List.map_cons] at hlines hbody
    rw [hlines, class?_cons, className?_head, hbody, Option.bind_some, Option.bind_some, hflat]

/-- The expression of a member denotes its text in the class. -/
theorem value?_member {t : EnumType} (h : Enumeration.Named t.members) {m : Member}
    (hm : m ∈ t.members) :
    EnumClass.value? ⟨t.name, t.members.map fun m => (m.name, m.literal)⟩
      (t.name ++ "." ++ m.name) = some m.literal := by
  have hnodup : ((t.members.map fun m => (m.name, m.literal)).map (·.1)).Nodup := by
    rw [List.map_map]
    exact h.nodup
  rw [EnumClass.value?, String.toList_append, after?_append, Option.bind_some,
    String.ofList_toList]
  exact Tables.lookup_of_mem hnodup (List.mem_map.mpr ⟨m, hm, rfl⟩)

end Reader

/-- Defaults select declared choices from end to end. A literal selects the member of its text, and
the expression of the member denotes this text in the class of the type. Anything else is refused as
a conversion, unless it holds an integer with too many digits. -/
theorem defaults_select_choices {name : String} {choices : List Literal} {t : EnumType}
    (h : Enumeration.type name choices = .ok t) (property : String) :
    t.Selects property choices ∧
      ∃ c, Reader.class? (enumLines t) = some c ∧
        c.bindings = t.members.map (fun m => (m.name, m.literal)) ∧
        (c.bindings.map (·.1)).Nodup ∧ (c.bindings.map (·.2)).Nodup ∧
        ∀ given m, synthesize property (.enum t) (some given) = .ok (.member m) →
          ∃ source text, expression (.enum t) (.member m) = .ok source ∧
            given.text? = some text ∧ c.value? source = some text := by
  have hnamed := Enumeration.named_of_type h
  refine ⟨EnumType.selects_of_type h property, _, Reader.class?_enumLines hnamed, rfl, ?_, ?_,
    fun given m hdefault => ?_⟩
  · rw [List.map_map]
    exact hnamed.nodup
  · rw [List.map_map]
    exact hnamed.nodup_literals
  · obtain ⟨text, htext, hm, hliteral⟩ := EnumType.exists_text_of_member hdefault
    exact ⟨_, text, rfl, htext, hliteral ▸ Reader.value?_member hnamed hm⟩

/-- Choices of which some have one text, and some texts need escapes. -/
def spellings : List Literal :=
  [.text "it's", .int 1, .bool true, .null, .text "1", .sequence [], .text "a\tb", .text "true"]

def spelled : EnumType :=
  ⟨"Spelled", [⟨"IT_S", 0, "it's"⟩, ⟨"_1", 1, "1"⟩, ⟨"TRUE", 2, "true"⟩, ⟨"A_B", 3, "a\tb"⟩]⟩

theorem defaults_select_choices_spelled :
    Enumeration.type "Spelled" spellings = .ok spelled ∧ spelled.Selects "p" spellings ∧
      ∃ c, Reader.class? (enumLines spelled) = some c ∧
        c.bindings = spelled.members.map (fun m => (m.name, m.literal)) ∧
        (c.bindings.map (·.1)).Nodup ∧ (c.bindings.map (·.2)).Nodup ∧
        ∀ given m, synthesize "p" (.enum spelled) (some given) = .ok (.member m) →
          ∃ source text, expression (.enum spelled) (.member m) = .ok source ∧
            given.text? = some text ∧ c.value? source = some text := by
  have htype : Enumeration.type "Spelled" spellings = .ok spelled := by decide
  exact ⟨htype, defaults_select_choices htype "p"⟩

/-- A sequence is refused, but the error cannot show the integer in it. -/
theorem not_refused_power :
    Enumeration.type "Spelled" spellings = .ok spelled ∧
      (Literal.sequence [.int (10 ^ Numeral.maxDigits : Nat)]).isComposite = true ∧
      ¬ ∃ e, synthesize "p" (.enum spelled)
        (some (.sequence [.int (10 ^ Numeral.maxDigits : Nat)])) = .error (.conversion e) := by
  have hlong : (Literal.sequence [.int (10 ^ Numeral.maxDigits : Nat)]).hasLong = true := by
    rw [Literal.hasLong, Literal.anyLong, Literal.hasLong_int, Numeral.isLong_power, Bool.true_or]
  refine ⟨by decide, by rw [Literal.isComposite], ?_⟩
  rintro ⟨e, he⟩
  rw [Synthesis.synthesize_of_hasLong "p" rfl rfl hlong] at he
  cases he

end SchemaModel.Emission
