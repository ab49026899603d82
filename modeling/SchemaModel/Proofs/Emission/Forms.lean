import SchemaModel.Proofs.Calendar.DayNumber
import SchemaModel.Proofs.Emission.Texts
import SchemaModel.Proofs.Enumeration
import SchemaModel.Proofs.Tables
import SchemaModel.Proofs.Value.PlainNan

/-!
Each single form of expression reads back: constants, numbers, texts, moments and members. Where an
enumerated type is in scope, nothing may be taken for one of its members that is none.
-/
namespace SchemaModel.Emission.Reader

variable {scope : List EnumType}

/-! ## Names of types -/

/-- A text that completes no name of a type in scope which begins earlier, in characters other than
points. -/
def Clear (scope : List EnumType) (rest : List Char) : Prop :=
  ∀ t ∈ scope, ∀ lead, lead ≠ [] → '.' ∉ lead → ¬ t.name.toList ++ ['.'] <+: lead ++ rest

theorem clear_nil : Clear scope [] := by
  intro t _ lead _ hdot hpre
  rw [List.append_nil] at hpre
  exact hdot (hpre.subset (by simp))

theorem Clear.append {text rest : List Char} (hdot : '.' ∉ text) (h : Clear scope rest) :
    Clear scope (text ++ rest) := by
  intro t ht lead hne hlead hpre
  rw [← List.append_assoc] at hpre
  refine h t ht (lead ++ text) (by simp [hne]) ?_ hpre
  rw [List.mem_append, not_or]
  exact ⟨hlead, hdot⟩

theorem Clear.cons {c : Char} {rest : List Char} (hc : c ≠ '.') (h : Clear scope rest) :
    Clear scope (c :: rest) := by
  have hdot : '.' ∉ [c] := by
    rw [List.mem_singleton]
    exact Ne.symm hc
  exact h.append hdot

/-- A name with a point does not begin before itself: it would repeat with the period of what stands
before it, and so would the absence of points. -/
theorem not_prefix_of_period {lead name : List Char} (hne : lead ≠ []) (hdot : '.' ∉ lead)
    (cs : List Char) : ¬ name ++ ['.'] <+: lead ++ (name ++ '.' :: cs) := by
  intro hpre
  have hpos := List.length_pos_of_ne_nil hne
  induction hn : name.length using Nat.strongRecOn generalizing name with
  | ind n ih =>
    obtain hlt | hle := Nat.lt_or_ge name.length lead.length
    · -- the point falls into what stands before
      have hin : name ++ ['.'] <+: lead :=
        List.prefix_of_prefix_length_le hpre (List.prefix_append _ _) (by simp; omega)
      exact hdot (hin.subset (by simp))
    · -- what stands before begins the name, and is taken off both
      have hwhole : lead <+: name ++ ['.'] :=
        List.prefix_of_prefix_length_le (List.prefix_append _ _) hpre (by simp; omega)
      obtain ⟨name', rfl⟩ := List.prefix_of_prefix_length_le hwhole (List.prefix_append _ _) hle
      rw [List.append_assoc, List.append_assoc, List.prefix_append_right_inj] at hpre
      rw [List.length_append] at hn
      exact ih name'.length (by omega) hpre rfl

theorem clear_name (t : EnumType) (cs : List Char) : Clear [t] (t.name.toList ++ '.' :: cs) := by
  intro u hu lead hne hdot
  rw [List.mem_singleton.mp hu]
  exact not_prefix_of_period hne hdot cs

theorem after?_append (lead : String) (cs : List Char) :
    after? lead (lead.toList ++ cs) = some cs := by
  rw [after?, List.isPrefixOf?_eq_some_iff_append_eq]

theorem Clear.member?_eq_none {c : Char} {cs : List Char} (hc : c ≠ '.') (h : Clear scope cs) :
    member? scope (c :: cs) = none := by
  rw [member?, List.findSome?_eq_none_iff]
  intro t ht
  have hnone : after? (t.name ++ ".") (c :: cs) = none := by
    rw [after?, Option.eq_none_iff_forall_not_mem]
    intro rest hrest
    rw [Option.mem_def, List.isPrefixOf?_eq_some_iff_append_eq, String.toList_append] at hrest
    refine h t ht [c] (by simp) ?_ ⟨rest, hrest⟩
    rw [List.mem_singleton]
    exact Ne.symm hc
  rw [hnone]
  rfl

/-! ## Expressions that read back -/

/-- A text reads as a value, whatever it stands before, as long as the text has fuel. -/
structure Reads (scope : List EnumType) (v : Value) (text : List Char) : Prop where
  ne_nil : text ≠ []
  value : ∀ fuel rest, text.length ≤ fuel → Ends rest → Clear scope rest →
    value scope fuel (text ++ rest) = some (v, rest)
  clear : ∀ rest, Clear scope rest → Clear scope (text ++ rest)

theorem Reads.length_pos {v : Value} {text : List Char} (h : Reads scope v text) :
    0 < text.length :=
  List.length_pos_of_ne_nil h.ne_nil

/-- Without types in scope it is enough that the text is read. -/
theorem Reads.of_closed {v : Value} (c : Char) (cs : List Char)
    (h : ∀ fuel rest, Ends rest → Reader.value [] (fuel + 1) (c :: (cs ++ rest)) = some (v, rest)) :
    Reads [] v (c :: cs) := by
  refine ⟨by simp, fun fuel rest hf he _ => ?_, fun _ _ _ => nofun⟩
  obtain ⟨fuel, rfl⟩ : ∃ n, fuel = n + 1 := ⟨fuel - 1, by simp only [List.length_cons] at hf; omega⟩
  exact h fuel rest he

theorem reads_null : Reads scope .null "None".toList := by
  refine ⟨by decide, fun fuel rest hf _ hc => ?_, fun rest => Clear.append (by decide)⟩
  obtain ⟨fuel, rfl⟩ : ∃ n, fuel = n + 1 := ⟨fuel - 1, by simp at hf; omega⟩
  have hclear : Clear scope ("one".toList ++ rest) := hc.append (by decide)
  rw [Reader.value.eq_def]
  show (member? scope ('N' :: ("one".toList ++ rest))).or _ = _
  rw [hclear.member?_eq_none (by decide)]
  rfl

theorem reads_bool (b : Bool) : Reads [] (.bool b) (Value.boolSource b).toList := by
  cases b with
  | false => exact .of_closed 'F' "alse".toList fun _ _ _ => rfl
  | true => exact .of_closed 'T' "rue".toList fun _ _ _ => rfl

/-! ### Numbers -/

theorem value_number {c : Char} {cs : List Char} {fuel : Nat} (hc : c.isDigit = true ∨ c = '-') :
    value [] (fuel + 1) (c :: cs) = number? (c :: cs) := by
  have hother : ∀ d, d.isDigit = false → d ≠ '-' → c ≠ d := by
    rintro d hd hminus rfl
    obtain h | h := hc
    · rw [hd] at h
      cases h
    · exact hminus h
  have hquote : ¬(c = '\'' ∨ c = '"') := by
    rw [not_or]
    exact ⟨hother _ (by decide) (by decide), hother _ (by decide) (by decide)⟩
  rw [Reader.value, if_neg hquote, if_pos hc]
  · rfl
  · exact hother _ (by decide) (by decide)
  · exact fun _ h => absurd h (hother _ (by decide) (by decide))
  · exact hother _ (by decide) (by decide)

theorem reads_number {v : Value} {text : List Char}
    (hhead : ∃ c ∈ text.head?, c.isDigit = true ∨ c = '-')
    (h : ∀ rest, Ends rest → number? (text ++ rest) = some (v, rest)) : Reads [] v text := by
  obtain ⟨c, hc, hnum⟩ := hhead
  obtain ⟨cs, rfl⟩ := List.head?_eq_some_iff.mp hc
  refine .of_closed _ _ fun fuel rest he => ?_
  rw [value_number hnum]
  exact h rest he

theorem reads_int (i : Int) : Reads [] (.int i) (toString i).toList :=
  reads_number (head_int i) fun _ he => number?_int i he

/-- A finite number has to be the one that its text stands for. -/
theorem reads_double {x : Double} (h : x.isFinite = true → Numeral.toDouble? x.text = some x) :
    Reads [] (Value.double x).plainNan (doubleExpression x).toList := by
  cases x with
  | nan constant =>
    show Reads [] (.double (.nan false)) "float('nan')".toList
    exact .of_closed 'f' "loat('nan')".toList fun _ _ _ => rfl
  | infinite negative =>
    cases negative with
    | false => exact .of_closed 'f' "loat('inf')".toList fun _ _ _ => rfl
    | true => exact .of_closed 'f' "loat('-inf')".toList fun _ _ _ => rfl
  | finite s m e =>
    have hfloating := isFloating_text (x := .finite s m e) rfl
    exact reads_number hfloating.head fun _ he => number?_double (h rfl) hfloating he

/-! ### Texts -/

theorem reads_text (s : String) : Reads [] (.text s) (Text.quoted s).toList := by
  obtain ⟨mark, body, hbody, -, -⟩ := quoted?_quoted s []
  rw [List.append_nil] at hbody
  rw [hbody]
  refine .of_closed _ _ fun fuel rest _ => ?_
  obtain ⟨mark', body', hbody', hmark, hread⟩ := quoted?_quoted s rest
  rw [hbody, List.cons_append] at hbody'
  obtain ⟨rfl, rfl⟩ := List.cons.inj hbody'
  have hother : ∀ d, d ≠ '\'' → d ≠ '"' → mark ≠ d := by
    rintro d h h' rfl
    exact hmark.elim h h'
  rw [Reader.value, if_pos hmark, hread]
  · simp [member?]
  · exact hother _ (by decide) (by decide)
  · exact fun _ h => absurd h (hother _ (by decide) (by decide))
  · exact hother _ (by decide) (by decide)

/-! ### Moments -/

theorem intercalate_concat {α : Type} (sep last : List α) (xs : List (List α)) :
    sep.intercalate (xs ++ [last]) = xs.flatMap (· ++ sep) ++ last := by
  induction xs with
  | nil => simp
  | cons x xs ih =>
    cases xs with
    | nil => simp
    | cons y ys =>
      rw [List.cons_append, List.cons_append, List.intercalate_cons_cons, ← List.cons_append, ih]
      simp

theorem fields?_flatMap (ns : List Nat) (rest : List Char) :
    fields? ns.length (ns.flatMap (fun n => Nat.toDigits 10 n ++ ", ".toList) ++ rest) =
      some (ns, rest) := by
  induction ns with
  | nil => rfl
  | cons n ns ih =>
    have hdigits : ∀ c ∈ Nat.toDigits 10 n, c.isDigit = true := fun c => isDigit_of_mem_toDigits
    have hcomma : ∀ c ∈ (", ".toList ++ (ns.flatMap (fun n => Nat.toDigits 10 n ++ ", ".toList) ++
        rest)).head?, c.isDigit = false := by
      rintro c ⟨⟩
      decide
    obtain ⟨htake, hdrop⟩ := takeWhile_run hdigits hcomma
    rw [List.flatMap_cons, List.append_assoc, List.append_assoc, List.length_cons, fields?, htake,
      hdrop, natural?_toDigits, after?_append]
    simp only [Option.bind_eq_bind, Option.bind_some, ih]

theorem toList_momentExpression (m : Moment) : (momentExpression m).toList =
    "_dt.datetime(".toList ++
      (m.fields.flatMap (fun n => Nat.toDigits 10 n ++ ", ".toList) ++
        "tzinfo=_dt.timezone.utc)".toList) := by
  have hfields : (m.fields.map toString).map String.toList =
      m.fields.map (Nat.toDigits 10) := by
    rw [List.map_map]
    refine List.map_congr_left fun n _ => ?_
    simp
  rw [momentExpression, ← Moment.fields]
  simp only [String.toList_append, String.toList_intercalate, List.map_append, hfields,
    List.map_singleton, intercalate_concat, List.flatMap_map, List.append_assoc]
  rfl

theorem moment?_momentExpression {m : Moment} (h : m.IsUtc) (rest : List Char) :
    moment? ((momentExpression m).toList ++ rest) = some (.moment m, rest) := by
  have hcount : 7 = m.fields.length := rfl
  rw [toList_momentExpression, List.append_assoc, List.append_assoc, moment?, after?_append,
    Option.bind_eq_bind, Option.bind_some, hcount, fields?_flatMap, Option.bind_eq_bind,
    Option.bind_some]
  dsimp only
  rw [after?_append, Option.bind_some, Moment.fields]
  dsimp only
  rw [if_pos h.microsecond, ← h.offset, Moment.ofFields_of_valid h.valid]

theorem reads_moment {m : Moment} (h : m.IsUtc) :
    Reads [] (.moment m) (momentExpression m).toList := by
  have hlead : ∀ cs, "_dt.datetime(".toList ++ cs = '_' :: ("dt.datetime(".toList ++ cs) :=
    fun _ => rfl
  have hread := moment?_momentExpression h
  rw [toList_momentExpression, hlead] at hread ⊢
  refine .of_closed _ _ fun fuel rest _ => ?_
  rw [Reader.value]
  · rw [member?, List.findSome?_nil, Option.none_or]
    exact hread rest
  · rintro _ ⟨⟩

/-! ### Members -/

theorem isNameChar_of_mem_constantName {text : String} {c : Char}
    (h : c ∈ (Naming.constantName text).toList) : isNameChar c = true := by
  rcases Naming.isWordChar_of_mem_constantName h with rfl | hc
  · decide
  · rw [Naming.isWordChar] at hc
    simp [isNameChar, hc]

theorem reads_member {name : String} {literals : List Literal} {t : EnumType} {m : Member}
    (ht : Enumeration.type name literals = .ok t) (hm : m ∈ t.members) :
    Reads [t] (.member m) (t.name ++ "." ++ m.name).toList := by
  have hnamed := Enumeration.named_of_type ht
  have hchars : ∀ c ∈ m.name.toList, isNameChar c = true := by
    intro c hc
    rw [hnamed.name m hm] at hc
    exact isNameChar_of_mem_constantName hc
  refine ⟨by simp, fun fuel rest hf he _ => ?_, fun rest _ => ?_⟩
  · obtain ⟨fuel, rfl⟩ : ∃ n, fuel = n + 1 := ⟨fuel - 1, by simp at hf; omega⟩
    have hend : ∀ c ∈ rest.head?, isNameChar c = false := by
      intro c hc
      obtain rfl | rfl := he c hc <;> decide
    obtain ⟨htake, hdrop⟩ := takeWhile_run hchars hend
    have hmember : member? [t] ((t.name ++ "." ++ m.name).toList ++ rest) =
        some (.member m, rest) := by
      rw [String.toList_append, List.append_assoc, member?, List.findSome?_cons, after?_append]
      simp [htake, hdrop, Tables.find?_of_mem hnamed.nodup hm]
    -- the name of the type comes first, whatever other form it may look like
    rw [Reader.value.eq_def]
    dsimp only
    rw [hmember]
    rfl
  · have hsplit : (t.name ++ "." ++ m.name).toList ++ rest =
        t.name.toList ++ '.' :: (m.name.toList ++ rest) := by simp
    rw [hsplit]
    exact clear_name t _

end SchemaModel.Emission.Reader
