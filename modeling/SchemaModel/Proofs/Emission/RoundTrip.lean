import SchemaModel.Proofs.Emission.Forms
import SchemaModel.Proofs.OrderedSet.Distinct
import SchemaModel.Proofs.Synthesis.Fits

/-!
Defaults read back. The expression of a default denotes the default, with its nesting and the order
of its lists and sets; only a not-a-number is another one than it was.
-/
namespace SchemaModel

namespace Emission.Reader

variable {scope : List EnumType} {vs : List Value} {ts : List (List Char)}

/-! ## Items -/

/-- The items behind the first one, each with a comma before it. -/
def followers (ts : List (List Char)) : List Char := ts.flatMap fun t => ", ".toList ++ t

theorem intercalate_cons (t : List Char) (ts : List (List Char)) :
    ", ".toList.intercalate (t :: ts) = t ++ followers ts := by
  induction ts generalizing t with
  | nil => simp [followers]
  | cons u us ih =>
    rw [List.intercalate_cons_cons, ih, followers, followers, List.flatMap_cons]
    simp only [List.append_assoc]

theorem ends_followers (ts : List (List Char)) (rest : List Char) :
    Ends (followers ts ++ ']' :: rest) := by
  cases ts with
  | nil => exact ends_bracket rest
  | cons t ts => exact ends_comma _

theorem clear_followers (h : List.Forall₂ (Reads scope) vs ts) {rest : List Char}
    (hc : Clear scope rest) : Clear scope (followers ts ++ ']' :: rest) := by
  induction h with
  | nil => exact hc.cons (by decide)
  | cons hr _ ih =>
    rw [followers, List.flatMap_cons, ← followers, List.append_assoc, List.append_assoc]
    exact (hr.clear _ ih).append (by decide)

theorem clear_intercalate (h : List.Forall₂ (Reads scope) vs ts) {rest : List Char}
    (hc : Clear scope rest) : Clear scope (", ".toList.intercalate ts ++ ']' :: rest) := by
  cases h with
  | nil => exact hc.cons (by decide)
  | cons hr hrs =>
    rw [intercalate_cons, List.append_assoc]
    exact hr.clear _ (clear_followers hrs hc)

theorem more_followers (h : List.Forall₂ (Reads scope) vs ts) {fuel : Nat} {rest : List Char}
    (hf : (followers ts).length < fuel) (hc : Clear scope rest) :
    more scope fuel (followers ts ++ ']' :: rest) = some (vs, rest) := by
  induction h generalizing fuel with
  | nil =>
    cases fuel with
    | zero => cases hf
    | succ fuel => rfl
  | @cons v t vs ts hr hrs ih =>
    cases fuel with
    | zero => cases hf
    | succ fuel =>
      have hlen : (followers (t :: ts)).length = 2 + t.length + (followers ts).length := by
        simp [followers]
        omega
      have hpos := hr.length_pos
      have hsplit : followers (t :: ts) ++ ']' :: rest =
          ',' :: ' ' :: (t ++ (followers ts ++ ']' :: rest)) := by simp [followers]
      -- the comma costs the fuel of one step, which the item and those behind it do not need
      have hvalue := hr.value fuel _ (by omega) (ends_followers ts rest) (clear_followers hrs hc)
      have hmore : more scope fuel (followers ts ++ ']' :: rest) = some (vs, rest) :=
        ih (by omega)
      rw [hsplit, more, hvalue, Option.bind_eq_bind, Option.bind_some]
      dsimp only
      rw [hmore, Option.bind_eq_bind, Option.bind_some]

/-- A closing bracket is no expression. -/
theorem value_bracket {rest : List Char} (hc : Clear scope rest) (fuel : Nat) :
    value scope fuel (']' :: rest) = none := by
  cases fuel with
  | zero => rfl
  | succ fuel =>
    rw [value.eq_def]
    dsimp only
    rw [hc.member?_eq_none (by decide)]
    rfl

theorem items_intercalate (h : List.Forall₂ (Reads scope) vs ts) {fuel : Nat} {rest : List Char}
    (hf : (", ".toList.intercalate ts).length < fuel) (hc : Clear scope rest) :
    items scope fuel (", ".toList.intercalate ts ++ ']' :: rest) = some (vs, rest) := by
  cases fuel with
  | zero => cases hf
  | succ fuel =>
    rw [items.eq_def]
    cases h with
    | nil =>
      -- no expression begins here, so the bracket closes an empty list
      dsimp only
      rw [List.intercalate_nil, List.nil_append, value_bracket hc]
      rfl
    | @cons v t vs ts hr hrs =>
      rw [intercalate_cons, List.length_append] at hf
      have hpos := hr.length_pos
      have hvalue := hr.value fuel _ (by omega) (ends_followers ts rest) (clear_followers hrs hc)
      have hmore : more scope fuel (followers ts ++ ']' :: rest) = some (vs, rest) :=
        more_followers hrs (by omega) hc
      dsimp only
      rw [intercalate_cons, List.append_assoc, hvalue]
      dsimp only
      rw [hmore, Option.map_some]

/-! ## Collections -/

theorem reads_list (h : List.Forall₂ (Reads scope) vs ts) :
    Reads scope (.list vs) ('[' :: (", ".toList.intercalate ts ++ [']'])) := by
  have hsplit : ∀ rest, '[' :: (", ".toList.intercalate ts ++ [']']) ++ rest =
      '[' :: (", ".toList.intercalate ts ++ ']' :: rest) := by simp
  refine ⟨by simp, fun fuel rest hf _ hc => ?_, fun rest hc => ?_⟩
  · simp only [List.length_cons, List.length_append, List.length_nil] at hf
    obtain ⟨fuel, rfl⟩ : ∃ n, fuel = n + 1 := ⟨fuel - 1, by omega⟩
    rw [hsplit, value, (clear_intercalate h hc).member?_eq_none (by decide), Option.none_or,
      items_intercalate h (by omega) hc]
    rfl
  · rw [hsplit]
    exact (clear_intercalate h hc).cons (by decide)

/-- The elements that are read come to the set in their order, and none is refused. -/
theorem reads_set (h : List.Forall₂ (Reads scope) vs ts) (hd : OrderedSet.Distinct vs) :
    Reads scope (.set vs)
      ("_OrderedSet([".toList ++ (", ".toList.intercalate ts ++ "])".toList)) := by
  have hsplit : ∀ rest,
      "_OrderedSet([".toList ++ (", ".toList.intercalate ts ++ "])".toList) ++ rest =
        "_OrderedSet([".toList ++ (", ".toList.intercalate ts ++ ']' :: (")".toList ++ rest)) := by
    simp
  have hclose : ∀ rest, Clear scope rest →
      Clear scope (", ".toList.intercalate ts ++ ']' :: (")".toList ++ rest)) :=
    fun rest hc => clear_intercalate h (hc.append (by decide))
  refine ⟨by simp, fun fuel rest hf _ hc => ?_, fun rest hc => ?_⟩
  · -- the reader looks at two characters before it takes the whole beginning off
    have hlead : ∀ cs, "_OrderedSet([".toList ++ cs = '_' :: 'O' :: ("rderedSet([".toList ++ cs) :=
      fun _ => rfl
    have hclear : Clear scope ('O' :: ("rderedSet([".toList ++
        (", ".toList.intercalate ts ++ ']' :: (")".toList ++ rest)))) :=
      ((hclose rest hc).append (by decide)).cons (by decide)
    have hlen : "_OrderedSet([".toList.length = 13 := rfl
    rw [List.length_append, List.length_append, hlen] at hf
    obtain ⟨fuel, rfl⟩ : ∃ n, fuel = n + 1 := ⟨fuel - 1, by omega⟩
    rw [hsplit, hlead, value, hclear.member?_eq_none (by decide), Option.none_or, ← hlead,
      after?_append, Option.bind_eq_bind, Option.bind_some,
      items_intercalate h (by omega) (hc.append (by decide)), Option.bind_eq_bind, Option.bind_some]
    dsimp only
    rw [after?_append, Option.bind_some, OrderedSet.toValue,
      OrderedSet.order_ofList_of_distinct hd]
  · rw [hsplit]
    exact (hclose rest hc).append (by decide)

end Emission.Reader

/-! ## Defaults -/

/-- Every finite floating number of the value is the one that its text stands for. -/
def Value.DoublesReadBack (v : Value) : Prop :=
  ∀ x ∈ v.doubles, x.isFinite = true → Numeral.toDouble? x.text = some x

theorem OrderedSet.Distinct.map_plainNan {xs : List Value} (h : Distinct xs) :
    Distinct (xs.map Value.plainNan) := by
  rw [Distinct, List.pairwise_map]
  refine h.imp fun {x y} hxy hclash => hxy ⟨?_, Value.same_of_plainNan y x hclash.2⟩
  rw [← Value.isFixed_plainNan x, ← Value.isFixed_plainNan y]
  exact hclash.1

namespace Emission

open Reader

theorem expressions_ok {scope : List EnumType} {element : TargetType} {xs : List Value}
    (h : ∀ x ∈ xs, ∃ text, expression element x = .ok text ∧ Reads scope x.plainNan text.toList) :
    ∃ texts, expressions element xs = .ok texts ∧
      List.Forall₂ (Reads scope) (xs.map Value.plainNan) (texts.map String.toList) := by
  induction xs with
  | nil => exact ⟨[], rfl, .nil⟩
  | cons x xs ih =>
    obtain ⟨text, hx, hread⟩ := h x List.mem_cons_self
    obtain ⟨texts, hxs, hreads⟩ := ih fun y hy => h y (List.mem_cons_of_mem _ hy)
    refine ⟨text :: texts, ?_, .cons hread hreads⟩
    rw [expressions, hx, hxs]
    rfl

/-- A value that belongs to its type has an expression under it, which reads back. -/
theorem reads_expression {T : TargetType} {v : Value}
    (hT : ∀ t ∈ T.enums, ∃ name literals, Enumeration.type name literals = .ok t)
    (h : Fits T v) (hd : v.DoublesReadBack) :
    ∃ text, expression T v = .ok text ∧ Reads T.enums v.plainNan text.toList := by
  induction h with
  | null => exact ⟨_, rfl, reads_null⟩
  | text => exact ⟨_, rfl, reads_text _⟩
  | integer hi | long hi | millis hi => exact ⟨_, expression_int _ hi, reads_int _⟩
  | double => exact ⟨_, rfl, reads_double (hd _ (by simp [Value.doubles]))⟩
  | boolean => exact ⟨_, rfl, reads_bool _⟩
  | @moment _ _ m hm =>
    obtain ⟨micros, hm⟩ := hm
    have hutc := Moment.isUtc_of_ofClockMicros? hm
    refine ⟨momentExpression m, ?_, reads_moment hutc⟩
    rw [expression, hutc.offset]
    dsimp only
    rw [Moment.toUtc?_of_ofClockMicros? hm]
  | @member t m hm =>
    obtain ⟨name, literals, ht⟩ := hT t (by simp [TargetType.enums])
    exact ⟨_, rfl, reads_member ht hm⟩
  | @list e xs _ ih =>
    obtain ⟨texts, hok, hreads⟩ := expressions_ok fun x hx =>
      ih x hx hT fun y hy => hd y (Value.mem_doublesAll hx hy)
    refine ⟨"[" ++ ", ".intercalate texts ++ "]", ?_, ?_⟩
    · rw [expression, hok]
      rfl
    · have htext : ("[" ++ ", ".intercalate texts ++ "]").toList =
          '[' :: (", ".toList.intercalate (texts.map String.toList) ++ [']']) := by
        simp [String.toList_intercalate]
      rw [htext, Value.plainNan, Value.plainNanAll_eq_map]
      exact reads_list hreads
  | @set e xs _ hdistinct ih =>
    obtain ⟨texts, hok, hreads⟩ := expressions_ok fun x hx =>
      ih x hx hT fun y hy => hd y (Value.mem_doublesAll hx hy)
    refine ⟨"_OrderedSet([" ++ ", ".intercalate texts ++ "])", ?_, ?_⟩
    · rw [expression, hok]
      rfl
    · have htext : ("_OrderedSet([" ++ ", ".intercalate texts ++ "])").toList =
          "_OrderedSet([".toList ++ (", ".toList.intercalate (texts.map String.toList) ++
            "])".toList) := by
        simp only [String.toList_append, String.toList_intercalate, List.append_assoc]
      rw [htext, Value.plainNan, Value.plainNanAll_eq_map]
      exact reads_set hreads hdistinct.map_plainNan

/-- The expression of a default denotes the default: the same value, with its nesting and the order
of its lists and sets, and a not-a-number for a not-a-number. -/
theorem read?_expression {property : String} {T : TargetType} {l : Option Literal} {v : Value}
    (hT : ∀ t ∈ T.enums, ∃ name literals, Enumeration.type name literals = .ok t)
    (h : synthesize property T l = .ok v) (hd : v.DoublesReadBack) :
    ∃ text, expression T v = .ok text ∧ read? T.enums text = some v.plainNan := by
  obtain ⟨text, hok, hreads⟩ := reads_expression hT (Fits.of_synthesize property T l v h) hd
  refine ⟨text, hok, ?_⟩
  have hvalue := hreads.value text.toList.length [] (Nat.le_refl _) ends_nil clear_nil
  rw [List.append_nil] at hvalue
  rw [read?, hvalue]

/-- Two colors, of which one has a name that is not its text. -/
def color : EnumType := ⟨"Color", [⟨"LIGHT_RED", 0, "light red"⟩, ⟨"BLUE", 1, "blue"⟩]⟩

/-- A list of sets: a number that is declared twice stands once, and a missing set is empty. -/
def weights : Value :=
  .list [.set [.double (.finite true 4503599627370496 (-53)), .double (.nan false), .null], .set []]

theorem read?_expression_collections :
    (∃ text, expression (.list (.set (.scalar .double))) weights = .ok text ∧
      read? [] text = some weights.plainNan) ∧
    ∃ text, expression (.set (.enum color)) (.set [.member ⟨"LIGHT_RED", 0, "light red"⟩, .null]) =
        .ok text ∧
      read? [color] text = some (.set [.member ⟨"LIGHT_RED", 0, "light red"⟩, .null]) := by
  have hweights : synthesize "weights" (.list (.set (.scalar .double))) (some (.sequence
      [.uniqueSequence [.text "-0.5", .text "nan", .null,
        .decimal (.finite true 4503599627370496 (-53))], .null])) = .ok weights := by
    with_unfolding_all rfl
  have hdoubles : weights.DoublesReadBack := by
    unfold Value.DoublesReadBack
    decide +kernel
  have hcolors : synthesize "colors" (.set (.enum color)) (some (.sequence
      [.text "light red", .null, .text "light red"])) =
        .ok (.set [.member ⟨"LIGHT_RED", 0, "light red"⟩, .null]) := by with_unfolding_all rfl
  have hcolor : Enumeration.type "Color" [.text "light red", .text "blue"] = .ok color := by rfl
  refine ⟨read?_expression (by simp [TargetType.enums]) hweights hdoubles,
    read?_expression ?_ hcolors (by simp [Value.DoublesReadBack, Value.doubles, Value.doublesAll])⟩
  intro t ht
  rw [TargetType.enums, TargetType.enums, List.mem_singleton] at ht
  exact ⟨_, _, ht ▸ hcolor⟩

end Emission
end SchemaModel
