import Mathlib.Data.List.TakeWhile
import SchemaModel.Proofs.Calendar.Epoch
import SchemaModel.Proofs.Number.Digits
import SchemaModel.Proofs.Synthesis.Escapes

/-!
Integers declared as texts. Blanks around a numeral are trimmed, the numeral reads back as the
integer that it spells, and from there on a type that counts takes no notice of how the integer was
declared (`numeral_as_integer`).
-/
namespace SchemaModel

/-! ## Blanks around a text -/

namespace Text

variable {before middle after : List Char}

theorem dropWhile_of_not_blank (h : ∀ c ∈ middle, isBlank c = false) :
    middle.dropWhile isBlank = middle := by
  cases middle with
  | nil => rfl
  | cons c cs => rw [List.dropWhile_cons_of_neg (by simp [h c List.mem_cons_self])]

theorem trimBlanks_surrounded (hbefore : ∀ c ∈ before, isBlank c = true)
    (hmiddle : ∀ c ∈ middle, isBlank c = false) (hafter : ∀ c ∈ after, isBlank c = true) :
    trimBlanks (before ++ middle ++ after) = middle := by
  have hreverse : ∀ c ∈ after.reverse, isBlank c = true := by simpa using hafter
  have hfront : (before ++ middle ++ after).dropWhile isBlank = middle ++ after ∨
      middle = [] ∧ (before ++ middle ++ after).dropWhile isBlank = [] := by
    rw [List.append_assoc, List.dropWhile_append_of_pos hbefore]
    cases middle with
    | nil => exact .inr ⟨rfl, List.dropWhile_eq_nil_iff.mpr hafter⟩
    | cons c cs =>
      have hc : ¬ isBlank c = true := by simp [hmiddle c List.mem_cons_self]
      exact .inl (List.dropWhile_cons_of_neg hc)
  rw [trimBlanks]
  rcases hfront with hfront | ⟨rfl, hfront⟩
  · rw [hfront, List.reverse_append, List.dropWhile_append_of_pos hreverse,
      dropWhile_of_not_blank (by simpa using hmiddle), List.reverse_reverse]
  · rw [hfront]
    rfl

theorem isBlank_of_isDigit {c : Char} (h : c.isDigit = true) : isBlank c = false := by
  have hrange := toNat_of_isDigit h
  simp [isBlank, inRanges, blankRanges]
  omega

theorem isBlank_of_mem_int {n : Int} {c : Char} (h : c ∈ (toString n).toList) :
    isBlank c = false := by
  rcases toList_int n with ⟨-, hs⟩ | ⟨-, hs⟩
  · rw [hs] at h
    exact isBlank_of_isDigit (isDigit_of_mem_toDigits h)
  · rw [hs] at h
    rcases List.mem_cons.mp h with rfl | h
    · decide
    · exact isBlank_of_isDigit (isDigit_of_mem_toDigits h)

end Text

/-! ## Numerals -/

namespace Numeral

theorem natOfDigits_toDigits (n : Nat) : natOfDigits (Nat.toDigits 10 n) = n := by
  rw [natOfDigits_eq, Nat.ofDigitChars_ten_toDigits]

/-- An integer is spelled with a minus if it is negative, and with the digits of its size. -/
theorem splitSign_toString (n : Int) :
    splitSign (toString n).toList = (decide (n < 0), Nat.toDigits 10 n.natAbs) := by
  rcases toList_int n with ⟨hn, hs⟩ | ⟨hn, hs⟩
  · have habs : n.toNat = n.natAbs := by omega
    rw [hs, splitSign_of_isDigit fun _ => isDigit_of_mem_toDigits, habs,
      decide_eq_false (Int.not_lt.mpr hn)]
  · have habs : (-n).toNat = n.natAbs := by omega
    rw [hs, splitSign, habs, decide_eq_true hn]

/-- An integer is read from its own spelling. -/
theorem intOfChars?_toString (n : Int) : intOfChars? 10 (toString n).toList = some n := by
  have hread := digitsFrom?_of_isDigit Nat.toDigits_ne_nil
    (fun _ => isDigit_of_mem_toDigits (n := n.natAbs)) 0
  rw [intOfChars?, splitSign_toString]
  dsimp only
  rw [dropBaseMark_ten, hread, ← natOfDigits, natOfDigits_toDigits]
  simp only [Option.bind_eq_bind, Option.bind_some, Option.pure_def, Option.map_some]
  by_cases hn : n < 0
  · have hneg : -(n.natAbs : Int) = n := by omega
    rw [decide_eq_true hn, if_pos rfl, hneg]
  · have hpos : (n.natAbs : Int) = n := by omega
    rw [decide_eq_false hn, if_neg Bool.false_ne_true, hpos]

/-- A surrounded integer is read, unless it has too many digits. -/
theorem toInt?_surrounded {before after : String} (n : Int)
    (hbefore : ∀ c ∈ before.toList, Text.isBlank c = true)
    (hafter : ∀ c ∈ after.toList, Text.isBlank c = true) :
    toInt? 10 (before ++ toString n ++ after) = if isLong n then none else some n := by
  have htrim : Text.trimBlanks (before ++ toString n ++ after).toList = (toString n).toList := by
    rw [String.toList_append, String.toList_append,
      Text.trimBlanks_surrounded hbefore (fun _ => Text.isBlank_of_mem_int) hafter]
  have hexcess : excessIn? 10 (before ++ toString n ++ after) =
      if isLong n then some (Nat.toDigits 10 n.natAbs).length else none := by
    rw [excessIn?, if_pos rfl, htrim, splitSign_toString,
      excess?_of_isDigit Nat.toDigits_ne_nil fun _ => isDigit_of_mem_toDigits]
    simp only [isLong, decide_eq_true_eq]
  rw [toInt?, hexcess, htrim, intOfChars?_toString]
  cases isLong n <;> rfl

end Numeral

/-! ## Types that count -/

/-- The least and the greatest integer from which a type that counts has a value: those of 32 or 64
bits, or the milliseconds of the years 1 to 9999. -/
def TargetType.limits? : TargetType → Option (Int × Int)
  | .scalar .integer => some (-2147483648, 2147483647)
  | .scalar .long | .date .epochMillisAsLong _ =>
    some (-9223372036854775808, 9223372036854775807)
  | .date .epochMillis _ => some (-62135596800000, 253402300799999)
  | _ => none

open Fallible

theorem Literal.toSigned_of_toInt {l l' : Literal} (h : l.toInt = l'.toInt) (bits : Nat) :
    l.toSigned bits = l'.toSigned bits := by
  rw [toSigned, toSigned, h]

theorem Literal.exists_toSigned (bits : Nat) (n : Int) :
    (∃ i, (Literal.int n).toSigned bits = .ok i) ↔
      (signedBounds bits).1 ≤ n ∧ n ≤ (signedBounds bits).2 := by
  simp only [toSigned_eq_ok]
  constructor
  · rintro ⟨i, ⟨⟩, hi⟩
    exact hi
  · intro hn
    exact ⟨n, rfl, hn⟩

namespace Synthesis

variable {t : TargetType} {low high : Int}

/-- The outcome of converting an integer to a moment. -/
def momentOf (n : Int) : Except ConversionFault Value :=
  ((Literal.int n).toSigned 64).bind fun millis =>
    ((Moment.ofEpochMillis millis).mapError .date).map .moment

theorem exists_momentOf (n : Int) :
    (∃ v, momentOf n = .ok v) ↔ -62135596800000 ≤ n ∧ n ≤ 253402300799999 := by
  have hbounds : Literal.signedBounds 64 = (-9223372036854775808, 9223372036854775807) := rfl
  constructor
  · rintro ⟨v, hv⟩
    obtain ⟨millis, hmillis, hm⟩ := bind_eq_ok.mp hv
    obtain ⟨m, hm, -⟩ := map_eq_ok.mp hm
    cases (Literal.toSigned_eq_ok.mp hmillis).1
    exact Moment.exists_ofEpochMillis.mp ⟨m, mapError_eq_ok.mp hm⟩
  · intro hn
    obtain ⟨m, hm⟩ := Moment.exists_ofEpochMillis.mpr hn
    have hfits : (Literal.int n).toSigned 64 = .ok n := by
      refine Literal.toSigned_eq_ok.mpr ⟨rfl, ?_⟩
      rw [hbounds]
      dsimp only
      omega
    refine ⟨.moment m, bind_eq_ok.mpr ⟨n, hfits, ?_⟩⟩
    rw [hm]
    rfl

/-- All literals that stand for one integer are converted alike by a type that counts, and its
limits decide whether there is a value. -/
theorem exists_conversion (hlimits : t.limits? = some (low, high)) (property : String) (n : Int) :
    ∃ r : Except ConversionFault Value,
      (∀ l : Literal, l.toInt = .ok n → synthesize property t (some l) = lift property t l r) ∧
      ((∃ v, r = .ok v) ↔ low ≤ n ∧ n ≤ high) := by
  have hdeclared : ∀ l : Literal, l.toInt = .ok n → l ≠ .null := by
    rintro _ hl rfl
    cases hl
  have hsigned : ∀ l : Literal, l.toInt = .ok n → ∀ bits,
      l.toSigned bits = (Literal.int n).toSigned bits :=
    fun l hl => Literal.toSigned_of_toInt hl
  have hinteger : ∀ bits, (∃ v, ((Literal.int n).toSigned bits).map Value.int = .ok v) ↔
      (Literal.signedBounds bits).1 ≤ n ∧ n ≤ (Literal.signedBounds bits).2 := by
    intro bits
    rw [← Literal.exists_toSigned]
    simp [map_eq_ok]
  cases t with
  | scalar kind =>
    cases kind with
    | integer =>
      cases hlimits
      refine ⟨((Literal.int n).toSigned 32).map .int, fun l hl => ?_, hinteger 32⟩
      rw [synthesize_scalar (hdeclared l hl), Literal.toScalar, hsigned l hl]
    | long =>
      cases hlimits
      refine ⟨((Literal.int n).toSigned 64).map .int, fun l hl => ?_, hinteger 64⟩
      rw [synthesize_scalar (hdeclared l hl), Literal.toScalar, hsigned l hl]
    | _ => cases hlimits
  | date kind format =>
    cases kind with
    | epochMillisAsLong =>
      cases hlimits
      refine ⟨((Literal.int n).toSigned 64).map .int, fun l hl => ?_, hinteger 64⟩
      rw [synthesize_date (hdeclared l hl), date, hsigned l hl]
      cases (Literal.int n).toSigned 64 <;> rfl
    | epochMillis =>
      cases hlimits
      refine ⟨momentOf n, fun l hl => ?_, exists_momentOf n⟩
      rw [synthesize_date (hdeclared l hl), date, hsigned l hl, momentOf]
      cases (Literal.int n).toSigned 64 with
      | error cause => rfl
      | ok millis =>
        show Except.bind (lift property _ l ((Moment.ofEpochMillis millis).mapError .date)) _ =
          lift property _ l (((Moment.ofEpochMillis millis).mapError .date).map Value.moment)
        cases Moment.ofEpochMillis millis <;> rfl
    | formatted => cases hlimits
  | _ => cases hlimits

theorem single_of_limits (hlimits : t.limits? = some (low, high)) :
    t.element? = none ∧ t.isReference = false := by
  cases t with
  | scalar | date => exact ⟨rfl, rfl⟩
  | _ => cases hlimits

/-- What stands for no integer is no value of a type that counts. -/
theorem synthesize_of_toInt (hlimits : t.limits? = some (low, high)) (property : String)
    {l : Literal} {cause : ConversionFault} (hl : l ≠ .null) (h : l.toInt = .error cause) :
    synthesize property t (some l) = .error (unfit property t l cause) := by
  have hsigned : ∀ bits, l.toSigned bits = .error cause := fun bits => bind_eq_error.mpr (.inl h)
  cases t with
  | scalar kind =>
    rw [synthesize_scalar hl]
    cases kind with
    | integer | long =>
      rw [Literal.toScalar, hsigned]
      rfl
    | _ => cases hlimits
  | date kind format =>
    rw [synthesize_date hl]
    cases kind with
    | epochMillisAsLong | epochMillis =>
      rw [date, hsigned]
      rfl
    | formatted => cases hlimits
  | _ => cases hlimits

/-- No type that counts has an integer with too many digits within its limits. -/
theorem isLong_of_limits {n : Int} (hlimits : t.limits? = some (low, high)) (hlow : low ≤ n)
    (hhigh : n ≤ high) : Numeral.isLong n = false := by
  have hcount : 20 ≤ Numeral.maxDigits := by decide
  refine Numeral.isLong_eq_false hcount ?_
  cases t with
  | scalar kind => cases kind <;> cases hlimits <;> omega
  | date kind => cases kind <;> cases hlimits <;> omega
  | _ => cases hlimits

/-- A text that spells an integer, with or without blanks around it, is the same default as the
integer itself: within the limits of a type that counts both have one value, and beyond them both
are refused for one reason. Only where the integer has too many digits to be read or written, the
text alone is refused, and the error about the integer cannot show it. -/
theorem numeral_as_integer (hlimits : t.limits? = some (low, high)) (property : String) (n : Int)
    {before after : String} (hbefore : ∀ c ∈ before.toList, Text.isBlank c = true)
    (hafter : ∀ c ∈ after.toList, Text.isBlank c = true) :
    (low ≤ n ∧ n ≤ high ∧ ∃ v,
      synthesize property t (some (.text (before ++ toString n ++ after))) = .ok v ∧
      synthesize property t (some (.int n)) = .ok v) ∨
    (¬ (low ≤ n ∧ n ≤ high) ∧ Numeral.isLong n = false ∧ ∃ e e' : ConversionError,
      synthesize property t (some (.text (before ++ toString n ++ after))) =
        .error (.conversion e) ∧
      synthesize property t (some (.int n)) = .error (.conversion e') ∧ e.reason = e'.reason) ∨
    (¬ (low ≤ n ∧ n ≤ high) ∧ Numeral.isLong n = true ∧ ∃ e : ConversionError,
      synthesize property t (some (.text (before ++ toString n ++ after))) =
        .error (.conversion e) ∧
      synthesize property t (some (.int n)) = .error .digits) := by
  cases hlong : Numeral.isLong n with
  | false =>
    obtain ⟨r, hr, hvalue⟩ := exists_conversion hlimits property n
    have htext : (Literal.text (before ++ toString n ++ after)).toInt = .ok n := by
      rw [Literal.toInt, Numeral.toInt?_surrounded n hbefore hafter, hlong]
      rfl
    have hshort : (Literal.int n).hasLong = false := by rw [Literal.hasLong_int, hlong]
    rw [hr _ htext, hr (.int n) rfl]
    cases r with
    | ok v =>
      obtain ⟨hlow, hhigh⟩ := hvalue.mp ⟨v, rfl⟩
      exact .inl ⟨hlow, hhigh, v, rfl, rfl⟩
    | error cause =>
      refine .inr (.inl ⟨fun hn => ?_, rfl, _, _, rfl,
        congrArg Except.error (unfit_of_not_hasLong property t cause hshort), rfl⟩)
      obtain ⟨v, ⟨⟩⟩ := hvalue.mpr hn
  | true =>
    have htext : (Literal.text (before ++ toString n ++ after)).toInt =
        .error (.integerText (Text.trim (before ++ toString n ++ after))) := by
      rw [Literal.toInt, Numeral.toInt?_surrounded n hbefore hafter, hlong]
      rfl
    have hint : (Literal.int n).hasLong = true := by rw [Literal.hasLong_int, hlong]
    obtain ⟨helement, hreference⟩ := single_of_limits hlimits
    have hout : ¬ (low ≤ n ∧ n ≤ high) := by
      rintro ⟨hlow, hhigh⟩
      rw [isLong_of_limits hlimits hlow hhigh] at hlong
      cases hlong
    exact .inr (.inr ⟨hout, rfl, _, synthesize_of_toInt hlimits property nofun htext,
      synthesize_of_hasLong property helement hreference hint⟩)

/-- The least integer of 32 bits between wide blanks, and the first millisecond behind the calendar
between an ideographic space, a tab and a next line. -/
theorem numeral_as_integer_limits :
    ((∀ c ∈ "\u2003".toList, Text.isBlank c = true) ∧ ∃ v,
      synthesize "size" (.scalar .integer)
        (some (.text ("\u2003" ++ toString (-2147483648 : Int) ++ "\u2003"))) = .ok v ∧
      synthesize "size" (.scalar .integer) (some (.int (-2147483648))) = .ok v) ∧
    (∀ c ∈ "\u3000\t".toList, Text.isBlank c = true) ∧
    (∀ c ∈ "\u0085".toList, Text.isBlank c = true) ∧ ∃ e e' : ConversionError,
      synthesize "since" (.date .epochMillis none)
        (some (.text ("\u3000\t" ++ toString (253402300800000 : Int) ++ "\u0085"))) =
          .error (.conversion e) ∧
      synthesize "since" (.date .epochMillis none) (some (.int 253402300800000)) =
        .error (.conversion e') ∧ e.reason = e'.reason := by
  have hinteger : TargetType.limits? (.scalar .integer) = some (-2147483648, 2147483647) := rfl
  have hdate : TargetType.limits? (.date .epochMillis none) =
      some (-62135596800000, 253402300799999) := rfl
  have hwide : ∀ c ∈ "\u2003".toList, Text.isBlank c = true :=
    List.all_eq_true.mp (by decide)
  have hfront : ∀ c ∈ "\u3000\t".toList, Text.isBlank c = true :=
    List.all_eq_true.mp (by decide)
  have hback : ∀ c ∈ "\u0085".toList, Text.isBlank c = true :=
    List.all_eq_true.mp (by decide)
  refine ⟨⟨hwide, ?_⟩, hfront, hback, ?_⟩
  · obtain h | ⟨hout, -⟩ | ⟨hout, -⟩ :=
      numeral_as_integer hinteger "size" (-2147483648) hwide hwide
    · exact h.2.2
    · exact absurd ⟨by decide, by decide⟩ hout
    · exact absurd ⟨by decide, by decide⟩ hout
  · have hshort : Numeral.isLong 253402300800000 = false := by decide +kernel
    obtain ⟨-, hhigh, -⟩ | h | ⟨-, hlong, -⟩ :=
      numeral_as_integer hdate "since" 253402300800000 hfront hback
    · exact absurd hhigh (by decide)
    · exact h.2.2
    · exact absurd (hshort.symm.trans hlong) Bool.false_ne_true

end Synthesis
end SchemaModel
