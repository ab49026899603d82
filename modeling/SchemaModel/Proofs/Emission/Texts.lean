import Mathlib.Algebra.Group.Nat.Defs
import SchemaModel.Proofs.Emission.Numerals

/-!
Quoted texts read back, whatever characters they hold: every character between the marks is written
so that it is read as itself.
-/
namespace SchemaModel.Emission.Reader

/-! ## Code points -/

theorem digits?_hexPadded (width n : Nat) : digits? 16 (Text.hexPadded width n) = some n := by
  rw [Text.hexPadded, digits?_replicate 16 (.inr rfl), digits?_toDigits 16 (.inr rfl)]

theorem length_hexPadded {width n : Nat} (hw : 0 < width) (h : n < 16 ^ width) :
    (Text.hexPadded width n).length = width := by
  have := (Nat.length_toDigits_le_iff (by decide) hw).mpr h
  simp only [Text.hexPadded, List.length_append, List.length_replicate]
  omega

theorem codePoint?_hexPadded {width : Nat} (c : Char) (hw : 0 < width) (h : c.toNat < 16 ^ width)
    (rest : List Char) :
    codePoint? width (Text.hexPadded width c.toNat ++ rest) = some (c, rest) := by
  have hlen := length_hexPadded hw h
  have hvalid : c.toNat.isValidChar := c.valid
  have htake : (Text.hexPadded width c.toNat ++ rest).take width = Text.hexPadded width c.toNat :=
    List.take_left' hlen
  have hdrop : (Text.hexPadded width c.toNat ++ rest).drop width = rest := List.drop_left' hlen
  simp [codePoint?, htake, hdrop, digits?_hexPadded, hlen, hvalid, Char.ofNat_toNat]

/-- A code point is escaped in as few digits as it needs. -/
theorem escape?_codePoint (c : Char) (rest : List Char) : ∃ cs,
    Text.codePointEscape c.toNat ++ rest = '\\' :: cs ∧ escape? cs = some (c, rest) := by
  -- eight digits hold every code point
  have hmax : c.toNat < 16 ^ 8 := by
    have hv : c.toNat < 0x110000 := by
      obtain hv | hv := c.valid
      · exact Nat.lt_trans hv (by decide)
      · exact hv.2
    omega
  unfold Text.codePointEscape
  split
  · exact ⟨_, rfl, codePoint?_hexPadded c (by decide) (by omega) rest⟩
  · split
    · exact ⟨_, rfl, codePoint?_hexPadded c (by decide) (by omega) rest⟩
    · exact ⟨_, rfl, codePoint?_hexPadded c (by decide) hmax rest⟩

/-! ## Texts -/

/-- One character is read as itself. -/
theorem quoted?_char {mark : Char} (hm : mark = '\'' ∨ mark = '"') (c : Char) (fuel : Nat)
    (cs : List Char) : quoted? mark (fuel + 1) (Text.quotedChar mark c ++ cs) =
      (quoted? mark fuel cs).map fun p => (c :: p.1, p.2) := by
  have hslash : mark ≠ '\\' := by obtain rfl | rfl := hm <;> decide
  have hescaped : ∀ e, escape? e = some (c, cs) →
      quoted? mark (fuel + 1) ('\\' :: e) =
        (quoted? mark fuel cs).map fun p => (c :: p.1, p.2) := by
    intro e he
    rw [quoted?, if_neg (Ne.symm hslash), if_neg (by decide), if_pos rfl, he]
    simp only [Option.bind_eq_bind, Option.bind_some]
    cases quoted? mark fuel cs <;> rfl
  -- the writer escapes the mark and the backslash, then what moves the line, then what cannot be
  -- printed; the reader meets a backslash in all of these cases
  unfold Text.quotedChar
  by_cases hc : c = mark ∨ c = '\\'
  · rw [if_pos hc]
    refine hescaped _ ?_
    obtain rfl | rfl := hc
    · obtain rfl | rfl := hm <;> rfl
    · rfl
  · rw [if_neg hc]
    rw [not_or] at hc
    by_cases hn : c = '\n'
    · subst hn
      exact hescaped _ rfl
    · by_cases hr : c = '\r'
      · subst hr
        exact hescaped _ rfl
      · by_cases ht : c = '\t'
        · subst ht
          exact hescaped _ rfl
        · rw [if_neg hn, if_neg hr, if_neg ht]
          split
          · rw [List.singleton_append, quoted?, if_neg hc.1, if_neg hn, if_neg hc.2]
            cases quoted? mark fuel cs <;> rfl
          · obtain ⟨e, he, hread⟩ := escape?_codePoint c cs
            rw [he]
            exact hescaped e hread

theorem quoted?_body {mark : Char} (hm : mark = '\'' ∨ mark = '"') (text rest : List Char)
    {fuel : Nat} (h : text.length < fuel) :
    quoted? mark fuel (text.flatMap (Text.quotedChar mark) ++ mark :: rest) =
      some (text, rest) := by
  induction text generalizing fuel with
  | nil =>
    cases fuel with
    | zero => cases h
    | succ fuel => simp [quoted?]
  | cons c text ih =>
    cases fuel with
    | zero => cases h
    | succ fuel =>
      rw [List.flatMap_cons, List.append_assoc, quoted?_char hm, ih (Nat.lt_of_succ_lt_succ h)]
      rfl

theorem length_le_flatMap (mark : Char) (text : List Char) :
    text.length ≤ (text.flatMap (Text.quotedChar mark)).length := by
  have hpos : ∀ c, 1 ≤ (Text.quotedChar mark c).length := by
    intro c
    unfold Text.quotedChar Text.codePointEscape
    repeat' split
    all_goals simp
  induction text with
  | nil => simp
  | cons c text ih =>
    have := hpos c
    simp only [List.length_cons, List.flatMap_cons, List.length_append]
    omega

theorem quoteMark_eq (cs : List Char) : Text.quoteMark cs = '\'' ∨ Text.quoteMark cs = '"' := by
  unfold Text.quoteMark
  split
  · exact .inr rfl
  · exact .inl rfl

/-- A text in quotes begins with a mark and is read back from there. -/
theorem quoted?_quoted (s : String) (rest : List Char) : ∃ mark body,
    (Text.quoted s).toList ++ rest = mark :: body ∧ (mark = '\'' ∨ mark = '"') ∧
      quoted? mark body.length body = some (s.toList, rest) := by
  refine ⟨Text.quoteMark s.toList,
    s.toList.flatMap (Text.quotedChar (Text.quoteMark s.toList)) ++ Text.quoteMark s.toList :: rest,
    ?_, quoteMark_eq _, quoted?_body (quoteMark_eq _) s.toList rest ?_⟩
  · simp [Text.quoted, Text.quotedChars]
  · have := length_le_flatMap (Text.quoteMark s.toList) s.toList
    simp only [List.length_append, List.length_cons]
    omega

end SchemaModel.Emission.Reader
