import Mathlib.Data.List.Chain
import SchemaModel.Proofs.Naming.Idempotence

/-!
Splitting into words. A text is made up of words and the gaps around them, and there is only one way
to see it so: a word ends where a gap begins and where a capital follows a small letter or a digit,
and nowhere else (`splits_iff`). Marking the places of the second kind and then splitting the text
at all characters that no word holds gives the same words (`words_eq_runs`).
-/
namespace SchemaModel.Naming

/-- Characters that no word holds, or none at all. -/
def IsGap (cs : List Char) : Prop := ∀ c ∈ cs, isWordChar c = false

/-- ASCII letters and digits, no capital right after a small letter or a digit. -/
structure IsWord (w : List Char) : Prop where
  ne_nil : w ≠ []
  chars : ∀ c ∈ w, isWordChar c = true
  unbroken : w.IsChain fun c d => isHump c d = false

/-- A word of a text and the gap behind it. -/
structure Part where
  word : List Char
  gap : List Char
  isWord : IsWord word
  isGap : IsGap gap

/-- What a part takes up of its text. -/
def Part.text (p : Part) : List Char := p.word ++ p.gap

/-- What separates a word from the next one: a gap, or a capital after a small letter or a digit. -/
def Part.Apart (p q : Part) : Prop :=
  p.gap ≠ [] ∨ ∃ c d, p.word.getLast? = some c ∧ q.word.head? = some d ∧ isHump c d = true

/-- A text laid out in parts, with a gap in front of the first. -/
structure Laid (cs lead : List Char) (ps : List Part) : Prop where
  text : cs = lead ++ ps.flatMap Part.text
  lead : IsGap lead
  apart : ps.IsChain Part.Apart

/-- A text is split into words exactly at its boundaries. -/
structure Splits (cs : List Char) (ws : List (List Char)) : Prop where
  /-- Nothing but the gaps is lost. -/
  flatten : ws.flatten = cs.filter isWordChar
  isWord : ∀ w ∈ ws, IsWord w
  laid : ∃ lead ps, Laid cs lead ps ∧ ps.map Part.word = ws

variable {c d : Char} {cs lead gap w : List Char} {ws : List (List Char)} {p q : Part}
  {ps : List Part}

/-! ## Ends of words -/

theorem words_cons_of_not_continues (hc : isWordChar c = true) (h : continues c cs = false) :
    words (c :: cs) = [c] :: words cs := by
  simp [words, hc, h]

theorem not_continues_of_isGap (h : IsGap gap) (c : Char) : continues c gap = false := by
  cases gap with
  | nil => rfl
  | cons d gap => simp [continues, h d List.mem_cons_self]

/-- A word ends in front of the next part exactly if it is apart from it. -/
theorem not_continues_iff (hc : p.word.getLast? = some c) (q : Part) (ps : List Part) :
    continues c (p.gap ++ (q :: ps).flatMap Part.text) = false ↔ p.Apart q := by
  obtain ⟨d, w, hword⟩ := List.exists_cons_of_ne_nil q.isWord.ne_nil
  have hd : isWordChar d = true := q.isWord.chars d (by simp [hword])
  cases hgap : p.gap with
  | nil => simp [Part.Apart, Part.text, hgap, hc, hword, continues, hd]
  | cons e gap =>
    have he : isWordChar e = false := p.isGap e (by simp [hgap])
    simp [Part.Apart, hgap, continues, he]

/-! ## From parts to words -/

theorem words_append_of_isGap (h : IsGap gap) (cs : List Char) : words (gap ++ cs) = words cs := by
  induction gap with
  | nil => rfl
  | cons c gap ih =>
    obtain ⟨hc, hgap⟩ := List.forall_mem_cons.mp h
    rw [List.cons_append, words_cons_of_not_isWordChar hc, ih hgap]

/-- A text that begins with a word and does not continue it has it as its first word. -/
theorem words_append_of_isWord (hw : IsWord w)
    (hends : ∀ c, w.getLast? = some c → continues c cs = false) :
    words (w ++ cs) = w :: words cs := by
  obtain ⟨hne, hchars, hunbroken⟩ := hw
  induction w with
  | nil => exact absurd rfl hne
  | cons c w ih =>
    obtain ⟨hc, hw⟩ := List.forall_mem_cons.mp hchars
    cases w with
    | nil => exact words_cons_of_not_continues hc (hends c rfl)
    | cons d w =>
      obtain ⟨hcd, hunbroken⟩ := List.isChain_cons_cons.mp hunbroken
      have hcontinues : continues c (d :: w ++ cs) = true := by
        simp [continues, hw d List.mem_cons_self, hcd]
      have hrest := ih (fun e he => hends e (by simpa using he)) (List.cons_ne_nil d w) hw hunbroken
      rw [List.cons_append, words_cons_of_continues hc hcontinues, hrest]
      rfl

/-- Parts that are apart have the words of their text. -/
theorem words_flatMap (h : ps.IsChain Part.Apart) :
    words (ps.flatMap Part.text) = ps.map Part.word := by
  induction ps with
  | nil => rfl
  | cons p ps ih =>
    have hrest : words (p.gap ++ ps.flatMap Part.text) = ps.map Part.word := by
      rw [words_append_of_isGap p.isGap, ih h.tail]
    have hends : ∀ c, p.word.getLast? = some c →
        continues c (p.gap ++ ps.flatMap Part.text) = false := by
      intro c hc
      cases ps with
      | nil =>
        rw [List.flatMap_nil, List.append_nil]
        exact not_continues_of_isGap p.isGap c
      | cons q ps => exact (not_continues_iff hc q ps).mpr (List.isChain_cons_cons.mp h).1
    rw [List.flatMap_cons, Part.text, List.append_assoc, words_append_of_isWord p.isWord hends,
      hrest, List.map_cons]

theorem Laid.words_eq (h : Laid cs lead ps) : words cs = ps.map Part.word := by
  rw [h.text, words_append_of_isGap h.lead, words_flatMap h.apart]

/-! ## From words to parts -/

theorem Laid.cons_of_not_isWordChar (hc : isWordChar c = false) (h : Laid cs lead ps) :
    Laid (c :: cs) (c :: lead) ps where
  text := by rw [h.text, List.cons_append]
  lead := List.forall_mem_cons.mpr ⟨hc, h.lead⟩
  apart := h.apart

theorem isWord_singleton (hc : isWordChar c = true) : IsWord [c] :=
  ⟨List.cons_ne_nil _ _, by simpa using hc, List.isChain_singleton _⟩

/-- A character that the text does not continue is a word of its own. -/
theorem Laid.cons_of_not_continues (hc : isWordChar c = true) (hends : continues c cs = false)
    (h : Laid cs lead ps) : Laid (c :: cs) [] (⟨[c], lead, isWord_singleton hc, h.lead⟩ :: ps) where
  text := by simp [h.text, Part.text]
  lead := by simp [IsGap]
  apart := by
    cases ps with
    | nil => exact List.isChain_singleton _
    | cons q ps =>
      rw [h.text] at hends
      exact .cons_cons ((not_continues_iff rfl q ps).mp hends) h.apart

/-- A text that begins with a character of a word begins with its first part. -/
theorem Laid.exists_first (h : Laid (c :: cs) lead ps) (hc : isWordChar c = true) :
    lead = [] ∧ ∃ p qs w, ps = p :: qs ∧ p.word = c :: w := by
  have htext := h.text
  cases lead with
  | cons d lead =>
    obtain ⟨rfl, -⟩ := List.cons.inj htext
    rw [h.lead c List.mem_cons_self] at hc
    cases hc
  | nil =>
    cases ps with
    | nil => cases htext
    | cons p qs =>
      obtain ⟨d, w, hword⟩ := List.exists_cons_of_ne_nil p.isWord.ne_nil
      rw [List.nil_append, List.flatMap_cons, Part.text, hword] at htext
      obtain ⟨rfl, -⟩ := List.cons.inj htext
      exact ⟨rfl, p, qs, w, rfl, hword⟩

/-- A word with one more character in front. -/
theorem IsWord.cons (hw : IsWord (d :: w)) (hc : isWordChar c = true) (hhump : isHump c d = false) :
    IsWord (c :: d :: w) :=
  ⟨List.cons_ne_nil _ _, List.forall_mem_cons.mpr ⟨hc, hw.chars⟩, .cons_cons hhump hw.unbroken⟩

/-- A character that the text continues belongs to the first word. -/
theorem Laid.cons_of_continues (hc : isWordChar c = true) (hcontinues : continues c cs = true)
    (h : Laid cs lead ps) : ∃ qs, Laid (c :: cs) [] qs := by
  obtain ⟨d, ds, rfl, hd, hhump⟩ := exists_of_continues hcontinues
  obtain ⟨rfl, ⟨_, gap, hw, hgap⟩, qs, w, rfl, rfl⟩ := h.exists_first hd
  refine ⟨⟨c :: d :: w, gap, hw.cons hc hhump, hgap⟩ :: qs, ?_, h.lead, ?_⟩
  · rw [h.text]
    rfl
  · cases qs with
    | nil => exact List.isChain_singleton _
    | cons q qs =>
      obtain ⟨hfirst, hrest⟩ := List.isChain_cons_cons.mp h.apart
      -- what a word ends with is the same with one more character in front
      exact .cons_cons (by simpa [Part.Apart] using hfirst) hrest

/-- Every text is laid out in words and gaps. -/
theorem exists_laid (cs : List Char) : ∃ lead ps, Laid cs lead ps := by
  induction cs with
  | nil => exact ⟨[], [], rfl, by simp [IsGap], .nil⟩
  | cons c cs ih =>
    obtain ⟨lead, ps, h⟩ := ih
    cases hc : isWordChar c with
    | false => exact ⟨_, _, h.cons_of_not_isWordChar hc⟩
    | true =>
      cases hcontinues : continues c cs with
      | false => exact ⟨_, _, h.cons_of_not_continues hc hcontinues⟩
      | true => exact ⟨_, h.cons_of_continues hc hcontinues⟩

/-- The words of a text split it exactly at its boundaries, and nothing else does. -/
theorem splits_iff (text : String) (ws : List (List Char)) :
    Splits text.toList ws ↔ words text.toList = ws := by
  constructor
  · intro h
    obtain ⟨lead, ps, hlaid, rfl⟩ := h.laid
    exact hlaid.words_eq
  · rintro rfl
    obtain ⟨lead, ps, hlaid⟩ := exists_laid text.toList
    refine ⟨flatten_words _, ?_, lead, ps, hlaid, hlaid.words_eq.symm⟩
    rw [hlaid.words_eq]
    exact List.forall_mem_map.mpr fun p _ => p.isWord

example : words "--v2Beta_größeX".toList = ["v2", "Beta", "gr", "e", "X"].map String.toList := by
  decide

/-! ## Marked boundaries -/

/-- A text with an underscore wherever a capital follows a small letter or a digit. -/
def markHumps : List Char → List Char
  | [] => []
  | [c] => [c]
  | c :: d :: cs =>
    if isHump c d then c :: '_' :: markHumps (d :: cs) else c :: markHumps (d :: cs)

/-- What stands between characters that no word holds, wherever anything does. -/
def runs (cs : List Char) : List (List Char) :=
  (cs.splitOnP fun c => !isWordChar c).filter fun w => !w.isEmpty

theorem runs_cons_of_not_isWordChar (hc : isWordChar c = false) (cs : List Char) :
    runs (c :: cs) = runs cs := by
  simp [runs, List.splitOnP_cons_eq_if_modifyHead, hc]

theorem runs_cons_gap (hc : isWordChar c = true) (hd : isWordChar d = false) (cs : List Char) :
    runs (c :: d :: cs) = [c] :: runs (d :: cs) := by
  simp [runs, List.splitOnP_cons_eq_if_modifyHead, hc, hd]

theorem runs_cons_cons (hc : isWordChar c = true) (hd : isWordChar d = true) (cs : List Char) :
    runs (c :: d :: cs) = extend c (runs (d :: cs)) := by
  obtain ⟨w, ws, h⟩ :=
    List.exists_cons_of_ne_nil (List.splitOnP_ne_nil (fun c => !isWordChar c) cs)
  simp [runs, List.splitOnP_cons_eq_if_modifyHead, hc, hd, h, extend]

theorem exists_markHumps_cons (c : Char) (cs : List Char) :
    ∃ rest, markHumps (c :: cs) = c :: rest := by
  cases cs with
  | nil => exact ⟨[], rfl⟩
  | cons d cs =>
    rw [markHumps]
    split
    · exact ⟨_, rfl⟩
    · exact ⟨_, rfl⟩

theorem isWordChar_of_isHump (h : isHump c d = true) : isWordChar c = true :=
  isWordChar_of_isSmall (Bool.and_eq_true_iff.mp h).1

/-- Marking humps and then splitting at what no word holds gives the words. -/
theorem words_eq_runs (cs : List Char) : words cs = runs (markHumps cs) := by
  fun_induction markHumps cs with
  | case1 => rfl
  | case2 c =>
    cases hc : isWordChar c with
    | false =>
      rw [words_cons_of_not_isWordChar hc, runs_cons_of_not_isWordChar hc]
      rfl
    | true => simp [words, hc, continues, runs, List.splitOnP_cons_eq_if_modifyHead]
  | case3 c d cs hhump ih =>
    have hc := isWordChar_of_isHump hhump
    rw [runs_cons_gap hc rfl, runs_cons_of_not_isWordChar rfl, ← ih]
    exact words_cons_of_not_continues hc (by simp [continues, hhump])
  | case4 c d cs hhump ih =>
    obtain ⟨rest, hrest⟩ := exists_markHumps_cons d cs
    rw [hrest] at ih ⊢
    cases hc : isWordChar c with
    | false => rw [words_cons_of_not_isWordChar hc, runs_cons_of_not_isWordChar hc, ih]
    | true =>
      cases hd : isWordChar d with
      | false =>
        rw [runs_cons_gap hc hd, ← ih]
        exact words_cons_of_not_continues hc (by simp [continues, hd])
      | true =>
        rw [runs_cons_cons hc hd, ← ih]
        exact words_cons_of_continues hc (by simp [continues, hd, hhump])

end SchemaModel.Naming
