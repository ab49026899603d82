import SchemaModel.Emission.Module
import SchemaModel.Proofs.Emission.Forms
import SchemaModel.Proofs.Number.Limit
import SchemaModel.Proofs.Runs

/-!
Documentation read back. A description stands in its class as a literal in triple quotes, where
backslashes and three quotes in a row are escaped, so that nothing inside closes the literal. But one
or two quotes that are left over at the end of the description take part in closing it: it is read
back as it was exactly if the number of quotes at its end is a multiple of three (`documents_iff`).
-/
namespace SchemaModel.Emission

namespace Reader

/-! ## Literals in triple quotes -/

/-- A source as its reader sees it: lines end in a newline alone. There is no source with a zero
character. -/
def source? : List Char → Option (List Char)
  | [] => some []
  | '\r' :: '\n' :: cs => (source? cs).map ('\n' :: ·)
  | c :: cs =>
    if c.toNat = 0 then none
    else (source? cs).map ((if c = '\r' then '\n' else c) :: ·)

/-- What stands before the first three quotes that close a literal, and what follows them. A
backslash takes the next character with it, whatever that is. -/
def inside? : List Char → Option (List Char × List Char)
  | '"' :: '"' :: '"' :: rest => some ([], rest)
  | '\\' :: c :: cs => (inside? cs).map fun (inside, rest) => ('\\' :: c :: inside, rest)
  | c :: cs => (inside? cs).map fun (inside, rest) => (c :: inside, rest)
  | [] => none

/-- The control characters that have an escape beside those of quoted texts. -/
def controlEscape? : Char → Option Char
  | 'a' => some (Char.ofNat 0x7)
  | 'b' => some (Char.ofNat 0x8)
  | 'f' => some (Char.ofNat 0xc)
  | 'v' => some (Char.ofNat 0xb)
  | _ => none

def isOctalDigit (c : Char) : Bool := '0' ≤ c && c ≤ '7'

/-- The character whose code point is written with `width` ASCII digits in base sixteen. -/
def asciiCodePoint? (width : Nat) (cs : List Char) : Option Char :=
  if (cs.take width).all (·.toNat < 0x80) then (codePoint? width cs).map (·.1) else none

/-- What an escape stands for and how many characters it takes, given what follows its backslash. A
newline goes away with its backslash, and what is no escape stands for itself. Characters may be
called by their names. -/
def meaning? (names : List Char → Option Char) : List Char → Option (List Char × Nat)
  | [] => none
  | 'N' :: '{' :: cs =>
    let name := cs.takeWhile (· != '}')
    if name.length < cs.length then (names name).map fun c => ([c], name.length + 3) else none
  | c :: cs =>
    if c = '\n' then some ([], 1)
    else if c = 'N' then none
    else if c = 'x' then (asciiCodePoint? 2 cs).map fun d => ([d], 3)
    else if c = 'u' then (asciiCodePoint? 4 cs).map fun d => ([d], 5)
    else if c = 'U' then (asciiCodePoint? 8 cs).map fun d => ([d], 9)
    else if isOctalDigit c then
      let ds := ((c :: cs).take 3).takeWhile isOctalDigit
      (digits? 8 ds).map fun n => ([Char.ofNat n], ds.length)
    else
      match (shortEscape? c).or (controlEscape? c) with
      | some d => some ([d], 1)
      | none => some (['\\', c], 1)

/-- The text that the inside of a literal denotes. -/
def unescape? (names : List Char → Option Char) : List Char → Option (List Char)
  | [] => some []
  | '\\' :: cs =>
    match meaning? names cs with
    | some (meaning, taken) => (unescape? names (cs.drop taken)).map (meaning ++ ·)
    | none => none
  | c :: cs => (unescape? names cs).map (c :: ·)
termination_by cs => cs.length
decreasing_by
  · simp only [List.length_drop, List.length_cons]
    omega
  · exact Nat.lt_succ_self _

/-- The text that a literal in triple quotes at the start of a source denotes, and what follows the
literal. -/
def documentation? (names : List Char → Option Char) (cs : List Char) :
    Option (List Char × List Char) := do
  let cs ← source? cs
  let cs ← after? "\"\"\"" cs
  let (inside, rest) ← inside? cs
  let text ← unescape? names inside
  some (text, rest)

end Reader

open Fallible Reader

variable {names : List Char → Option Char} {cs xs ys rest : List Char} {c : Char}

/-! ## Escapes -/

theorem escapeDocumentation_plain (hc : c ≠ '\\') (hq : c ≠ '"') (cs : List Char) :
    escapeDocumentation (c :: cs) = c :: escapeDocumentation cs := by
  simp [escapeDocumentation, hq]

theorem escapeDocumentation_one (hq : c ≠ '"') (cs : List Char) :
    escapeDocumentation ('"' :: c :: cs) = '"' :: escapeDocumentation (c :: cs) := by
  rw [escapeDocumentation]
  · decide
  · intro _ _ h
    exact hq (List.head_eq_of_cons_eq h)

theorem escapeDocumentation_two (hq : c ≠ '"') (cs : List Char) :
    escapeDocumentation ('"' :: '"' :: c :: cs) = '"' :: '"' :: escapeDocumentation (c :: cs) := by
  rw [escapeDocumentation, escapeDocumentation_one hq]
  · decide
  · intro _ _ h
    exact hq (List.head_eq_of_cons_eq (List.tail_eq_of_cons_eq h))

/-- Escaping adds backslashes alone. -/
theorem mem_escapeDocumentation {d : Char} (h : d ∈ escapeDocumentation cs) :
    d = '\\' ∨ d ∈ cs := by
  induction cs using escapeDocumentation.induct with
  | case1 => exact .inr h
  | case2 cs ih =>
    simp only [escapeDocumentation, List.mem_cons] at h ⊢
    tauto
  | case3 cs ih =>
    simp only [escapeDocumentation, List.mem_cons] at h ⊢
    tauto
  | case4 c cs hc hq ih =>
    rw [escapeDocumentation] at h
    · simp only [List.mem_cons] at h ⊢
      tauto
    · exact hc
    · exact hq

/-- What is escaped is read as it was. -/
theorem unescape?_escapeDocumentation (names : List Char → Option Char) (cs : List Char) :
    unescape? names (escapeDocumentation cs) = some cs := by
  have hbackslash : ∀ ds, meaning? names ('\\' :: ds) = some (['\\'], 1) := by
    intro ds
    simp [meaning?, isOctalDigit, shortEscape?]
  have hquote : ∀ ds, meaning? names ('"' :: ds) = some (['"'], 1) := by
    intro ds
    simp [meaning?, isOctalDigit, shortEscape?]
  induction cs using escapeDocumentation.induct with
  | case1 => simp [escapeDocumentation, unescape?]
  | case2 cs ih => simp [escapeDocumentation, unescape?, hbackslash, ih]
  | case3 cs ih => simp [escapeDocumentation, unescape?, hquote, ih]
  | case4 c cs hc hq ih => simp [escapeDocumentation, unescape?, ih]

/-! ## Sources -/

/-- A text that a source can hold as it is. -/
def Plain (cs : List Char) : Prop := ∀ c ∈ cs, c.toNat ≠ 0 ∧ c ≠ '\r'

theorem Plain.append (hx : Plain xs) (hy : Plain ys) : Plain (xs ++ ys) :=
  List.forall_mem_append.mpr ⟨hx, hy⟩

theorem source?_append (h : Plain xs) (ys : List Char) :
    source? (xs ++ ys) = (source? ys).map (xs ++ ·) := by
  induction xs with
  | nil => simp
  | cons c xs ih =>
    rw [Plain, List.forall_mem_cons] at h
    obtain ⟨⟨hzero, hreturn⟩, h⟩ := h
    rw [List.cons_append, source?]
    · rw [if_neg hzero, if_neg hreturn, ih h, Option.map_map]
      rfl
    · intro _ hc
      exact absurd hc hreturn

theorem plain_escapeDocumentation (h : Plain cs) : Plain (escapeDocumentation cs) := by
  intro d hd
  rcases mem_escapeDocumentation hd with rfl | hd
  · decide
  · exact h d hd

/-! ## Closed texts -/

/-- Texts at whose end no quotes are left over when those inside are taken three by three. -/
inductive Closed : List Char → Prop
  | nil : Closed []
  | backslash {cs : List Char} (h : Closed cs) : Closed ('\\' :: cs)
  | quotes {cs : List Char} (h : Closed cs) : Closed ('"' :: '"' :: '"' :: cs)
  | plain {c : Char} {cs : List Char} (hc : c ≠ '\\') (hq : c ≠ '"') (h : Closed cs) :
      Closed (c :: cs)
  | one {c : Char} {cs : List Char} (hq : c ≠ '"') (h : Closed (c :: cs)) : Closed ('"' :: c :: cs)
  | two {c : Char} {cs : List Char} (hq : c ≠ '"') (h : Closed (c :: cs)) :
      Closed ('"' :: '"' :: c :: cs)

namespace Closed

/-- What follows a closed text is escaped on its own. -/
theorem escapeDocumentation_append (h : Closed xs) (ys : List Char) :
    escapeDocumentation (xs ++ ys) = escapeDocumentation xs ++ escapeDocumentation ys := by
  induction h with
  | nil => rfl
  | backslash _ ih => simp [escapeDocumentation, ih]
  | quotes _ ih => simp [escapeDocumentation, ih]
  | plain hc hq _ ih => simp [escapeDocumentation_plain hc hq, ih]
  | one hq _ ih =>
    rw [List.cons_append] at ih
    simp [escapeDocumentation_one hq, ih]
  | two hq _ ih =>
    rw [List.cons_append] at ih
    simp [escapeDocumentation_two hq, ih]

end Closed

/-! ## Literals -/

theorem inside?_plain (hc : c ≠ '\\') (hq : c ≠ '"') (cs : List Char) :
    inside? (c :: cs) = (inside? cs).map fun (inside, rest) => (c :: inside, rest) := by
  rw [inside?]
  · intro _ h
    exact absurd h hq
  · intro _ _ h
    exact absurd h hc

theorem inside?_one (hq : c ≠ '"') (cs : List Char) : inside? ('"' :: c :: cs) =
    (inside? (c :: cs)).map fun (inside, rest) => ('"' :: inside, rest) := by
  rw [inside?]
  · intro _ _ h
    exact hq (List.head_eq_of_cons_eq h)
  · intro _ _ h
    exact absurd h (by decide)

theorem inside?_two (hq : c ≠ '"') (cs : List Char) : inside? ('"' :: '"' :: c :: cs) =
    (inside? (c :: cs)).map fun (inside, rest) => ('"' :: '"' :: inside, rest) := by
  rw [inside?, inside?_one hq, Option.map_map]
  · rfl
  · intro _ _ h
    exact hq (List.head_eq_of_cons_eq (List.tail_eq_of_cons_eq h))
  · intro _ _ h
    exact absurd h (by decide)

theorem exists_head_escapeDocumentation (hq : c ≠ '"') (cs : List Char) :
    ∃ d ds, escapeDocumentation (c :: cs) = d :: ds ∧ d ≠ '"' := by
  by_cases hc : c = '\\'
  · exact ⟨'\\', '\\' :: escapeDocumentation cs, by rw [hc, escapeDocumentation], by decide⟩
  · exact ⟨c, escapeDocumentation cs, escapeDocumentation_plain hc hq cs, hq⟩

/-- No quotes of a closed text take part in closing the literal that it stands in. -/
theorem Closed.inside?_escapeDocumentation (h : Closed cs) (rest : List Char) :
    inside? (escapeDocumentation cs ++ '"' :: '"' :: '"' :: rest) =
      some (escapeDocumentation cs, rest) := by
  induction h with
  | nil => rfl
  | backslash _ ih => simp [escapeDocumentation, inside?, ih]
  | quotes _ ih => simp [escapeDocumentation, inside?, ih]
  | plain hc hq _ ih => simp [escapeDocumentation_plain hc hq, inside?_plain hc hq, ih]
  | one hq _ ih =>
    obtain ⟨d, ds, he, hd⟩ := exists_head_escapeDocumentation hq _
    rw [escapeDocumentation_one hq, he]
    rw [he, List.cons_append] at ih
    simp [inside?_one hd, ih]
  | two hq _ ih =>
    obtain ⟨d, ds, he, hd⟩ := exists_head_escapeDocumentation hq _
    rw [escapeDocumentation_two hq, he]
    rw [he, List.cons_append] at ih
    simp [inside?_two hd, ih]

/-! ## Quotes at the end -/

/-- Behind a quote that does not begin three of them, what follows stays closed. -/
theorem exists_closed_quote {kept : List Char} {loose : Nat} (h : Closed kept) (hl : loose < 3)
    (hstart : ∀ ds, kept ++ List.replicate loose '"' ≠ '"' :: '"' :: ds) :
    ∃ kept' loose', '"' :: (kept ++ List.replicate loose '"') =
      kept' ++ List.replicate loose' '"' ∧ Closed kept' ∧ loose' < 3 := by
  cases h with
  | nil =>
    refine ⟨[], loose + 1, rfl, .nil, ?_⟩
    have hne : loose ≠ 2 := by
      rintro rfl
      exact hstart [] rfl
    omega
  | @backslash cs h => exact ⟨'"' :: '\\' :: cs, loose, rfl, .one (by decide) (.backslash h), hl⟩
  | quotes _ => exact absurd rfl (hstart _)
  | @plain c cs hc hq h => exact ⟨'"' :: c :: cs, loose, rfl, .one hq (.plain hc hq h), hl⟩
  | @one c cs hq h => exact ⟨'"' :: '"' :: c :: cs, loose, rfl, .two hq h, hl⟩
  | two _ _ => exact absurd rfl (hstart _)

/-- A text is closed but for one or two quotes at its end, or altogether. -/
theorem exists_closed (cs : List Char) :
    ∃ kept loose, cs = kept ++ List.replicate loose '"' ∧ Closed kept ∧ loose < 3 := by
  induction cs using escapeDocumentation.induct with
  | case1 => exact ⟨[], 0, rfl, .nil, by decide⟩
  | case2 cs ih =>
    obtain ⟨kept, loose, rfl, h, hl⟩ := ih
    exact ⟨'\\' :: kept, loose, rfl, h.backslash, hl⟩
  | case3 cs ih =>
    obtain ⟨kept, loose, rfl, h, hl⟩ := ih
    exact ⟨'"' :: '"' :: '"' :: kept, loose, rfl, h.quotes, hl⟩
  | case4 c cs hc hq ih =>
    obtain ⟨kept, loose, rfl, h, hl⟩ := ih
    by_cases hquote : c = '"'
    · subst hquote
      exact exists_closed_quote h hl fun ds => hq ds rfl
    · exact ⟨c :: kept, loose, rfl, .plain hc hquote h, hl⟩

/-- The number of quotes at the end of a text. -/
def quotesAtEnd (cs : List Char) : Nat := (cs.reverse.takeWhile (· == '"')).length

theorem quotesAtEnd_replicate (cs : List Char) (k : Nat) :
    quotesAtEnd (cs ++ List.replicate k '"') = k + quotesAtEnd cs := by
  have hquotes : ∀ c ∈ List.replicate k '"', (c == '"') = true := by simp
  rw [quotesAtEnd, List.reverse_append, List.reverse_replicate,
    List.takeWhile_append_of_pos hquotes, List.length_append, List.length_replicate, quotesAtEnd]

/-- The quotes at the end stand behind every other character. -/
theorem quotesAtEnd_cons (hq : c ≠ '"') (xs cs : List Char) :
    quotesAtEnd (xs ++ c :: cs) = quotesAtEnd cs := by
  rw [quotesAtEnd, quotesAtEnd, List.reverse_append, List.reverse_cons, List.append_assoc,
    List.takeWhile_append]
  split
  · rename_i hlen
    rw [(List.takeWhile_prefix (· == '"')).eq_of_length hlen]
    simp [hq]
  · rfl

/-- Three more quotes change nothing, whether they stand at the end or not. -/
theorem quotesAtEnd_three (cs : List Char) :
    quotesAtEnd ('"' :: '"' :: '"' :: cs) % 3 = quotesAtEnd cs % 3 := by
  by_cases hall : ∀ c ∈ cs, c = '"'
  · have hcount : ∀ k, quotesAtEnd (List.replicate k '"') = k := quotesAtEnd_replicate []
    have hmore : quotesAtEnd ('"' :: '"' :: '"' :: List.replicate cs.length '"') = cs.length + 3 :=
      hcount (cs.length + 3)
    rw [List.eq_replicate_of_mem hall, hmore, hcount, Nat.add_mod_right]
  · push Not at hall
    obtain ⟨c, hc, hq⟩ := hall
    obtain ⟨xs, ys, rfl⟩ := List.append_of_mem hc
    have hmore : quotesAtEnd ('"' :: '"' :: '"' :: (xs ++ c :: ys)) = quotesAtEnd ys :=
      quotesAtEnd_cons hq ('"' :: '"' :: '"' :: xs) ys
    rw [hmore, quotesAtEnd_cons hq]

theorem Closed.quotesAtEnd_mod (h : Closed cs) : quotesAtEnd cs % 3 = 0 := by
  have hplain : ∀ {c : Char} {cs : List Char}, c ≠ '"' →
      quotesAtEnd (c :: cs) = quotesAtEnd cs := fun hq => quotesAtEnd_cons hq [] _
  induction h with
  | nil => rfl
  | backslash _ ih => rw [hplain (by decide), ih]
  | quotes _ ih => rw [quotesAtEnd_three, ih]
  | plain _ hq _ ih => rw [hplain hq, ih]
  | @one c cs hq _ ih =>
    have hone : quotesAtEnd ('"' :: c :: cs) = quotesAtEnd cs := quotesAtEnd_cons hq ['"'] cs
    rw [hone, ← hplain hq, ih]
  | @two c cs hq _ ih =>
    have htwo : quotesAtEnd ('"' :: '"' :: c :: cs) = quotesAtEnd cs :=
      quotesAtEnd_cons hq ['"', '"'] cs
    rw [htwo, ← hplain hq, ih]

/-- The quotes that are left over at the end of a text when they are taken three by three. -/
def looseQuotes (cs : List Char) : List Char := List.replicate (quotesAtEnd cs % 3) '"'

/-- The text without them. -/
def tightened (cs : List Char) : List Char := cs.take (cs.length - quotesAtEnd cs % 3)

theorem closed_tightened (cs : List Char) :
    Closed (tightened cs) ∧ cs = tightened cs ++ looseQuotes cs := by
  obtain ⟨kept, loose, rfl, h, hl⟩ := exists_closed cs
  have hloose : quotesAtEnd (kept ++ List.replicate loose '"') % 3 = loose := by
    have hkept := h.quotesAtEnd_mod
    rw [quotesAtEnd_replicate]
    omega
  have htight : tightened (kept ++ List.replicate loose '"') = kept := by
    rw [tightened, hloose, List.length_append, List.length_replicate, Nat.add_sub_cancel,
      List.take_left']
    rfl
  rw [htight, looseQuotes, hloose]
  exact ⟨h, rfl⟩

theorem looseQuotes_eq_nil : looseQuotes cs = [] ↔ 3 ∣ quotesAtEnd cs := by
  rw [looseQuotes, List.replicate_eq_nil_iff, Nat.dvd_iff_mod_eq_zero]

/-- One or two quotes are not escaped. -/
theorem escapeDocumentation_looseQuotes (cs : List Char) :
    escapeDocumentation (looseQuotes cs) = looseQuotes cs := by
  have hall : ∀ k < 3, escapeDocumentation (List.replicate k '"') = List.replicate k '"' := by
    decide
  exact hall _ (Nat.mod_lt _ (by decide))

/-! ## The documentation of a class -/

/-- The literal that a text stands in. -/
def tripleQuoted (cs : List Char) : List Char :=
  "\"\"\"".toList ++ (escapeDocumentation cs ++ "\"\"\"".toList)

/-- A literal is read as its text without the quotes left over, which then follow it. -/
theorem documentation?_tripleQuoted {source : List Char} (names : List Char → Option Char)
    (hcs : Plain cs) (hrest : source? rest = some source) :
    documentation? names (tripleQuoted cs ++ rest) =
      some (tightened cs, looseQuotes cs ++ source) := by
  obtain ⟨hclosed, hsplit⟩ := closed_tightened cs
  have hquotes : Plain "\"\"\"".toList := by simp [Plain]
  have hplain : Plain (tripleQuoted cs) :=
    hquotes.append ((plain_escapeDocumentation hcs).append hquotes)
  have hescape : escapeDocumentation cs = escapeDocumentation (tightened cs) ++ looseQuotes cs := by
    conv_lhs => rw [hsplit]
    rw [hclosed.escapeDocumentation_append, escapeDocumentation_looseQuotes]
  -- the quotes left over and those behind them close the literal one after the other
  have hswap : looseQuotes cs ++ ("\"\"\"".toList ++ source) =
      '"' :: '"' :: '"' :: (looseQuotes cs ++ source) := by
    have hthree : "\"\"\"".toList = List.replicate 3 '"' := rfl
    rw [hthree, looseQuotes, ← List.append_assoc, ← List.replicate_add, Nat.add_comm,
      List.replicate_add, List.append_assoc]
    rfl
  have hinside : inside? (escapeDocumentation cs ++ ("\"\"\"".toList ++ source)) =
      some (escapeDocumentation (tightened cs), looseQuotes cs ++ source) := by
    rw [hescape, List.append_assoc, hswap, hclosed.inside?_escapeDocumentation]
  rw [documentation?, source?_append hplain, hrest]
  simp only [tripleQuoted, List.append_assoc, Option.map_some, Option.bind_eq_bind,
    Option.bind_some, after?_append, hinside, unescape?_escapeDocumentation]

/-- Under the heading of a class stands a literal that is read as the given text, up to what is left
in front of the rest of the source. -/
def Documents (t : GeneratedType) (lines : List String) (text left : List Char) : Prop :=
  ∃ literal after,
    lines = "@dataclass" :: ("class " ++ t.name ++ ":") :: (indent ++ literal) :: after ∧
    ∀ names rest source, source? rest = some source →
      documentation? names (literal.toList ++ rest) = some (text, left ++ source)

variable {t : GeneratedType} {lines : List String}

theorem Documents.unique {text text' left left' : List Char} (h : Documents t lines text left)
    (h' : Documents t lines text' left') : text = text' ∧ left = left' := by
  obtain ⟨literal, after, hlines, hread⟩ := h
  obtain ⟨literal', after', hlines', hread'⟩ := h'
  obtain ⟨rfl, -⟩ : literal = literal' ∧ after = after' := by
    rw [hlines] at hlines'
    simpa using hlines'
  have hsame := (hread (fun _ => none) [] [] rfl).symm.trans (hread' (fun _ => none) [] [] rfl)
  simpa using hsame

theorem documentationLine_eq (text : String) :
    documentationLine text = indent ++ String.ofList (tripleQuoted text.toList) := by
  rw [documentationLine, tripleQuoted, String.ofList_append, String.ofList_append,
    String.ofList_toList, String.append_assoc, String.append_assoc]

theorem exists_typeLines (hgiven : t.description.isGiven = true) (h : typeLines t = .ok lines) :
    ∃ after, lines = "@dataclass" :: ("class " ++ t.name ++ ":") ::
      documentationLine t.description.display :: after := by
  unfold typeLines at h
  obtain ⟨documentation, hdocumentation, h⟩ := bind_eq_ok.mp h
  obtain ⟨fields, -, h⟩ := bind_eq_ok.mp h
  rw [documentationLines, if_pos hgiven] at hdocumentation
  split at hdocumentation
  · rename_i text htext
    cases hdocumentation
    cases h
    rw [(Value.display?_eq_some.mp htext).2]
    exact ⟨_, rfl⟩
  · cases hdocumentation

theorem documents_typeLines (hgiven : t.description.isGiven = true)
    (hplain : Plain t.description.display.toList) (h : typeLines t = .ok lines) :
    Documents t lines (tightened t.description.display.toList)
      (looseQuotes t.description.display.toList) := by
  obtain ⟨after, hlines⟩ := exists_typeLines hgiven h
  rw [documentationLine_eq] at hlines
  refine ⟨_, after, hlines, fun names rest source hrest => ?_⟩
  rw [String.toList_ofList, documentation?_tripleQuoted names hplain hrest]

/-- The documentation of a class is read back as it was given exactly if the quotes at its end are a
multiple of three. Otherwise it ends before those that are left over, and they follow the
literal. -/
theorem documents_iff (hgiven : t.description.isGiven = true)
    (hplain : Plain t.description.display.toList) (h : typeLines t = .ok lines) :
    (Documents t lines t.description.display.toList [] ↔
      3 ∣ quotesAtEnd t.description.display.toList) ∧
    Documents t lines (tightened t.description.display.toList)
      (looseQuotes t.description.display.toList) := by
  have hread := documents_typeLines hgiven hplain h
  refine ⟨?_, hread⟩
  rw [← looseQuotes_eq_nil]
  constructor
  · intro hsame
    exact (hread.unique hsame).2
  · intro hnil
    have hsplit := (closed_tightened t.description.display.toList).2
    rw [hnil, List.append_nil] at hsplit
    rwa [hnil, ← hsplit] at hread

/-- Backslashes and any number of quotes inside do no harm, nor do three quotes at the end. -/
theorem documents_iff_threeQuotes : ∃ lines,
    typeLines ⟨"Root", .text "\"\"\" \\ \"\"\"", []⟩ = .ok lines ∧
      Documents ⟨"Root", .text "\"\"\" \\ \"\"\"", []⟩ lines "\"\"\" \\ \"\"\"".toList [] := by
  refine ⟨_, rfl, ?_⟩
  have hread := documents_iff (t := ⟨"Root", .text "\"\"\" \\ \"\"\"", []⟩) (by decide)
    (by simp [Plain, Value.display]) rfl
  exact hread.1.mpr (by decide)

/-- A quote at the end takes part in closing the literal. -/
theorem not_documents_lastQuote : ¬ ∀ (t : GeneratedType) (lines : List String),
    t.description.isGiven = true → Plain t.description.display.toList → typeLines t = .ok lines →
      Documents t lines t.description.display.toList [] := by
  intro hall
  have hplain : Plain (Value.text "say \"hi\"").display.toList := by simp [Plain, Value.display]
  have hwhole := hall ⟨"Root", .text "say \"hi\"", []⟩ _ (by decide) hplain rfl
  have hread := documents_typeLines (t := ⟨"Root", .text "say \"hi\"", []⟩) (by decide) hplain rfl
  exact absurd (hwhole.unique hread).2 (by decide)

end SchemaModel.Emission
