import SchemaModel.Proofs.Schema.Trees

/-!
Paths of documents. The pointer that is made for a path of properties and items leads to the value at
its end, also where an object on the way is a reference, and no two paths have the same pointer
(`pointers_agree`). Names may hold any characters: they are written by replacing first all tildes and
then all slashes, and read by putting back first the slashes and then the tildes
(`escape_eq_replace`, `unescape_eq_replace`).
-/
namespace SchemaModel

namespace Pointer

/-! ## Replacing in a whole text -/

/-- A text with each occurrence of `old` replaced, from the left on. What is put in is not searched
again. -/
def replace (old new : List Char) : List Char → List Char
  | [] => []
  | c :: cs =>
    if old ≠ [] ∧ old <+: c :: cs then new ++ replace old new ((c :: cs).drop old.length)
    else c :: replace old new cs
termination_by cs => cs.length
decreasing_by
  · rename_i h
    have := List.length_pos_iff.mpr h.1
    simp only [List.length_drop, List.length_cons]
    omega
  · simp

variable {old new cs : List Char} {c : Char}

theorem replace_append (h : old ≠ []) (new cs : List Char) :
    replace old new (old ++ cs) = new ++ replace old new cs := by
  obtain ⟨o, os, rfl⟩ := List.exists_cons_of_ne_nil h
  rw [List.cons_append, replace, if_pos ⟨h, List.prefix_append (o :: os) cs⟩]
  simp

theorem replace_cons_of_not_prefix (h : ¬ old <+: c :: cs) (new : List Char) :
    replace old new (c :: cs) = c :: replace old new cs := by
  rw [replace, if_neg fun hp => h hp.2]

theorem replace_cons_of_ne {o : Char} (h : c ≠ o) (os new cs : List Char) :
    replace (o :: os) new (c :: cs) = c :: replace (o :: os) new cs :=
  replace_cons_of_not_prefix (fun hp => h (List.cons_prefix_cons.mp hp).1.symm) new

/-- A name is written by replacing the tildes first: the other way round, the tildes that stand for
slashes would be replaced too. -/
theorem escape_eq_replace (cs : List Char) :
    escape cs = replace ['/'] ['~', '1'] (replace ['~'] ['~', '0'] cs) := by
  have htilde (cs) : replace ['~'] ['~', '0'] ('~' :: cs) =
      '~' :: '0' :: replace ['~'] ['~', '0'] cs := replace_append (List.cons_ne_nil _ _) _ cs
  have hslash (cs) : replace ['/'] ['~', '1'] ('/' :: cs) =
      '~' :: '1' :: replace ['/'] ['~', '1'] cs := replace_append (List.cons_ne_nil _ _) _ cs
  fun_induction escape cs with
  | case1 => simp [replace]
  | case2 cs ih =>
    rw [ih, htilde, replace_cons_of_ne (by decide), replace_cons_of_ne (by decide)]
  | case3 cs ih => rw [ih, replace_cons_of_ne (by decide), hslash]
  | case4 c cs hne hne' ih => rw [ih, replace_cons_of_ne hne, replace_cons_of_ne hne']

/-- Slashes that are put back bring no digit to the front. -/
theorem exists_cons_of_replace {rest : List Char}
    (h : replace ['~', '1'] ['/'] cs = '0' :: rest) : ∃ ds, cs = '0' :: ds := by
  cases cs with
  | nil => simp [replace] at h
  | cons c cs =>
    rw [replace] at h
    split at h
    · cases h
    · rw [(List.cons.inj h).1]
      exact ⟨cs, rfl⟩

/-- A name is read by putting back the slashes first: the other way round, a tilde that is put back
could be taken for the beginning of a slash. -/
theorem unescape_eq_replace (cs : List Char) :
    unescape cs = replace ['~', '0'] ['~'] (replace ['~', '1'] ['/'] cs) := by
  have hslash (cs) : replace ['~', '1'] ['/'] ('~' :: '1' :: cs) =
      '/' :: replace ['~', '1'] ['/'] cs := replace_append (List.cons_ne_nil _ _) _ cs
  have htilde (cs) : replace ['~', '0'] ['~'] ('~' :: '0' :: cs) =
      '~' :: replace ['~', '0'] ['~'] cs := replace_append (List.cons_ne_nil _ _) _ cs
  fun_induction unescape cs with
  | case1 => simp [replace]
  | case2 cs ih => rw [ih, hslash, replace_cons_of_ne (by decide)]
  | case3 cs ih =>
    have hzero : ¬ ['~', '1'] <+: '~' :: '0' :: cs := by simp
    rw [ih, replace_cons_of_not_prefix hzero, replace_cons_of_ne (show '0' ≠ '~' by decide), htilde]
  | case4 c cs hone hzero ih =>
    -- no tilde here stands in front of a digit, neither at first nor once slashes are put back
    have hfirst : ¬ ['~', '1'] <+: c :: cs := by
      rintro ⟨rest, hrest⟩
      cases hrest
      exact hone rest rfl rfl
    have hsecond : ¬ ['~', '0'] <+: c :: replace ['~', '1'] ['/'] cs := by
      rintro ⟨rest, hrest⟩
      obtain ⟨hc, hrest⟩ := List.cons.inj hrest
      obtain ⟨ds, hds⟩ := exists_cons_of_replace hrest.symm
      exact hzero ds hc.symm hds
    rw [ih, replace_cons_of_not_prefix hfirst, replace_cons_of_not_prefix hsecond]

end Pointer

namespace Schema

/-! ## Values at the end of paths -/

/-- The value at the end of a path of a document. References are objects like others here. -/
inductive ValueAt (document : Document) : List Step → Value → Prop
  | root : ValueAt document [] document.value
  | step {position v entries step u} (h : ValueAt document position v)
      (hc : document.content v = .mapping entries) (hu : Step.Place document entries u step) :
      ValueAt document (step :: position) u

/-- No object that a path leads through is a reference. -/
def Direct (document : Document) (position : List Step) : Prop :=
  ∀ step outer w, step :: outer <:+ position → ValueAt document outer w →
    reference? (document.content w) = none

variable {document : Document} {position : List Step} {step : Step} {v w : Value}

theorem ValueAt.resolve (hd : document.IsJson) (h : ValueAt document position v) :
    Pointer.resolve document (pointerAt position) = .ok v := by
  induction h with
  | root => exact Pointer.resolve_root
  | step _ hc hu ih => exact hu.inner.resolve hd ih hc

theorem ValueAt.unique (hd : document.IsJson) (h : ValueAt document position v)
    (h' : ValueAt document position w) : v = w :=
  Except.ok.inj ((h.resolve hd).symm.trans (h'.resolve hd))

theorem Direct.outer (h : Direct document (step :: position)) : Direct document position :=
  fun step' outer w hs => h step' outer w (hs.trans (List.suffix_cons step position))

/-- A place is visited under the pointer of a path that leads there directly. -/
theorem ValueAt.visited (h : ValueAt document position v) (hdirect : Direct document position) :
    Visited document (pointerAt position) v := by
  induction h with
  | root => exact .root
  | @step position v entries step u hv hc hu ih =>
    have hfree := hdirect step position v List.suffix_rfl hv
    rw [hc] at hfree
    exact (ih hdirect.outer).inner ⟨hc, hfree⟩ hu.inner

/-- The pointer that is made for a path leads to the value at its end, and if the path is direct, it
is the pointer under which reading visits that value. Different paths have different pointers. -/
theorem pointers_agree (hd : document.IsJson) :
    (∀ position v, ValueAt document position v →
      Pointer.resolve document (pointerAt position) = .ok v ∧
        (Direct document position → Visited document (pointerAt position) v)) ∧
      Function.Injective pointerAt :=
  ⟨fun _ _ h => ⟨h.resolve hd, h.visited⟩, pointerAt_injective⟩

/-- Properties whose names are empty or hold the characters that pointers are made of. -/
def oddNames : Document :=
  .ofValue (.mapping [
    (.text "properties", .mapping [
      (.text "", .mapping [(.text "items", .mapping [(.text "type", .text "string")])]),
      (.text "~1", .mapping [
        (.text "$ref", .text "#/properties/"),
        (.text "properties", .mapping [(.text "/~0", .mapping [])])])])])

theorem pointers_agree_oddNames : oddNames.IsJson ∧ ∃ v w,
    ValueAt oddNames [.items, .property ""] v ∧
    ValueAt oddNames [.property "/~0", .property "~1"] w ∧
    Pointer.resolve oddNames "#/properties//items" = .ok v ∧
    Pointer.resolve oddNames "#/properties/~01/properties/~1~00" = .ok w ∧
    Direct oddNames [.items, .property ""] ∧ Visited oddNames "#/properties//items" v ∧
    pointerAt [.items, .property ""] ≠ pointerAt [.property "/items"] := by
  have hd : oddNames.IsJson := Document.isJson_ofValue (by decide)
  obtain ⟨hleads, hdiffer⟩ := pointers_agree hd
  have houter : ValueAt oddNames [.property ""] _ :=
    .step .root rfl ⟨_, _, rfl, rfl, .head _⟩
  have hinner : ValueAt oddNames [.items, .property ""] _ := houter.step rfl rfl
  have hodd : ValueAt oddNames [.property "/~0", .property "~1"] _ :=
    .step (.step .root rfl ⟨_, _, rfl, rfl, .tail _ (.head _)⟩) rfl ⟨_, _, rfl, rfl, .head _⟩
  have hdirect : Direct oddNames [.items, .property ""] := by
    intro step outer w hs hw
    rcases List.suffix_cons_iff.mp hs with hs | hs
    · cases hs
      rw [hw.unique hd houter]
      rfl
    · rcases List.suffix_cons_iff.mp hs with hs | hs
      · cases hs
        rw [hw.unique hd .root]
        rfl
      · cases List.suffix_nil.mp hs
  obtain ⟨hempty, hvisited⟩ := hleads _ _ hinner
  exact ⟨hd, _, _, hinner, hodd, hempty, (hleads _ _ hodd).1, hdirect, hvisited hdirect,
    hdiffer.ne (by decide)⟩

end Schema
end SchemaModel
