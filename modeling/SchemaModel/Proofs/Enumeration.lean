import Mathlib.Data.List.Nodup
import SchemaModel.Enumeration
import SchemaModel.Proofs.Runs

/-!
Members of enumerated types that come from declared choices: each has the name made from its text,
and no two have the same. Texts have members unless two different ones make one name
(`members_ok_iff`), and choices have a type if, besides, all of them can be written
(`type_ok_iff`).
-/
namespace SchemaModel

namespace Naming

theorem isWordChar_of_mem_words {cs w : List Char} {c : Char} (hw : w ∈ words cs) (hc : c ∈ w) :
    isWordChar c = true := by
  have hm : c ∈ (words cs).flatten := List.mem_flatten_of_mem hw hc
  rw [flatten_words] at hm
  exact (List.mem_filter.mp hm).2

/-- What holds of all ASCII letters and digits holds of the characters of words. -/
theorem of_ascii {P : Char → Prop}
    (hall : ∀ n < 128, isWordChar (Char.ofNat n) = true → P (Char.ofNat n)) {c : Char}
    (h : isWordChar c = true) : P c := by
  have hlt : c.toNat < 128 := by
    -- an upper case letter, a lower case letter or a digit
    change ((decide ('A'.val ≤ c.val ∧ c.val ≤ 'Z'.val) ||
      decide ('a'.val ≤ c.val) && decide (c.val ≤ 'z'.val)) ||
        decide ('0'.val ≤ c.val) && decide (c.val ≤ '9'.val)) = true at h
    simp only [Bool.or_eq_true, Bool.and_eq_true, decide_eq_true_eq, UInt32.le_iff_toNat_le] at h
    change c.val.toNat < 128
    rcases h with (h | h) | h
    · exact Nat.lt_of_le_of_lt h.2 (by decide)
    · exact Nat.lt_of_le_of_lt h.2 (by decide)
    · exact Nat.lt_of_le_of_lt h.2 (by decide)
  have := hall c.toNat hlt
  rw [Char.ofNat_toNat] at this
  exact this h

theorem isWordChar_toUpper {c : Char} (h : isWordChar c = true) : isWordChar c.toUpper = true :=
  of_ascii (P := fun c => isWordChar c.toUpper = true) (by decide) h

/-- Words joined by underscores hold nothing but characters of words and underscores. -/
theorem mem_joined {ws : List (List Char)} {c : Char} (h : c ∈ joined ws) :
    c = '_' ∨ ∃ w ∈ ws, c ∈ w := by
  induction ws with
  | nil => cases h
  | cons w ws ih =>
    cases ws with
    | nil =>
      rw [joined, List.intercalate_singleton] at h
      exact .inr ⟨w, by simp, h⟩
    | cons v ws =>
      rw [joined, List.intercalate_cons_cons] at h
      simp only [List.mem_append, List.mem_singleton] at h
      obtain (h | rfl) | h := h
      · exact .inr ⟨w, by simp, h⟩
      · exact .inl rfl
      · exact (ih h).imp_right fun ⟨u, hu, hc⟩ => ⟨u, List.mem_cons_of_mem _ hu, hc⟩

theorem mem_guardDigit {cs : List Char} {c : Char} (h : c ∈ guardDigit cs) : c = '_' ∨ c ∈ cs := by
  cases cs with
  | nil => cases h
  | cons d cs =>
    rw [guardDigit] at h
    split at h
    · exact List.mem_cons.mp h
    · exact .inr h

/-- A member's name is made of letters, digits and underscores. -/
theorem isWordChar_of_mem_constantName {text : String} {c : Char}
    (h : c ∈ (constantName text).toList) : c = '_' ∨ isWordChar c = true := by
  unfold constantName at h
  split at h
  · have hall : "EMPTY".toList.all isWordChar = true := rfl
    exact .inr (List.all_eq_true.mp hall c h)
  · rw [String.toList_ofList] at h
    obtain rfl | h := mem_guardDigit h
    · exact .inl rfl
    · obtain rfl | ⟨w, hw, hc⟩ := mem_joined h
      · exact .inl rfl
      · obtain ⟨v, hv, rfl⟩ := List.mem_map.mp hw
        obtain ⟨d, hd, rfl⟩ := List.mem_map.mp hc
        exact .inr (isWordChar_toUpper (isWordChar_of_mem_words hv hd))

end Naming

namespace Enumeration

/-- Members with the names of their texts, no name twice. -/
structure Named (members : List Member) : Prop where
  name : ∀ m ∈ members, m.name = Naming.constantName m.literal
  nodup : (members.map (·.name)).Nodup

variable {scope text : String} {ts : List String} {ms ms' : List Member}

/-- A text that is new has a member behind the others, under a name that none of them has. -/
theorem addMember_ok (h : addMember scope ms text = .ok ms') :
    ((∃ m ∈ ms, m.literal = text) ∧ ms' = ms) ∨
    (ms' = ms ++ [⟨Naming.constantName text, ms.length, text⟩] ∧
      (∀ m ∈ ms, m.literal ≠ text) ∧ ∀ m ∈ ms, m.name ≠ Naming.constantName text) := by
  unfold addMember at h
  split at h
  · rename_i hany
    cases h
    exact .inl ⟨by simpa using hany, rfl⟩
  · rename_i hany
    dsimp only at h
    split at h
    · cases h
    · rename_i hnone
      cases h
      exact .inr ⟨rfl, by simpa using hany, by simpa using List.find?_eq_none.mp hnone⟩

theorem Named.addMember (h : Named ms) (ha : addMember scope ms text = .ok ms') : Named ms' := by
  rcases addMember_ok ha with ⟨-, rfl⟩ | ⟨rfl, -, hfresh⟩
  · exact h
  · refine ⟨fun m hm => ?_, ?_⟩
    · obtain hm | hm := List.mem_append.mp hm
      · exact h.name m hm
      · rw [List.mem_singleton.mp hm]
    · rw [List.map_append, List.nodup_append]
      refine ⟨h.nodup, List.nodup_singleton _, ?_⟩
      intro name hn name' hn' he
      obtain ⟨m, hm, rfl⟩ := List.mem_map.mp hn
      rw [List.map_singleton, List.mem_singleton] at hn'
      exact hfresh m hm (he.trans hn')

/-- Texts with one name between them would be one text, since names are made from texts. -/
theorem Named.nodup_literals (h : Named ms) : (ms.map (·.literal)).Nodup := by
  have hnames : (ms.map (·.literal)).map Naming.constantName = ms.map (·.name) := by
    rw [List.map_map]
    exact List.map_congr_left fun m hm => (h.name m hm).symm
  refine .of_map Naming.constantName ?_
  rw [hnames]
  exact h.nodup

theorem Named.nil : Named [] := ⟨by simp, by simp⟩

theorem type_eq_ok {name : String} {literals : List Literal} {t : EnumType} :
    type name literals = .ok t ↔ literals.any Literal.isLong = false ∧
      ∃ ms, members (texts literals) ("enum " ++ name) = .ok ms ∧ t = ⟨name, ms⟩ := by
  unfold type
  cases literals.any Literal.isLong with
  | true => simp
  | false => simp [Fallible.map_eq_ok, Fallible.mapError_eq_ok, @eq_comm _ t]

theorem type_eq_digits {name : String} {literals : List Literal} :
    type name literals = .error .digits ↔ literals.any Literal.isLong = true := by
  unfold type
  cases literals.any Literal.isLong with
  | true => simp
  | false => simp [Fallible.map_eq_error, Fallible.mapError_eq_error]

theorem type_eq_collision {name : String} {literals : List Literal} {c : Naming.Collision} :
    type name literals = .error (.collision c) ↔ literals.any Literal.isLong = false ∧
      members (texts literals) ("enum " ++ name) = .error c := by
  unfold type
  cases literals.any Literal.isLong with
  | true => simp
  | false => simp [Fallible.map_eq_error, Fallible.mapError_eq_error]

theorem type_ok {name : String} {literals : List Literal} {t : EnumType}
    (h : type name literals = .ok t) :
    ∃ ms, members (texts literals) ("enum " ++ name) = .ok ms ∧ t = ⟨name, ms⟩ :=
  (type_eq_ok.mp h).2

theorem name_of_type {name : String} {literals : List Literal} {t : EnumType}
    (h : type name literals = .ok t) : t.name = name := by
  obtain ⟨ms, -, rfl⟩ := type_ok h
  rfl

theorem named_of_type {name : String} {literals : List Literal} {t : EnumType}
    (h : type name literals = .ok t) : Named t.members := by
  obtain ⟨ms, hms, rfl⟩ := type_ok h
  exact Fallible.foldlM_keeps (fun _ _ _ hm ha => hm.addMember ha) .nil hms

/-! ## Choices without members -/

/-- Two different texts make one name. -/
def Clash (texts : List String) : Prop :=
  ∃ a ∈ texts, ∃ b ∈ texts, a ≠ b ∧ Naming.constantName a = Naming.constantName b

theorem addMember_error {c : Naming.Collision} (h : addMember scope ms text = .error c) :
    ∃ m ∈ ms, m.name = Naming.constantName text ∧ (∀ m ∈ ms, m.literal ≠ text) ∧
      c = ⟨Naming.constantName text, m.literal, text, scope⟩ := by
  unfold addMember at h
  split at h
  · cases h
  · rename_i hany
    dsimp only at h
    split at h
    · rename_i m hm
      cases h
      exact ⟨m, List.mem_of_find?_eq_some hm, by simpa using List.find?_some hm,
        by simpa using hany, rfl⟩
    · cases h

/-- The members are those of the texts. -/
theorem mem_literals (h : ts.foldlM (addMember scope) ms = .ok ms') (x : String) :
    x ∈ ms'.map (·.literal) ↔ x ∈ ms.map (·.literal) ∨ x ∈ ts := by
  induction ts generalizing ms with
  | nil =>
    cases h
    simp
  | cons t ts ih =>
    rw [List.foldlM_cons] at h
    obtain ⟨ms₁, hms₁, h⟩ := Fallible.bind_eq_ok.mp h
    rw [ih h, List.mem_cons]
    rcases addMember_ok hms₁ with ⟨⟨m, hm, rfl⟩, rfl⟩ | ⟨rfl, -, -⟩
    · have hmem : m.literal ∈ ms₁.map (·.literal) := List.mem_map_of_mem hm
      constructor
      · rintro (hx | hx)
        · exact .inl hx
        · exact .inr (.inr hx)
      · rintro (hx | rfl | hx)
        · exact .inl hx
        · exact .inl hmem
        · exact .inr hx
    · simp [or_assoc]

theorem not_clash_of_ok (h : members ts scope = .ok ms) : ¬ Clash ts := by
  rintro ⟨a, ha, b, hb, hne, hname⟩
  have hnamed : Named ms := Fallible.foldlM_keeps (fun _ _ _ hm ha => hm.addMember ha) .nil h
  have hmem : ∀ x ∈ ts, ∃ m ∈ ms, m.literal = x := by
    intro x hx
    have := (mem_literals h x).mpr (.inr hx)
    simpa using this
  obtain ⟨m, hm, rfl⟩ := hmem a ha
  obtain ⟨m', hm', rfl⟩ := hmem b hb
  rw [← hnamed.name m hm, ← hnamed.name m' hm'] at hname
  exact hne (congrArg Member.literal (List.inj_on_of_nodup_map hnamed.nodup hm hm' hname))

/-! ### The first clash -/

/-- `second` is the first text whose name is made by a different text before it, and `first` is that
text. -/
def FirstClash (ts : List String) (first second : String) : Prop :=
  ∃ before after, ts = before ++ second :: after ∧ ¬ Clash before ∧ first ∈ before ∧
    first ≠ second ∧ Naming.constantName first = Naming.constantName second

theorem clash_of_mem {first second : String} {before : List String} (hfirst : first ∈ before)
    (hne : first ≠ second) (hname : Naming.constantName first = Naming.constantName second)
    (after : List String) : Clash (before ++ second :: after) :=
  ⟨first, by simp [hfirst], second, by simp, hne, hname⟩

theorem FirstClash.clash {first second : String} (h : FirstClash ts first second) : Clash ts := by
  obtain ⟨before, after, rfl, -, hfirst, hne, hname⟩ := h
  exact clash_of_mem hfirst hne hname after

/-- A run breaks off at the first clash, and the error says which texts clash. -/
theorem firstClash_of_error {c : Naming.Collision} (h : members ts scope = .error c) :
    FirstClash ts c.first c.second ∧ c.name = Naming.constantName c.second ∧ c.scope = scope := by
  obtain ⟨before, text, after, ms, rfl, hms, herror⟩ := Fallible.foldlM_eq_error.mp h
  have hnamed : Named ms := Fallible.foldlM_keeps (fun _ _ _ hm ha => hm.addMember ha) .nil hms
  obtain ⟨m, hm, hname, hnew, rfl⟩ := addMember_error herror
  have hfirst : m.literal ∈ before := by
    have := (mem_literals hms m.literal).mp (List.mem_map_of_mem hm)
    simpa using this
  rw [hnamed.name m hm] at hname
  exact ⟨⟨before, after, rfl, not_clash_of_ok hms, hfirst, hnew m hm, hname⟩, rfl, rfl⟩

theorem members_ok_iff (scope : String) : (∃ ms, members ts scope = .ok ms) ↔ ¬ Clash ts := by
  constructor
  · rintro ⟨ms, h⟩
    exact not_clash_of_ok h
  · intro hclash
    cases h : members ts scope with
    | ok ms => exact ⟨ms, rfl⟩
    | error c => exact absurd (firstClash_of_error h).1.clash hclash

/-- The scope shows in errors only. -/
theorem members_scope (scope' : String) (h : members ts scope = .ok ms) :
    members ts scope' = .ok ms := by
  refine Fallible.foldlM_eq_ok_of_imp (fun ms text ms' hadd => ?_) h
  unfold addMember at hadd ⊢
  split at hadd
  · rename_i hany
    rw [if_pos hany]
    exact hadd
  · rename_i hany
    rw [if_neg hany]
    dsimp only at hadd ⊢
    split at hadd
    · cases hadd
    · exact hadd

theorem type_ok_iff {name : String} {literals : List Literal} :
    (∃ t, type name literals = .ok t) ↔
      literals.any Literal.isLong = false ∧ ¬ Clash (texts literals) := by
  rw [← members_ok_iff ("enum " ++ name)]
  constructor
  · rintro ⟨t, ht⟩
    obtain ⟨hshort, ms, hms, -⟩ := type_eq_ok.mp ht
    exact ⟨hshort, ms, hms⟩
  · rintro ⟨hshort, ms, hms⟩
    exact ⟨⟨name, ms⟩, type_eq_ok.mpr ⟨hshort, ms, hms, rfl⟩⟩

/-- Two enumerated types with the same choices have the same members. -/
theorem members_eq_of_type {name name' : String} {literals : List Literal} {t t' : EnumType}
    (h : type name literals = .ok t) (h' : type name' literals = .ok t') :
    t'.members = t.members := by
  obtain ⟨ms, hms, rfl⟩ := type_ok h
  obtain ⟨ms', hms', rfl⟩ := type_ok h'
  have := (members_scope ("enum " ++ name') hms).symm.trans hms'
  exact (Except.ok.inj this).symm

end Enumeration
end SchemaModel
