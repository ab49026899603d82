import SchemaModel.Proofs.Schema.Reading

/-!
Runs of loading that fail, taken apart: where a run fails, it does so at one of its steps, after the
steps before it have succeeded and have added to what is remembered.
-/
namespace SchemaModel.Schema

open Stateful

/-! ## Ways to fail -/

/-- How reading an object fails: what it declares cannot be read, or one of its children, after those
before it were read. -/
inductive ObjectFails (document : Document) (read : Value → String → Loading.Action NodeId)
    (pointer : String) (entries : List (Value × Value)) (l : Loading) : LoadError → Prop
  | declaration {e} (h : declaration document entries = .error e) :
      ObjectFails document read pointer entries l e
  | properties {w} (hw : Value.entry? "properties" entries = some w)
      (hn : ∀ ps, document.content w ≠ .mapping ps) :
      ObjectFails document read pointer entries l (.properties pointer)
  | key {w ps key u} (hw : Value.entry? "properties" entries = some w)
      (hps : document.content w = .mapping ps) (hu : (key, u) ∈ ps)
      (hk : ∀ name, key ≠ .text name) :
      ObjectFails document read pointer entries l (.propertyName key)
  | inner {pointer' w l₁ e} (hi : Inner document pointer entries pointer' w) (hl : l.Grows l₁)
      (h : read w pointer' l₁ = .error e) : ObjectFails document read pointer entries l e
  | choices {e} (h : choices document pointer entries = .error e) :
      ObjectFails document read pointer entries l e
  | default {unique e} (h : declaredDefault document unique entries = .error e) :
      ObjectFails document read pointer entries l e

/-- How reading a place fails: by its reference, by an object around it that it is, or by the object
that it holds. -/
inductive PlaceFails (document : Document) (fuel : Nat) (path : List Nat) (chain : List String)
    (v : Value) (pointer : String) (l : Loading) : LoadError → Prop
  | selfReference {reference} (hr : reference? (document.content v) = some (.text reference))
      (hc : reference = pointer ∨ reference ∈ chain) :
      PlaceFails document fuel path chain v pointer l (.selfReference reference pointer)
  | unfollowed {reference e} (hr : reference? (document.content v) = some (.text reference))
      (he : follow document reference = .error e) :
      PlaceFails document fuel path chain v pointer l e
  | target {reference target e} (hr : Refers document v reference target)
      (hp : reference ≠ pointer) (hc : reference ∉ chain)
      (h : readAt document fuel [] (pointer :: chain) target reference l = .error e) :
      PlaceFails document fuel path chain v pointer l e
  | referenceKind {w} (hr : reference? (document.content v) = some w)
      (hw : ∀ reference, w ≠ .text reference) :
      PlaceFails document fuel path chain v pointer l (.referenceKind (document.content w))
  | around {m} (hm : Document.mark? v = some m) (hp : m ∈ path) :
      PlaceFails document fuel path chain v pointer l .endless
  | notObject (h : ∀ entries, document.content v ≠ .mapping entries) :
      PlaceFails document fuel path chain v pointer l
        (.notObject pointer (document.content v).kindName)
  | object {entries e} (ho : Holds document v entries)
      (h : ObjectFails document (readAt document fuel ((Document.mark? v).toList ++ path) []) pointer
        entries (l.register pointer) e) : PlaceFails document fuel path chain v pointer l e

variable {document : Document} {l l' : Loading} {pointer pointer' : String} {id : NodeId} {v : Value}
  {entries : List (Value × Value)} {read : Value → String → Loading.Action NodeId} {e : LoadError}

/-! ## Nothing is forgotten -/

/-- What is remembered when a place is read is remembered afterwards. -/
def ReadGrows (read : Value → String → Loading.Action NodeId) : Prop :=
  ∀ v pointer id (l l' : Loading), read v pointer l = .ok (id, l') → l.Grows l'

theorem readProperties_grows (hread : ReadGrows read) {es : List (Value × Value)}
    {out : List (String × Option NodeId)} (h : readProperties read pointer es l = .ok (out, l')) :
    l.Grows l' := by
  induction es generalizing l out with
  | nil =>
    obtain ⟨-, rfl⟩ := pure_eq_ok.mp h
    exact .refl _
  | cons e es ih =>
    obtain ⟨name, w, id, rest, l₁, -, -, hid, hrest⟩ := readProperties_cons_ok h
    exact (hread w _ id l l₁ hid).trans (ih hrest)

theorem readObject_grows (hread : ReadGrows read) {n : SchemaNode}
    (h : readObject document read pointer entries l = .ok (n, l')) : l.Grows l' := by
  obtain ⟨base, properties, items, enum, default, l₁, -, -, hprops, hitems, -, -⟩ := readObject_ok h
  have hproperties : l.Grows l₁ := by
    obtain ⟨-, -, rfl⟩ | ⟨w, es, ps, -, -, -, hps⟩ := hprops
    · exact .refl _
    · exact readProperties_grows hread hps
  have hitem : l₁.Grows l' := by
    obtain ⟨-, -, rfl⟩ | ⟨w, id, -, -, hid⟩ := hitems
    · exact .refl _
    · exact hread w _ id l₁ l' hid
  exact hproperties.trans hitem

theorem readAt_grows (document : Document) (fuel : Nat) (path : List Nat) (chain : List String) :
    ReadGrows (readAt document fuel path chain) := by
  induction fuel generalizing path chain with
  | zero =>
    intro v pointer id l l' h
    cases h
  | succ fuel ih =>
    intro v pointer id l l' h
    obtain ⟨-, rfl⟩ | ⟨reference, target, l₁, -, hread, rfl⟩ |
      ⟨entries, n, path', l₁, -, -, rfl, hread, rfl⟩ := readAt_ok h
    · exact .refl _
    · exact (ih _ _ _ _ _ _ _ hread).trans (.link l₁ pointer id)
    · exact ((Loading.Grows.register l pointer).trans (readObject_grows (ih path' []) hread)).trans
        (.fill l₁ _ n)

/-! ## Runs that fail -/

theorem readProperties_error (hread : ReadGrows read) {es : List (Value × Value)}
    (h : readProperties read pointer es l = .error e) :
    (∃ key u, (key, u) ∈ es ∧ (∀ name, key ≠ .text name) ∧ e = .propertyName key) ∨
      ∃ name u l₁, (.text name, u) ∈ es ∧ l.Grows l₁ ∧
        read u (Pointer.property pointer name) l₁ = .error e := by
  induction es generalizing l with
  | nil => cases h
  | cons entry es ih =>
    obtain ⟨key, u⟩ := entry
    cases key
    case text name =>
      rw [readProperties, bind_eq_error] at h
      obtain h | ⟨id, l₁, hid, h⟩ := h
      · exact .inr ⟨name, u, l, List.mem_cons_self, .refl _, h⟩
      rw [bind_eq_error] at h
      obtain h | ⟨rest, l₂, -, h⟩ := h
      · obtain ⟨key, w, hm, hkey⟩ | ⟨name', w, l₂, hm, hg, hw⟩ := ih h
        · exact .inl ⟨key, w, List.mem_cons_of_mem _ hm, hkey⟩
        · exact .inr ⟨name', w, l₂, List.mem_cons_of_mem _ hm, (hread _ _ _ _ _ hid).trans hg, hw⟩
      · cases h
    all_goals
      cases h
      exact .inl ⟨_, u, List.mem_cons_self, by rintro _ ⟨⟩, rfl⟩

/-- The items fail, or what is read behind them. -/
theorem readItems_error {next : Option NodeId → Loading.Action SchemaNode}
    (h : (match Value.entry? "items" entries with
      | none => (pure none : Loading.Action (Option NodeId)) >>= next
      | some w => read w (Pointer.items pointer) >>= fun id => pure (some id) >>= next) l =
        .error e) :
    (∃ w, Value.entry? "items" entries = some w ∧ read w (Pointer.items pointer) l = .error e) ∨
      ∃ items l₁, next items l₁ = .error e := by
  cases hi : Value.entry? "items" entries with
  | none =>
    simp only [hi, bind_eq_error] at h
    obtain ⟨⟨⟩⟩ | ⟨items, l₁, -, h⟩ := h
    exact .inr ⟨items, l₁, h⟩
  | some w =>
    simp only [hi, bind_eq_error] at h
    obtain h | ⟨id, l₁, -, ⟨⟨⟩⟩ | ⟨items, l₂, -, h⟩⟩ := h
    · exact .inl ⟨w, rfl, h⟩
    · exact .inr ⟨items, l₂, h⟩

theorem readLiterals_error {unique : Bool}
    {f : Option (List Literal) → Option Literal → SchemaNode}
    (h : (do
      let enum ← liftM (choices document pointer entries)
      let default ← liftM (declaredDefault document unique entries)
      return f enum default : Loading.Action SchemaNode) l = .error e) :
    choices document pointer entries = .error e ∨
      declaredDefault document unique entries = .error e := by
  simp only [bind_eq_error, lift_eq_error] at h
  obtain h | ⟨enum, l₁, -, h | ⟨default, l₂, -, ⟨⟩⟩⟩ := h
  · exact .inl h
  · exact .inr h

theorem readObject_error (hread : ReadGrows read)
    (h : readObject document read pointer entries l = .error e) :
    ObjectFails document read pointer entries l e := by
  have hrest : ∀ {base : SchemaNode} {properties : Option (List (String × Option NodeId))}
      {items : Option NodeId} {l₁ : Loading}, (do
        let enum ← liftM (choices document pointer entries)
        let default ← liftM (declaredDefault document base.unique entries)
        return { base with properties, items, enum, default } : Loading.Action SchemaNode) l₁ =
          .error e → ObjectFails document read pointer entries l e := by
    intro base properties items l₁ h
    obtain h | h := readLiterals_error h
    · exact .choices h
    · exact .default h
  rw [readObject, bind_eq_error] at h
  obtain h | ⟨base, l₀, hlift, h⟩ := h
  · exact .declaration (lift_eq_error.mp h)
  obtain ⟨-, rfl⟩ := lift_eq_ok.mp hlift
  cases hp : Value.entry? "properties" entries with
  | none =>
    simp only [hp, Option.map_none] at h
    rw [bind_eq_error] at h
    obtain ⟨⟨⟩⟩ | ⟨_, l₁, hpure, h⟩ := h
    obtain ⟨-, rfl⟩ := pure_eq_ok.mp hpure
    obtain ⟨w, hw, h⟩ | ⟨items, l₂, h⟩ := readItems_error h
    · exact .inner (.items hw) (.refl _) h
    · exact hrest h
  | some w =>
    simp only [hp, Option.map_some] at h
    cases hc : document.content w
    case mapping es =>
      simp only [hc] at h
      rw [bind_eq_error] at h
      obtain h | ⟨ps, l₁, hps, h⟩ := h
      · obtain ⟨key, u, hm, hkey, rfl⟩ | ⟨name, u, l₁, hm, hg, hu⟩ := readProperties_error hread h
        · exact .key hp hc hm hkey
        · exact .inner (.property hp hc hm) hg hu
      rw [bind_eq_error] at h
      obtain ⟨⟨⟩⟩ | ⟨_, l₂, hpure, h⟩ := h
      obtain ⟨-, rfl⟩ := pure_eq_ok.mp hpure
      obtain ⟨w', hw', h⟩ | ⟨items, l₃, h⟩ := readItems_error h
      · exact .inner (.items hw') (readProperties_grows hread hps) h
      · exact hrest h
    all_goals
      simp only [hc, bind_eq_error] at h
      obtain ⟨⟨⟩⟩ | ⟨_, _, ⟨⟩, -⟩ := h
      exact .properties hp (by simp [hc])

theorem readAt_error {fuel : Nat} {path : List Nat} {chain : List String}
    (h : readAt document (fuel + 1) path chain v pointer l = .error e) :
    l.place? pointer = none ∧ PlaceFails document fuel path chain v pointer l e := by
  rw [readAt, bind_eq_error] at h
  obtain ⟨⟨⟩⟩ | ⟨l₀, l₁, hget, h⟩ := h
  cases hget
  cases hp : l.place? pointer with
  | some known =>
    rw [hp] at h
    cases h
  | none =>
    refine ⟨rfl, ?_⟩
    simp only [hp] at h
    cases hr : reference? (document.content v) with
    | some reference =>
      simp only [hr] at h
      cases reference
      case text reference =>
        simp only at h
        split at h
        · rename_i hself
          cases h
          exact .selfReference hr hself
        · rename_i hself
          rw [not_or] at hself
          simp only [bind_eq_error, lift_eq_error, lift_eq_ok] at h
          obtain h | ⟨target, l₁, ⟨hfollow, rfl⟩, h | ⟨id', l₂, -, ⟨⟨⟩⟩ | ⟨_, l₃, -, ⟨⟩⟩⟩⟩ := h
          · exact .unfollowed hr h
          · exact .target ⟨hr, follow_ok hfollow⟩ hself.1 hself.2 h
      all_goals
        cases h
        exact .referenceKind hr (by rintro _ ⟨⟩)
    | none =>
      simp only [hr] at h
      split at h
      · rename_i hmark
        cases h
        obtain ⟨m, hm, hpath⟩ := List.any_eq_true.mp hmark
        exact .around (Option.mem_toList.mp hm) (by simpa using hpath)
      · simp only [bind_eq_error] at h
        obtain ⟨⟨⟩⟩ | ⟨l₁, _, hget, ⟨⟨⟩⟩ | ⟨_, _, hregister, h⟩⟩ := h
        cases hget
        cases hregister
        cases hc : document.content v
        case mapping entries =>
          rw [hc] at h hr
          simp only [bind_eq_error] at h
          obtain h | ⟨n, l₂, -, ⟨⟨⟩⟩ | ⟨_, l₃, -, ⟨⟩⟩⟩ := h
          exact .object ⟨hc, hr⟩ (readObject_error (readAt_grows _ _ _ _) h)
        all_goals
          rw [hc] at h
          cases h
          have hn : ∀ entries, document.content v ≠ .mapping entries := by simp [hc]
          have hfails : PlaceFails document fuel path chain v pointer l
            (.notObject pointer (document.content v).kindName) := .notObject hn
          rwa [hc] at hfails

end SchemaModel.Schema
