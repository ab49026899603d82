import Mathlib.Data.Finset.Card
import Mathlib.Tactic.Linarith
import SchemaModel.Proofs.Schema.Faults
import SchemaModel.Proofs.Schema.Parts
import SchemaModel.Proofs.Tables

/-!
Loading terminates. Inwards, values get smaller; along references, a chain names each text once; and
where a chain ends, one more of the texts that references can name is remembered. So the steps that
are allowed for a document are never used up, and more of them make no difference.
-/
namespace SchemaModel.Schema

open Stateful

variable {document : Document} {l l' : Loading} {pointer pointer' reference : String}
  {v w : Value} {entries : List (Value × Value)} {path : List Nat} {chain : List String} {fuel : Nat}

/-! ## Values within a document -/

/-- A value from inside of a document, met inside the objects of `path`. -/
structure Within (document : Document) (path : List Nat) (v : Value) : Prop where
  json : v.isJson = true
  held : v.heldTexts ⊆ document.value.heldTexts
  count : Document.count v ≤ Document.count document.value
  apart : v.isApart path = true

theorem Within.mono {path' : List Nat} (h : Within document path v) (hsub : path' ⊆ path) :
    Within document path' v :=
  { h with apart := Value.isApart_mono hsub v h.apart }

theorem count_content (document : Document) (hv : v.isJson = true) :
    Document.count (document.content v) = Document.count v := by
  cases v with
  | again => cases hv
  | _ => rfl

theorem heldTexts_content (document : Document) (hv : v.isJson = true) :
    (document.content v).heldTexts = v.heldTexts := by
  cases v with
  | again => cases hv
  | _ => rfl

theorem Within.content (h : Within document path v) :
    Within document ((Document.mark? v).toList ++ path) (document.content v) where
  json := Document.isJson_content document h.json
  held := by
    rw [heldTexts_content document h.json]
    exact h.held
  count := by
    rw [count_content document h.json]
    exact h.count
  apart := by
    have hv := h.apart
    cases v with
    | again => cases h.json
    | marked m u =>
      rw [Value.isApart, Bool.and_eq_true] at hv
      exact hv.2
    | _ => exact hv

theorem Within.part (h : Within document path v) (hp : Value.Part v w) :
    Within document path w where
  json := hp.isJson h.json
  held := List.Subset.trans hp.heldTexts_subset h.held
  count := Nat.le_trans hp.count_lt.le h.count
  apart := hp.isApart h.apart

/-- Pointers lead to values within the document. -/
theorem Within.resolve (hd : document.IsTree) (hv : Pointer.resolve document pointer = .ok v) :
    Within document [] v := by
  obtain ⟨ts, -, hfold⟩ := Pointer.resolve_ok_iff.mp hv
  refine Fallible.foldlM_keeps (fun u t w hu hstep => ?_)
    ⟨hd.value, fun _ h => h, Nat.le_refl _, hd.apart⟩ hfold
  have hc := hu.content.mono (List.nil_subset _)
  obtain ⟨es, name, he, hw⟩ | ⟨xs, hx, hw⟩ := Pointer.step_ok hstep
  · rw [he] at hc
    exact hc.part (Value.Part.of_entry hw)
  · rw [hx] at hc
    exact hc.part (.item hw)

theorem Within.mark_not_mem (h : Within document path v) {m : Nat}
    (hm : Document.mark? v = some m) : m ∉ path := by
  have hv := h.apart
  cases v with
  | again => cases h.json
  | marked n u =>
    cases hm
    simp only [Value.isApart, Bool.and_eq_true] at hv
    simpa using hv.1
  | _ => cases hm

/-- The children of an object are smaller than it. -/
theorem Within.inner (h : Within document path v) (hc : document.content v = .mapping entries)
    (hi : Inner document pointer entries pointer' w) :
    Within document ((Document.mark? v).toList ++ path) w ∧ Document.count w < Document.count v := by
  have hobject := h.content
  have hcount := count_content document h.json
  rw [hc] at hobject hcount
  cases hi with
  | @property table ps name _ hw hps hu =>
    have hp := Value.Part.of_entry hw
    have htable := hobject.part hp
    have hproperties := htable.content
    have htcount := count_content document htable.json
    rw [hps] at hproperties htcount
    have hchild := Value.Part.entry hu
    have hlt := hp.count_lt
    have hlt' := hchild.count_lt
    refine ⟨(hproperties.part hchild).mono (List.subset_append_right _ _), ?_⟩
    dsimp only at hlt'
    omega
  | items hu =>
    have hp := Value.Part.of_entry hu
    refine ⟨hobject.part hp, ?_⟩
    have := hp.count_lt
    omega

/-! ## The texts of references -/

/-- The texts that a reference of a document can be. -/
def referenceTexts (document : Document) : Finset String := document.value.heldTexts.toFinset

/-- How many of them are left beside those seen. -/
def remaining (document : Document) (seen : List String) : Nat :=
  (referenceTexts document \ seen.toFinset).card

theorem mem_referenceTexts (h : Within document path v)
    (hr : reference? (document.content v) = some (.text reference)) :
    reference ∈ referenceTexts document := by
  obtain ⟨entries, hc, he⟩ := reference?_eq hr
  have hm := Value.mem_heldTexts_of_entry? he
  rw [← hc, heldTexts_content document h.json] at hm
  exact List.mem_toFinset.mpr (h.held hm)

theorem remaining_le (document : Document) (seen : List String) :
    remaining document seen ≤ (referenceTexts document).card :=
  Finset.card_le_card Finset.sdiff_subset

theorem remaining_anti (document : Document) {seen seen' : List String} (h : seen ⊆ seen') :
    remaining document seen' ≤ remaining document seen :=
  Finset.card_le_card (Finset.sdiff_subset_sdiff (Finset.Subset.refl _)
    fun _ ht => List.mem_toFinset.mpr (h (List.mem_toFinset.mp ht)))

theorem remaining_cons_lt {text : String} {seen : List String}
    (ht : text ∈ referenceTexts document) (hn : text ∉ seen) :
    remaining document (text :: seen) < remaining document seen := by
  refine Finset.card_lt_card (Finset.ssubset_iff_of_subset ?_ |>.mpr ⟨text, ?_, ?_⟩)
  · exact Finset.sdiff_subset_sdiff (Finset.Subset.refl _) (by simp)
  · simp [ht, hn]
  · simp

/-- There are at most half as many as values, because each stands behind a key. -/
theorem two_mul_card_referenceTexts_le (document : Document) :
    2 * (referenceTexts document).card ≤ Document.count document.value := by
  have := Value.length_heldTexts document.value
  have := List.toFinset_card_le document.value.heldTexts
  unfold referenceTexts
  omega

/-! ## Enough steps -/

/-- The pointers that are remembered. -/
def known (l : Loading) : List String := l.places.map (·.1)

/-- Steps that suffice until one more of the texts is remembered. -/
def round (document : Document) : Nat :=
  (referenceTexts document).card + Document.count document.value + 1

/-- Steps that suffice for a place: until references lead on from it, or, where a reference led to
it, until they have led through all other texts. -/
def Suffices (document : Document) (l : Loading) (chain : List String) (v : Value) (pointer : String)
    (fuel : Nat) : Prop :=
  remaining document (known l) * round document + (referenceTexts document).card +
      Document.count v < fuel ∨
    pointer ∈ referenceTexts document ∧
      remaining document (known l) * round document + remaining document (pointer :: chain) < fuel

theorem Suffices.target {target : Value} (h : Suffices document l chain v pointer (fuel + 1))
    (hv : Within document path v) (hr : Refers document v reference target)
    (hp : reference ≠ pointer) (hc : reference ∉ chain) :
    Suffices document l (pointer :: chain) target reference fuel := by
  have hm := mem_referenceTexts hv hr.1
  have hlt : remaining document (reference :: pointer :: chain) <
      remaining document (pointer :: chain) := remaining_cons_lt hm (by simp [hp, hc])
  refine .inr ⟨hm, ?_⟩
  obtain h | ⟨-, h⟩ := h
  · have := remaining_le document (pointer :: chain)
    omega
  · omega

theorem Suffices.inner {l₁ : Loading} (h : Suffices document l chain v pointer (fuel + 1))
    (hnew : l.place? pointer = none) (hg : (l.register pointer).Grows l₁)
    (hw : Document.count w ≤ Document.count document.value)
    (hlt : Document.count w < Document.count v) : Suffices document l₁ [] w pointer' fuel := by
  have hknown : pointer :: known l ⊆ known l₁ := by
    have := List.map_subset (·.1) hg.places
    simpa [known, Loading.register] using this
  have hfewer := remaining_anti document hknown
  left
  obtain h | ⟨hm, h⟩ := h
  · have hle := remaining_anti document (List.subset_cons_self pointer (known l))
    have := Nat.mul_le_mul_right (round document) (hfewer.trans hle)
    omega
  · -- the pointer is one of the texts, so that a whole round is left for what is inside
    have hone : remaining document (pointer :: known l) < remaining document (known l) :=
      remaining_cons_lt hm (Tables.lookup_eq_none_iff.mp hnew)
    have hround : round document =
      (referenceTexts document).card + Document.count document.value + 1 := rfl
    have := Nat.mul_le_mul_right (round document) (hfewer.trans_lt hone)
    rw [Nat.succ_mul] at this
    omega

/-- Where the steps suffice, they are not used up. -/
theorem readAt_ne_endless (hd : document.IsTree) (hv : Within document path v)
    (hs : Suffices document l chain v pointer fuel) :
    readAt document fuel path chain v pointer l ≠ .error .endless := by
  induction fuel generalizing path chain v pointer l with
  | zero => obtain hs | ⟨-, hs⟩ := hs <;> cases hs
  | succ fuel ih =>
    intro h
    obtain ⟨hnew, hfails⟩ := readAt_error h
    cases hfails with
    | unfollowed _ he =>
      obtain ⟨cause, -, hcause⟩ := Fallible.mapError_eq_error.mp he
      cases cause <;> cases hcause
    | target hr hp hc h => exact ih (.resolve hd hr.2) (hs.target hv hr hp hc) h
    | around hm hp => exact hv.mark_not_mem hm hp
    | @object entries _ ho h =>
      have hj := Document.entriesJson_of_content hv.json ho.1
      cases h with
      | declaration h =>
        have hfault : ObjectFault document pointer entries .endless := .of_declaration hd.toIsJson h
        cases hfault
      | inner hi hg h =>
        obtain ⟨hw, hlt⟩ := hv.inner ho.1 hi
        exact ih hw (hs.inner hnew hg hw.count hlt) h
      | choices h => nomatch ObjectFault.of_choices hd.toIsJson hj h
      | default h => exact declaredDefault_ne_error hd.toIsJson hj h

theorem suffices_readBound (hd : document.IsTree) :
    Suffices document ⟨#[], []⟩ [] document.value Pointer.root (readBound document) := by
  have hhalf := two_mul_card_referenceTexts_le document
  have hle := remaining_le document (known ⟨#[], []⟩)
  left
  have hsize : document.size = Document.count document.value := by
    simp [Document.size, hd.noObjects]
  unfold readBound round
  rw [hsize]
  generalize (referenceTexts document).card = k at *
  generalize Document.count document.value = n at *
  have := Nat.mul_le_mul_right (k + n + 1) hle
  nlinarith

/-! ## More steps -/

/-- Runs of one reading that end are runs of the other. -/
def Extends (read read' : Value → String → Loading.Action NodeId) : Prop :=
  ∀ v pointer l, read v pointer l ≠ .error .endless → read' v pointer l = read v pointer l

variable {read read' : Value → String → Loading.Action NodeId}

theorem readProperties_extends (h : Extends read read') {es : List (Value × Value)}
    (hne : readProperties read pointer es l ≠ .error .endless) :
    readProperties read' pointer es l = readProperties read pointer es l := by
  induction es generalizing l with
  | nil => rfl
  | cons e es ih =>
    obtain ⟨key, u⟩ := e
    cases key
    case text name =>
      rw [readProperties] at hne
      rw [readProperties, readProperties]
      exact bind_congr (h _ _ _) (fun id l₁ _ => bind_congr ih fun _ _ _ _ => rfl) hne
    all_goals rfl

theorem readItems_extends (h : Extends read read') {next : Option NodeId → Loading.Action SchemaNode}
    (hne : (match Value.entry? "items" entries with
      | none => (pure none : Loading.Action (Option NodeId)) >>= next
      | some w => read w (Pointer.items pointer) >>= fun id => pure (some id) >>= next) l ≠
        .error .endless) :
    (match Value.entry? "items" entries with
      | none => (pure none : Loading.Action (Option NodeId)) >>= next
      | some w => read' w (Pointer.items pointer) >>= fun id => pure (some id) >>= next) l =
    (match Value.entry? "items" entries with
      | none => (pure none : Loading.Action (Option NodeId)) >>= next
      | some w => read w (Pointer.items pointer) >>= fun id => pure (some id) >>= next) l := by
  cases hi : Value.entry? "items" entries with
  | none => rfl
  | some w =>
    simp only [hi] at hne ⊢
    exact bind_congr (h _ _ _) (fun _ _ _ _ => rfl) hne

theorem readObject_extends (h : Extends read read')
    (hne : readObject document read pointer entries l ≠ .error .endless) :
    readObject document read' pointer entries l = readObject document read pointer entries l := by
  rw [readObject] at hne
  rw [readObject, readObject]
  refine bind_congr (fun _ => rfl) (fun base l₀ _ hne => ?_) hne
  cases hp : Value.entry? "properties" entries with
  | none =>
    simp only [hp, Option.map_none] at hne ⊢
    exact bind_congr (fun _ => rfl) (fun _ _ _ => readItems_extends h) hne
  | some w =>
    simp only [hp, Option.map_some] at hne ⊢
    cases hc : document.content w
    case mapping ps =>
      simp only [hc] at hne ⊢
      exact bind_congr (readProperties_extends h) (fun _ _ _ =>
        bind_congr (fun _ => rfl) fun _ _ _ => readItems_extends h) hne
    all_goals rfl

theorem readAt_extends (document : Document) (fuel : Nat) (path : List Nat) (chain : List String) :
    Extends (readAt document fuel path chain) (readAt document (fuel + 1) path chain) := by
  induction fuel generalizing path chain with
  | zero => exact fun v pointer l hne => absurd rfl hne
  | succ fuel ih =>
    intro v pointer l hne
    rw [readAt] at hne
    rw [readAt, readAt]
    refine bind_congr (fun _ => rfl) (fun l₀ l₁ _ hne => ?_) hne
    cases hp : l₀.place? pointer with
    | some known => rfl
    | none =>
      simp only [hp] at hne ⊢
      cases hr : reference? (document.content v) with
      | some reference =>
        simp only [hr] at hne ⊢
        cases reference
        case text reference =>
          simp only at hne ⊢
          split at hne
          · rename_i hself
            rw [if_pos hself, if_pos hself, throw_bind, throw_bind]
          · rename_i hself
            rw [if_neg hself, if_neg hself]
            refine bind_congr (fun _ => rfl) (fun target l₂ _ hne => ?_) hne
            exact bind_congr (ih _ _ _ _ _) (fun _ _ _ _ => rfl) hne
        all_goals rfl
      | none =>
        simp only [hr] at hne ⊢
        split at hne
        · rename_i hmark
          rw [if_pos hmark, if_pos hmark, throw_bind, throw_bind]
        · rename_i hmark
          rw [if_neg hmark, if_neg hmark]
          refine bind_congr (fun _ => rfl) (fun _ _ _ => ?_) hne
          refine bind_congr (fun _ => rfl) fun _ _ _ hne => ?_
          cases hc : document.content v
          case mapping entries =>
            simp only [hc] at hne ⊢
            exact bind_congr (readObject_extends (ih _ _)) (fun _ _ _ _ => rfl) hne
          all_goals rfl

/-- A run that ends does not depend on how many steps are allowed. -/
theorem readAt_of_le {more : Nat} (hle : fuel ≤ more)
    (hne : readAt document fuel path chain v pointer l ≠ .error .endless) :
    readAt document more path chain v pointer l = readAt document fuel path chain v pointer l := by
  induction hle with
  | refl => rfl
  | step _ ih => rw [readAt_extends document _ _ _ _ _ _ (by rwa [ih]), ih]

/-- Loading a tree ends, and it is the same with any number of steps that is large enough. -/
theorem readAt_root (hd : document.IsTree) {more : Nat} (hle : readBound document ≤ more) :
    readAt document more [] [] document.value Pointer.root ⟨#[], []⟩ =
        readAt document (readBound document) [] [] document.value Pointer.root ⟨#[], []⟩ ∧
      readAt document (readBound document) [] [] document.value Pointer.root ⟨#[], []⟩ ≠
        .error .endless := by
  have hne := readAt_ne_endless hd (.resolve hd Pointer.resolve_root) (suffices_readBound hd)
  exact ⟨readAt_of_le hle hne, hne⟩

end SchemaModel.Schema
