import SchemaModel.Proofs.Synthesis.Collections
import SchemaModel.Proofs.Synthesis.Elements

/-!
Sets next to lists. The default of a set is that of the list which the same literal declares, less
the elements that are the same as an earlier one. A set looks an element up among those that it kept,
in one of two indexes; among values of one type this finds what a comparison with every earlier
element of the list finds.
-/
namespace SchemaModel

namespace Value

/-- The elements of a list that are the same neither as one of `seen` nor as one before them. -/
def firstsAfter (seen : List Value) : List Value → List Value
  | [] => []
  | x :: xs =>
    if x.isAmong seen then firstsAfter (seen ++ [x]) xs else x :: firstsAfter (seen ++ [x]) xs

/-- The elements of a list that are not the same as an earlier one. -/
def firsts (xs : List Value) : List Value := firstsAfter [] xs

end Value

namespace OrderedSet

open Value

variable {P : Value → Prop}

theorem ofList_concat (xs : List Value) (x : Value) : ofList (xs ++ [x]) = (ofList xs).add x := by
  simp [ofList, addAll]

theorem indexed_ofList (xs : List Value) : (ofList xs).Indexed := by
  induction xs using List.reverseRecOn with
  | nil => exact .empty
  | append_singleton xs x ih =>
    rw [ofList_concat]
    exact ih.add x

/-- A set that is made from values of a class finds what is the same as one of them, although it
keeps only some. -/
theorem contains_ofList_iff (h : CoherentOn P) {seen : List Value} (hseen : ∀ y ∈ seen, P y)
    {x : Value} (hx : P x) : (ofList seen).contains x = true ↔ x.isAmong seen = true := by
  rw [(indexed_ofList seen).contains_iff, isAmong, List.any_eq_true]
  constructor
  · rintro ⟨z, hz, -, hsame⟩
    exact ⟨z, mem_of_mem_ofList hz, hsame⟩
  · rintro ⟨y, hy, hxy⟩
    -- what was seen is kept, or the same as something that is kept
    obtain ⟨z, hz, hyz⟩ := exists_mem_ofList hy
    have hPz := hseen z (mem_of_mem_ofList hz)
    have hxz : x.same z = true := by
      rcases hyz with rfl | hyz
      · exact hxy
      · exact h.trans hx (hseen y hy) hPz hxy hyz
    exact ⟨z, hz, (h.fixed hx hPz hxz).symm, hxz⟩

theorem order_ofList_append (h : CoherentOn P) (seen : List Value) {xs : List Value}
    (hall : ∀ y ∈ seen ++ xs, P y) :
    (ofList (seen ++ xs)).order = (ofList seen).order ++ firstsAfter seen xs := by
  induction xs generalizing seen with
  | nil => simp [firstsAfter]
  | cons x xs ih =>
    rw [List.append_cons] at hall
    have hseen : ∀ y ∈ seen, P y := fun y hy => hall y (by simp [hy])
    have hfound := contains_ofList_iff h hseen (hall x (by simp))
    rw [List.append_cons, ih (seen ++ [x]) hall, ofList_concat, order_add, firstsAfter]
    by_cases hx : x.isAmong seen = true
    · rw [if_pos (hfound.mpr hx), if_pos hx]
    · rw [if_neg (mt hfound.mp hx), if_neg hx, List.append_assoc]
      rfl

/-- A set that is made from values of a class keeps the first of those that are the same. -/
theorem order_ofList (h : CoherentOn P) {xs : List Value} (hall : ∀ x ∈ xs, P x) :
    (ofList xs).order = firsts xs :=
  order_ofList_append h [] hall

end OrderedSet

namespace Synthesis

/-- How the default of a set follows that of a list of the same elements. -/
structure FollowsList (property : String) (element : TargetType) (l : Option Literal) : Prop where
  accepted : (∃ v, synthesize property (.set element) l = .ok v) ↔
    ∃ v, synthesize property (.list element) l = .ok v
  order : ∀ v, synthesize property (.list element) l = .ok v →
    ∃ xs, v = .list xs ∧ synthesize property (.set element) l = .ok (.set (Value.firsts xs))
  /-- Only the error of a literal that is no sequence names the type of the collection. -/
  fault : ∀ e e', synthesize property (.list element) l = .error e →
    synthesize property (.set element) l = .error e' →
    e' = e ∨ ∃ given, l = some given ∧ given ≠ .null ∧ given.items? = none ∧
      e = unfit property (.list element) given .notSequence ∧
      e' = unfit property (.set element) given .notSequence

variable {property : String} {element : TargetType} {l : Option Literal}

theorem FollowsList.of_ok {xs : List Value}
    (hlist : synthesize property (.list element) l = .ok (.list xs))
    (hset : synthesize property (.set element) l = .ok (.set (Value.firsts xs))) :
    FollowsList property element l where
  accepted := ⟨fun _ => ⟨_, hlist⟩, fun _ => ⟨_, hset⟩⟩
  order v hv := by
    rw [hlist] at hv
    cases hv
    exact ⟨xs, rfl, hset⟩
  fault e e' he := by
    rw [hlist] at he
    cases he

theorem FollowsList.of_error {e e' : SynthesisError}
    (hlist : synthesize property (.list element) l = .error e)
    (hset : synthesize property (.set element) l = .error e')
    (hfault : e' = e ∨ ∃ given, l = some given ∧ given ≠ .null ∧ given.items? = none ∧
      e = unfit property (.list element) given .notSequence ∧
      e' = unfit property (.set element) given .notSequence) :
    FollowsList property element l where
  accepted := by simp [hlist, hset]
  order v hv := by
    rw [hlist] at hv
    cases hv
  fault e₁ e₂ he₁ he₂ := by
    rw [hlist] at he₁
    rw [hset] at he₂
    cases he₁
    cases he₂
    exact hfault

/-- The items are converted in the same way for both; the set is made from what they become. -/
theorem followsList_of_items (h : element.isReference = false) {ls : List Literal}
    (hitems : ∀ target, items property target l = .ok ls) : FollowsList property element l := by
  have hlist := synthesize_list property l h
  have hset := synthesize_set property l h
  rw [hitems] at hlist hset
  change _ = (ls.mapM fun item => synthesize property element (some item)).map _ at hlist hset
  cases hmap : ls.mapM fun item => synthesize property element (some item) with
  | error e =>
    rw [hmap] at hlist hset
    exact .of_error hlist hset (.inl rfl)
  | ok xs =>
    rw [hmap] at hlist hset
    have hfits : ∀ x ∈ xs, Fits element x := Fits.of_mapM (Fits.of_synthesize property element) hmap
    refine .of_ok hlist ?_
    rw [hset, ← OrderedSet.order_ofList (Fits.coherentOn element) hfits]
    rfl

/-- The default of a set is found exactly if that of the list is. It holds the elements of the list
in their order, less those that are the same as an earlier one, and fails as the list does. -/
theorem set_follows_list (property : String) (element : TargetType) (l : Option Literal) :
    FollowsList property element l := by
  by_cases h : element.isReference = true
  · have hlist : synthesize property (.list element) l = .ok (.list []) := by
      rw [synthesize, if_pos h]
    have hset : synthesize property (.set element) l = .ok (.set (Value.firsts [])) := by
      rw [synthesize, if_pos h]
      rfl
    exact .of_ok hlist hset
  · rw [Bool.not_eq_true] at h
    rcases items_cases property l with ⟨ls, hitems⟩ | ⟨given, rfl, hgiven, hnone⟩
    · exact followsList_of_items h hitems
    · have hlist := synthesize_list property (some given) h
      have hset := synthesize_set property (some given) h
      rw [items_of_no_sequence hgiven hnone] at hlist hset
      exact .of_error hlist hset (.inr ⟨given, rfl, hgiven, hnone, rfl, rfl⟩)

/-- One integer in three spellings is one element, and so are two lists of the same integers. -/
example : synthesize "p" (.set (.scalar .integer))
      (some (.sequence [.int 1, .text "1", .decimal (.finite false 8556839292003942 (-52)), .int 2])) =
        .ok (.set [.int 1, .int 2]) ∧
    synthesize "p" (.set (.list (.scalar .integer)))
      (some (.sequence [.sequence [.int 1], .sequence [.int 2], .uniqueSequence [.text "1"]])) =
        .ok (.set [.list [.int 1], .list [.int 2]]) := by
  constructor <;> with_unfolding_all rfl

end Synthesis
end SchemaModel
