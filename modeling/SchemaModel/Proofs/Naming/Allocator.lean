import Mathlib.Data.List.Perm.Subperm
import SchemaModel.Naming.Allocator
import SchemaModel.Proofs.Tables

/-!
Ownership of generated names. The allocator always finds a name that nobody else owns: the
candidates for a base are pairwise different, so one more of them than there are taken names cannot
all be taken. From then on the name belongs to its owner for good.
-/
namespace SchemaModel.Naming

namespace Allocator

variable {Owner : Type}

theorem candidate_inj {base : String} {j k : Nat} (h : candidate base j = candidate base k) :
    j = k := by
  have hlist := congrArg String.toList h
  cases j with
  | zero =>
    cases k with
    | zero => rfl
    | succ k => simp [candidate, Nat.toString_eq_repr, Nat.toList_repr, Nat.toDigits_ne_nil] at hlist
  | succ j =>
    cases k with
    | zero => simp [candidate, Nat.toString_eq_repr, Nat.toList_repr, Nat.toDigits_ne_nil] at hlist
    | succ k =>
      simp only [candidate, String.toList_append, List.append_cancel_left_eq,
        Nat.toString_eq_repr, Nat.toList_repr] at hlist
      -- the numbers behind the base are read back from their digits
      have hnum := congrArg (Nat.ofDigitChars 10 · 0) hlist
      simp only [Nat.ofDigitChars_ten_toDigits] at hnum
      omega

theorem owner?_eq_none_iff {a : Allocator Owner} {name : String} :
    a.owner? name = none ↔ name ∉ a.owners.map (·.1) :=
  Tables.lookup_eq_none_iff

/-- More candidates than taken names are not all taken. -/
theorem le_length_of_taken {a : Allocator Owner} {base : String} {n : Nat}
    (h : ∀ j < n, candidate base j ∈ a.owners.map (·.1)) : n ≤ a.owners.length := by
  have hnodup : ((List.range n).map (candidate base)).Nodup :=
    List.Pairwise.map _ (fun _ _ hne h => hne (candidate_inj h)) List.nodup_range
  have hsub : (List.range n).map (candidate base) ⊆ a.owners.map (·.1) := by
    intro name hname
    obtain ⟨j, hj, rfl⟩ := List.mem_map.mp hname
    exact h j (List.mem_range.mp hj)
  simpa using (List.subperm_of_subset hnodup hsub).length_le

variable [DecidableEq Owner]

theorem isFree_iff {a : Allocator Owner} {who : Owner} {name : String} :
    a.isFree who name = true ↔ ∀ o, a.owner? name = some o → o = who := by
  unfold isFree
  cases a.owner? name <;> simp

/-- The search passes over candidates of others only, and ends at a free one unless it has run
through all it may look at. -/
theorem firstFree_spec (a : Allocator Owner) (who : Owner) (base : String) (count k : Nat) :
    k ≤ a.firstFree who base count k ∧
    (∀ j, k ≤ j → j < a.firstFree who base count k → a.isFree who (candidate base j) = false) ∧
    (a.isFree who (candidate base (a.firstFree who base count k)) = true ∨
      a.firstFree who base count k = k + count) := by
  induction count generalizing k with
  | zero => exact ⟨Nat.le_refl k, fun j h1 h2 => absurd h2 (by simp [firstFree]; omega), .inr rfl⟩
  | succ count ih =>
    rw [firstFree]
    by_cases hf : a.isFree who (candidate base k) = true
    · rw [if_pos hf]
      exact ⟨Nat.le_refl k, fun j h1 h2 => by omega, .inl hf⟩
    · rw [if_neg hf]
      obtain ⟨hle, hpassed, hend⟩ := ih (k + 1)
      refine ⟨by omega, fun j h1 h2 => ?_, hend.imp id (by omega)⟩
      by_cases hj : j = k
      · subst hj
        simpa using hf
      · exact hpassed j (by omega) h2

theorem taken_of_not_isFree {a : Allocator Owner} {who : Owner} {name : String}
    (h : a.isFree who name = false) : name ∈ a.owners.map (·.1) := by
  by_contra hn
  rw [← owner?_eq_none_iff] at hn
  simp [isFree, hn] at h

/-- The name that is given out belongs to nobody else. -/
theorem isFree_allocate (a : Allocator Owner) (base : String) (who : Owner) :
    a.isFree who (a.allocate base who).1 = true := by
  obtain ⟨-, hpassed, hfree | hall⟩ := firstFree_spec a who base a.owners.length 0
  · exact hfree
  · -- as many candidates as there are taken names were passed over, so the next one is not taken
    by_contra hn
    have hlast : a.isFree who (candidate base (a.firstFree who base a.owners.length 0)) = false := by
      simpa [allocate] using hn
    have htaken : ∀ j < a.owners.length + 1, candidate base j ∈ a.owners.map (·.1) := by
      intro j hj
      by_cases hjl : j < a.owners.length
      · exact taken_of_not_isFree (hpassed j (by omega) (by omega))
      · have hje : j = a.firstFree who base a.owners.length 0 := by omega
        exact hje ▸ taken_of_not_isFree hlast
    have := le_length_of_taken htaken
    omega

theorem owner?_allocate (a : Allocator Owner) (base : String) (who : Owner) :
    (a.allocate base who).2.owner? (a.allocate base who).1 = some who := by
  have hfree := isFree_iff.mp (isFree_allocate a base who)
  simp only [allocate] at hfree ⊢
  split
  · rename_i ht
    obtain ⟨o, ho⟩ := Option.isSome_iff_exists.mp ht
    rw [ho, hfree o ho]
  · rename_i ht
    have hnone : a.owner? (candidate base (a.firstFree who base a.owners.length 0)) = none := by
      simpa [isTaken] using ht
    simp only [owner?] at hnone ⊢
    rw [List.lookup_append, hnone]
    simp

/-- Only the name that is given out gets an owner. -/
theorem owner?_of_allocate {a : Allocator Owner} {base name : String} {who o : Owner}
    (h : (a.allocate base who).2.owner? name = some o) :
    a.owner? name = some o ∨ (name = (a.allocate base who).1 ∧ o = who) := by
  simp only [allocate] at h ⊢
  split at h
  · exact .inl h
  · simp only [owner?, List.lookup_append, Option.or_eq_some_iff] at h ⊢
    obtain h | ⟨-, h⟩ := h
    · exact .inl h
    · have hm := Tables.mem_of_lookup h
      simp only [List.mem_singleton, Prod.mk.injEq] at hm
      exact .inr hm

/-- The candidates before the name that is given out belong to others. -/
theorem allocate_passes (a : Allocator Owner) (base : String) (who : Owner) :
    ∃ k, (a.allocate base who).1 = candidate base k ∧
      ∀ j < k, ∃ o, o ≠ who ∧ a.owner? (candidate base j) = some o := by
  obtain ⟨-, hpassed, -⟩ := firstFree_spec a who base a.owners.length 0
  refine ⟨_, rfl, fun j hj => ?_⟩
  have hf : ¬ a.isFree who (candidate base j) = true := by
    simp [hpassed j (Nat.zero_le j) hj]
  rw [isFree_iff] at hf
  push Not at hf
  obtain ⟨o, ho, hne⟩ := hf
  exact ⟨o, hne, ho⟩

/-- Names keep their owners. -/
theorem owner?_allocate_of_owner? {a : Allocator Owner} {name : String} {o : Owner}
    (h : a.owner? name = some o) (base : String) (who : Owner) :
    (a.allocate base who).2.owner? name = some o := by
  simp only [allocate]
  split
  · exact h
  · simp only [owner?] at h ⊢
    rw [List.lookup_append, h]
    rfl

end Allocator
end SchemaModel.Naming
