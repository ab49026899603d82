import Mathlib.Data.List.Perm.Subperm
import Mathlib.Logic.Relation

/-!
Ways inwards. A way along steps that never lead back to where they began meets every place once, so
that it is no longer than there are places.
-/
namespace SchemaModel

/-- The places that a way along the steps of `r` met before it came to `id`. -/
structure Ancestors (r : Nat → Nat → Prop) (size : Nat) (path : List Nat) (id : Nat) : Prop where
  nodup : path.Nodup
  bound : ∀ p ∈ path, p < size
  above : ∀ p ∈ path, Relation.TransGen r p id

/-- Steps that lead to lower ranks never lead back. -/
theorem not_transGen_of_rank {α : Type} {r : α → α → Prop} (rank : α → Nat)
    (h : ∀ a b, r a b → rank b < rank a) (a : α) : ¬ Relation.TransGen r a a := by
  have hlt : ∀ {a b}, Relation.TransGen r a b → rank b < rank a := by
    intro a b hab
    induction hab with
    | single hstep => exact h _ _ hstep
    | tail _ hstep ih => exact Nat.lt_trans (h _ _ hstep) ih
  exact fun hcycle => Nat.lt_irrefl _ (hlt hcycle)

/-- There are no more different places than there are places. -/
theorem length_le_of_nodup {size : Nat} {path : List Nat} (hn : path.Nodup)
    (hb : ∀ p ∈ path, p < size) : path.length ≤ size := by
  have hsub : path ⊆ List.range size := fun p hp => List.mem_range.mpr (hb p hp)
  have := (List.subperm_of_subset hn hsub).length_le
  rwa [List.length_range] at this

namespace Ancestors

variable {r : Nat → Nat → Prop} {size id c : Nat} {path : List Nat}

theorem nil (r : Nat → Nat → Prop) (size id : Nat) : Ancestors r size [] id := ⟨.nil, nofun, nofun⟩

theorem not_mem (h : Ancestors r size path id) (hr : ¬ Relation.TransGen r id id) : id ∉ path :=
  fun hm => hr (h.above id hm)

theorem length_le (h : Ancestors r size path id) : path.length ≤ size :=
  length_le_of_nodup h.nodup h.bound

theorem step (h : Ancestors r size path id) (hr : ¬ Relation.TransGen r id id) (hid : id < size)
    (hc : r id c) : Ancestors r size (id :: path) c := by
  refine ⟨List.nodup_cons.mpr ⟨h.not_mem hr, h.nodup⟩, ?_, ?_⟩
  · intro p hp
    rcases List.mem_cons.mp hp with rfl | hp
    · exact hid
    · exact h.bound p hp
  · intro p hp
    rcases List.mem_cons.mp hp with rfl | hp
    · exact .single hc
    · exact (h.above p hp).tail hc

end Ancestors
end SchemaModel
