import SchemaModel.Proofs.Naming.Allocator

/-!
Allocators over a whole run. The search for a name goes on without a bound until it comes to a name
that no other owner has; it always comes to one, since the taken names are finitely many. Whatever
is asked of an allocator in between, a name stays with its owner, and an owner that asks for the
same base again gets the same name (`lawful_calls`).
-/
namespace SchemaModel.Naming.Allocator

variable {Owner : Type}

/-- Another owner has the name. -/
def Foreign (a : Allocator Owner) (who : Owner) (name : String) : Prop :=
  ∃ o, o ≠ who ∧ a.owner? name = some o

/-- The search for a name, from the name and the number it has come to, with the names that it passes
over counted: it goes on with the next number as long as another owner has the name. -/
inductive Search (a : Allocator Owner) (who : Owner) (base : String) :
    String → Nat → Nat → String → Prop
  | ends {name : String} {number : Nat} (h : ¬ a.Foreign who name) :
      Search a who base name number 0 name
  | passes {name result : String} {number count : Nat} (h : a.Foreign who name)
      (next : Search a who base (base ++ toString (number + 1)) (number + 1) count result) :
      Search a who base name number (count + 1) result

variable {a : Allocator Owner} {who : Owner} {base name result : String} {number count : Nat}

/-- A search has one course at most. -/
theorem Search.unique {count' : Nat} {result' : String}
    (h : Search a who base name number count result)
    (h' : Search a who base name number count' result') : count' = count ∧ result' = result := by
  induction h generalizing count' with
  | ends hend =>
    cases h' with
    | ends => exact ⟨rfl, rfl⟩
    | passes hpass => exact absurd hpass hend
  | passes hpass _ ih =>
    cases h' with
    | ends hend => exact absurd hpass hend
    | passes _ next =>
      obtain ⟨rfl, rfl⟩ := ih next
      exact ⟨rfl, rfl⟩

/-- A search that begins at a candidate passes over the next ones that others have. -/
theorem search_of_foreign {j k : Nat} (hk : j + count = k)
    (hpassed : ∀ i, j ≤ i → i < k → a.Foreign who (candidate base i))
    (hend : ¬ a.Foreign who (candidate base k)) :
    Search a who base (candidate base j) (j + 1) count (candidate base k) := by
  induction count generalizing j with
  | zero =>
    subst hk
    exact .ends hend
  | succ count ih =>
    refine .passes (hpassed j (Nat.le_refl j) (by omega)) ?_
    exact ih (j := j + 1) (by omega) fun i hi hik => hpassed i (by omega) hik

variable [DecidableEq Owner]

theorem not_foreign_of_isFree (h : a.isFree who name = true) : ¬ a.Foreign who name := by
  rintro ⟨o, hne, ho⟩
  exact hne (isFree_iff.mp h o ho)

/-! ## Single calls -/

/-- A call gives the candidate at which its search ends, which passes over no more names than are
taken. -/
theorem exists_search (a : Allocator Owner) (base : String) (who : Owner) :
    ∃ k, k ≤ a.owners.length ∧ (a.allocate base who).1 = candidate base k ∧
      (∀ j < k, a.Foreign who (candidate base j)) ∧
      Search a who base base 1 k (a.allocate base who).1 := by
  obtain ⟨k, hk, hpassed⟩ := allocate_passes a base who
  have hend := not_foreign_of_isFree (isFree_allocate a base who)
  have htaken : ∀ j < k, candidate base j ∈ a.owners.map (·.1) := by
    intro j hj
    obtain ⟨o, -, ho⟩ := hpassed j hj
    exact List.mem_map.mpr ⟨(candidate base j, o), Tables.mem_of_lookup ho, rfl⟩
  refine ⟨k, le_length_of_taken htaken, hk, hpassed, ?_⟩
  rw [hk] at hend ⊢
  exact search_of_foreign (Nat.zero_add k) (fun i _ hi => hpassed i hi) hend

/-- An owner whose candidate comes behind names of others only gets that candidate, and the allocator
stays as it is. -/
theorem allocate_of_owner? {k : Nat} (hpassed : ∀ j < k, a.Foreign who (candidate base j))
    (howner : a.owner? (candidate base k) = some who) :
    a.allocate base who = (candidate base k, a) := by
  have hend : ¬ a.Foreign who (candidate base k) := by
    rintro ⟨o, hne, ho⟩
    rw [howner] at ho
    exact hne (Option.some.inj ho).symm
  obtain ⟨_, -, -, -, hsearch⟩ := exists_search a base who
  have hname := search_of_foreign (Nat.zero_add k) (fun j _ hj => hpassed j hj) hend
  have hresult : (a.allocate base who).1 = candidate base k := (hname.unique hsearch).2
  have htaken : a.isTaken (a.allocate base who).1 = true := by
    rw [hresult, isTaken, howner]
    rfl
  refine Prod.ext hresult ?_
  rw [allocate] at htaken ⊢
  exact if_pos htaken

/-- The name that is given out belongs to the one who asked, and no other name changes its owner. -/
theorem owner?_allocate_eq (a : Allocator Owner) (base : String) (who : Owner) (name : String) :
    (a.allocate base who).2.owner? name =
      if name = (a.allocate base who).1 then some who else a.owner? name := by
  by_cases hname : name = (a.allocate base who).1
  · rw [if_pos hname, hname]
    exact owner?_allocate a base who
  · rw [if_neg hname]
    cases ho : a.owner? name with
    | some o => exact owner?_allocate_of_owner? ho base who
    | none =>
      rw [Option.eq_none_iff_forall_ne_some]
      intro o ho'
      obtain ho' | ⟨he, -⟩ := owner?_of_allocate ho'
      · rw [ho] at ho'
        cases ho'
      · exact hname he

/-- No name is entered twice. -/
theorem nodup_allocate (h : (a.owners.map (·.1)).Nodup) (base : String) (who : Owner) :
    ((a.allocate base who).2.owners.map (·.1)).Nodup := by
  simp only [allocate]
  split
  · exact h
  · rename_i hfree
    have hnone : a.owner? (candidate base (a.firstFree who base a.owners.length 0)) = none := by
      simpa [isTaken] using hfree
    rw [List.map_append, List.nodup_append]
    refine ⟨h, List.nodup_singleton _, ?_⟩
    rintro n hn _ hm rfl
    rw [List.map_singleton, List.mem_singleton] at hm
    rw [hm] at hn
    exact owner?_eq_none_iff.mp hnone hn

/-! ## Runs -/

/-- The allocator after a sequence of calls, each a base with the owner who asks. -/
def run (a : Allocator Owner) (calls : List (String × Owner)) : Allocator Owner :=
  calls.foldl (fun a call => (a.allocate call.1 call.2).2) a

theorem owner?_run {o : Owner} (h : a.owner? name = some o) (calls : List (String × Owner)) :
    (a.run calls).owner? name = some o := by
  induction calls generalizing a with
  | nil => exact h
  | cons call calls ih => exact ih (owner?_allocate_of_owner? h call.1 call.2)

theorem nodup_run (h : (a.owners.map (·.1)).Nodup) (calls : List (String × Owner)) :
    ((a.run calls).owners.map (·.1)).Nodup := by
  induction calls generalizing a with
  | nil => exact h
  | cons call calls ih => exact ih (nodup_allocate h call.1 call.2)

/-- What was passed over is passed over again, whatever was asked in between, and what was given out
belongs to its owner: asking again gives the same name and changes nothing. -/
theorem allocate_run (a : Allocator Owner) (base : String) (who : Owner)
    (calls : List (String × Owner)) :
    ((a.allocate base who).2.run calls).allocate base who =
      ((a.allocate base who).1, (a.allocate base who).2.run calls) := by
  obtain ⟨k, hk, hpassed⟩ := allocate_passes a base who
  have howner := owner?_run (owner?_allocate a base who) calls
  rw [hk] at howner ⊢
  refine allocate_of_owner? (fun j hj => ?_) howner
  obtain ⟨o, hne, ho⟩ := hpassed j hj
  exact ⟨o, hne, owner?_run (owner?_allocate_of_owner? ho base who) calls⟩

/-- What holds of an allocator and of whatever is asked of it. -/
structure Lawful (a : Allocator Owner) : Prop where
  /-- No name is entered twice, so that none belongs to two owners. -/
  once : (a.owners.map (·.1)).Nodup
  /-- The search for a name ends, in one way, at the name that is given out. -/
  searched : ∀ base who, ∃ passed ≤ a.owners.length, ∀ count result,
    Search a who base base 1 count result ↔ count = passed ∧ result = (a.allocate base who).1
  shape : ∀ base who, (a.allocate base who).1 = base ∨
    ∃ number, 2 ≤ number ∧ (a.allocate base who).1 = base ++ toString number
  /-- The name is the first candidate that no other owner has. -/
  first : ∀ base who, ∃ k, (a.allocate base who).1 = candidate base k ∧
    ¬ a.Foreign who (candidate base k) ∧ ∀ j < k, a.Foreign who (candidate base j)
  owned : ∀ base who name, (a.allocate base who).2.owner? name =
    if name = (a.allocate base who).1 then some who else a.owner? name
  /-- A name never changes its owner. -/
  kept : ∀ name o, a.owner? name = some o → ∀ calls, (a.run calls).owner? name = some o
  /-- Asking again gives the same name, whatever was asked in between. -/
  repeats : ∀ base who calls, ((a.allocate base who).2.run calls).allocate base who =
    ((a.allocate base who).1, (a.allocate base who).2.run calls)

theorem lawful_of_nodup (h : (a.owners.map (·.1)).Nodup) : a.Lawful where
  once := h
  searched base who := by
    obtain ⟨k, hle, -, -, hsearch⟩ := exists_search a base who
    refine ⟨k, hle, fun count result => ⟨hsearch.unique, ?_⟩⟩
    rintro ⟨rfl, rfl⟩
    exact hsearch
  shape base who := by
    obtain ⟨k, hk, -⟩ := allocate_passes a base who
    rw [hk]
    cases k with
    | zero => exact .inl rfl
    | succ k => exact .inr ⟨k + 2, Nat.le_add_left 2 k, rfl⟩
  first base who := by
    obtain ⟨k, hk, hpassed⟩ := allocate_passes a base who
    exact ⟨k, hk, hk ▸ not_foreign_of_isFree (isFree_allocate a base who), hpassed⟩
  owned base who name := owner?_allocate_eq a base who name
  kept _ _ ho calls := owner?_run ho calls
  repeats base who calls := allocate_run a base who calls

/-- Whatever has been asked of an allocator, every search ends at the first candidate that no other
owner has, names keep their owners, and who asks again is given the same. -/
theorem lawful_calls (calls : List (String × Owner)) :
    ((empty : Allocator Owner).run calls).Lawful :=
  lawful_of_nodup (nodup_run (a := empty) .nil calls)

/-- A base that ends in a number may be a candidate of another base. -/
example : ((empty : Allocator Nat).run [("Address", 0), ("Address2", 1)]).allocate "Address" 2 =
    ("Address3", ⟨[("Address", 0), ("Address2", 1), ("Address3", 2)]⟩) := by rfl

end SchemaModel.Naming.Allocator
