import SchemaModel.Proofs.Schema.Declarations
import SchemaModel.Proofs.Runs

/-!
What every state of loading satisfies. A pointer is remembered only with the node that stands for
the object its place leads to, so that nodes can be looked up by any pointer to them. Nodes are
registered before they are filled: `pending` lists those that are still to be filled, and all others
declare what their object declares.
-/
namespace SchemaModel.Loading

open Schema Stateful

/-- A node stands for a place if it is remembered under a pointer that leads there. -/
def At (l : Loading) (document : Document) (id : NodeId) (v : Value) : Prop :=
  ∃ pointer, (pointer, id) ∈ l.places ∧ Pointer.resolve document pointer = .ok v

/-- The object that a node is made for. -/
def Source (l : Loading) (document : Document) (id : NodeId) (entries : List (Value × Value)) :
    Prop :=
  ∃ v, l.At document id v ∧ Follows document v entries

/-- No place is forgotten and no node removed. -/
structure Grows (l l' : Loading) : Prop where
  places : l.places ⊆ l'.places
  size : l.nodes.size ≤ l'.nodes.size

/-- The invariant of loading. -/
structure Inv (l : Loading) (document : Document) (pending : List NodeId) : Prop where
  bound : ∀ pointer id, (pointer, id) ∈ l.places → id < l.nodes.size
  /-- Every pointer that is remembered leads to an object. -/
  resolved : ∀ pointer id, (pointer, id) ∈ l.places → ∃ v entries,
    Pointer.resolve document pointer = .ok v ∧ Follows document v entries
  /-- A node is made for one object only. -/
  sourceUnique : ∀ id es fs, l.Source document id es → l.Source document id fs → es = fs
  filled : ∀ id n, l.nodes[id]? = some n → id ∉ pending →
    ∃ entries, l.Source document id entries ∧ Declares document (l.At document) entries n

variable {document : Document} {l l' l'' : Loading} {pending : List NodeId} {pointer : String}
  {id : NodeId} {v : Value} {entries : List (Value × Value)}

theorem Grows.refl (l : Loading) : l.Grows l := ⟨fun _ h => h, Nat.le_refl _⟩

theorem Grows.trans (h : l.Grows l') (h' : l'.Grows l'') : l.Grows l'' :=
  ⟨fun _ hx => h'.places (h.places hx), Nat.le_trans h.size h'.size⟩

theorem Grows.register (l : Loading) (pointer : String) : l.Grows (l.register pointer) :=
  ⟨fun _ hx => List.mem_cons_of_mem _ hx, by simp [Loading.register]⟩

theorem Grows.link (l : Loading) (pointer : String) (id : NodeId) : l.Grows (l.link pointer id) :=
  ⟨fun _ hx => List.mem_cons_of_mem _ hx, Nat.le_refl _⟩

theorem Grows.fill (l : Loading) (id : NodeId) (n : SchemaNode) : l.Grows (l.fill id n) :=
  ⟨fun _ hx => hx, by simp [Loading.fill]⟩

theorem At.after (h : l.At document id v) (hg : l.Grows l') : l'.At document id v := by
  obtain ⟨p, hm, hp⟩ := h
  exact ⟨p, hg.places hm, hp⟩

theorem Source.after (h : l.Source document id entries) (hg : l.Grows l') :
    l'.Source document id entries := by
  obtain ⟨w, hat, hf⟩ := h
  exact ⟨w, hat.after hg, hf⟩

theorem Inv.empty : Inv ⟨#[], []⟩ document pending := by
  constructor <;> simp [Source, At]

/-! ## Steps -/

/-- What is remembered after one more pointer was entered. -/
theorem at_cons {nodes : Array SchemaNode} {w : Value} {new : NodeId}
    (h : At ⟨nodes, (pointer, new) :: l.places⟩ document id w) :
    l.At document id w ∨ (id = new ∧ Pointer.resolve document pointer = .ok w) := by
  obtain ⟨p, hm, hp⟩ := h
  obtain hm | hm := List.mem_cons.mp hm
  · cases hm
    exact .inr ⟨rfl, hp⟩
  · exact .inl ⟨p, hm, hp⟩

theorem Inv.lt_of_at (h : l.Inv document pending) (ha : l.At document id v) :
    id < l.nodes.size := by
  obtain ⟨p, hm, -⟩ := ha
  exact h.bound p id hm

/-- A place gets a new node, which is still to be filled. -/
theorem Inv.register (h : l.Inv document pending) (hv : Pointer.resolve document pointer = .ok v)
    (hf : Follows document v entries) :
    (l.register pointer).Inv document (l.nodes.size :: pending) := by
  have hg := Grows.register l pointer
  have hsource : ∀ id es, (l.register pointer).Source document id es →
      l.Source document id es ∨ (id = l.nodes.size ∧ es = entries) := by
    rintro id es ⟨w, hat, hw⟩
    obtain hat | ⟨rfl, hp⟩ := at_cons hat
    · exact .inl ⟨w, hat, hw⟩
    · rw [hv] at hp
      cases hp
      exact .inr ⟨rfl, hw.unique hf⟩
  -- the new node is behind all others, so no place led to it before
  have hold : ∀ es, ¬ l.Source document l.nodes.size es := by
    rintro es ⟨w, hat, -⟩
    exact Nat.lt_irrefl _ (h.lt_of_at hat)
  refine ⟨?_, ?_, ?_, ?_⟩
  · intro p id hm
    obtain hm | hm := List.mem_cons.mp hm
    · cases hm
      simp [Loading.register]
    · exact Nat.lt_of_lt_of_le (h.bound p id hm) hg.size
  · intro p id hm
    obtain hm | hm := List.mem_cons.mp hm
    · cases hm
      exact ⟨v, entries, hv, hf⟩
    · exact h.resolved p id hm
  · intro id es fs hes hfs
    obtain hes | ⟨rfl, rfl⟩ := hsource id es hes
    · obtain hfs | ⟨rfl, rfl⟩ := hsource id fs hfs
      · exact h.sourceUnique id es fs hes hfs
      · exact absurd hes (hold es)
    · obtain hfs | ⟨-, rfl⟩ := hsource _ fs hfs
      · exact absurd hfs (hold fs)
      · rfl
  · intro id n hn hp
    simp only [List.mem_cons, not_or] at hp
    -- the new node is pending, so this one was there
    have hn' : l.nodes[id]? = some n := by
      simpa [Loading.register, Array.getElem?_push, hp.1] using hn
    obtain ⟨es, hs, hd⟩ := h.filled id n hn' hp.2
    exact ⟨es, hs.after hg, hd.mono fun _ _ hat => hat.after hg⟩

/-- A place from which a reference leads on gets the node of the place it leads to. -/
theorem Inv.link (h : l.Inv document pending) {reference : String} {target : Value}
    (hm : (reference, id) ∈ l.places) (ht : Pointer.resolve document reference = .ok target)
    (hv : Pointer.resolve document pointer = .ok v)
    (hf : ∀ es, Follows document target es → Follows document v es) :
    (l.link pointer id).Inv document pending := by
  have hg := Grows.link l pointer id
  obtain ⟨target', found, ht', hfound⟩ := h.resolved reference id hm
  rw [ht] at ht'
  cases ht'
  have hsource : ∀ id' es, (l.link pointer id).Source document id' es →
      l.Source document id' es := by
    rintro id' es ⟨w, hat, hw⟩
    obtain hat | ⟨rfl, hp⟩ := at_cons hat
    · exact ⟨w, hat, hw⟩
    · rw [hv] at hp
      cases hp
      -- the referring place leads to the object that the node was made from already
      cases hw.unique (hf found hfound)
      exact ⟨target, ⟨reference, hm, ht⟩, hfound⟩
  refine ⟨?_, ?_, ?_, ?_⟩
  · intro p id' hm'
    obtain hm' | hm' := List.mem_cons.mp hm'
    · cases hm'
      exact h.bound reference id hm
    · exact h.bound p id' hm'
  · intro p id' hm'
    obtain hm' | hm' := List.mem_cons.mp hm'
    · cases hm'
      exact ⟨v, found, hv, hf found hfound⟩
    · exact h.resolved p id' hm'
  · exact fun id' es fs hes hfs =>
      h.sourceUnique id' es fs (hsource id' es hes) (hsource id' fs hfs)
  · intro id' n hn hp
    obtain ⟨es, hs, hd⟩ := h.filled id' n hn hp
    exact ⟨es, hs.after hg, hd.mono fun _ _ hat => hat.after hg⟩

/-- A pending node gets what its object declares. -/
theorem Inv.fill (h : l.Inv document (id :: pending)) {n : SchemaNode}
    (hs : l.Source document id entries) (hd : Declares document (l.At document) entries n) :
    (l.fill id n).Inv document pending := by
  have hg := Grows.fill l id n
  refine ⟨?_, h.resolved, h.sourceUnique, ?_⟩
  · exact fun p id' hm => Nat.lt_of_lt_of_le (h.bound p id' hm) hg.size
  · intro id' n' hn hp
    by_cases hid : id' = id
    · subst hid
      simp only [Loading.fill, Array.getElem?_setIfInBounds_self] at hn
      split at hn
      · cases hn
        exact ⟨entries, hs, hd⟩
      · cases hn
    · have hn' : l.nodes[id']? = some n' := by
        simpa [Loading.fill, Array.getElem?_setIfInBounds, Ne.symm hid] using hn
      exact h.filled id' n' hn' (by simp [hid, hp])

end SchemaModel.Loading
