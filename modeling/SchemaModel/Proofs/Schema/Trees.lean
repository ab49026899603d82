import SchemaModel.Proofs.Schema.Sharing
import SchemaModel.Proofs.Schema.WriteBack

/-!
Schemas that are trees. A document that was written for a tree of nodes has no references, so that
every position has a place of its own; the pointers to two places differ, and so do the nodes that
are loaded from them (`isTree_of_written`).
-/
namespace SchemaModel.Schema

/-- No node is at two positions. -/
def IsTree (s : Schema) : Prop :=
  ∀ position position' id, NodeAt s position id → NodeAt s position' id → position = position'

variable {s s' : Schema} {id c : NodeId} {n : SchemaNode} {position position' : List Step}
  {t : SchemaTree} {pointer last : String} {v w u : Value} {entries : List (Value × Value)}

/-! ## Positions of a tree -/

/-- Whatever a node leads to is at a position further inwards. -/
theorem NodeAt.exists_inwards (h : NodeAt s position id) (hc : Relation.TransGen s.Child id c) :
    ∃ steps, steps ≠ [] ∧ NodeAt s (steps ++ position) c := by
  induction hc with
  | single hstep =>
    obtain ⟨n, hn, hm⟩ := hstep
    obtain ⟨step, hm⟩ := Step.exists_of_mem_children hm
    exact ⟨[step], List.cons_ne_nil _ _, h.step hn hm⟩
  | tail _ hstep ih =>
    obtain ⟨n, hn, hm⟩ := hstep
    obtain ⟨step, hm⟩ := Step.exists_of_mem_children hm
    obtain ⟨steps, -, hp⟩ := ih
    exact ⟨step :: steps, List.cons_ne_nil _ _, hp.step hn hm⟩

theorem IsTree.acyclic (h : s.IsTree) : s.Acyclic := by
  intro id hid hcycle
  obtain ⟨position, hp⟩ := hid.exists_position
  obtain ⟨steps, hne, hp'⟩ := hp.exists_inwards hcycle
  exact hne (List.self_eq_append_left.mp (h _ _ _ hp hp'))

/-- One node is at a position at most if no two properties of a node have the same name. -/
theorem NodeAt.unique (hs : s.AllKept) {id' : NodeId} (h : NodeAt s position id)
    (h' : NodeAt s position id') : id = id' := by
  induction h generalizing id' with
  | root =>
    cases h'
    rfl
  | @step position id n step c hp hn hc ih =>
    cases h' with
    | step hp' hn' hc' =>
      obtain rfl := ih hp'
      rw [hn] at hn'
      cases hn'
      cases step with
      | property name =>
        have hnames := (hs id hp.reaches n hn).names
        have := List.inj_on_of_nodup_map hnames hc hc' rfl
        cases this
        rfl
      | items =>
        rw [Step.Node] at hc hc'
        rw [hc] at hc'
        exact Option.some.inj hc'

/-- The steps from the nodes of a schema, each with the node that it leads to. -/
def edges (s : Schema) : List ((NodeId × Step) × NodeId) :=
  s.nodes.toList.zipIdx.flatMap fun (n, id) =>
    n.propertyList.filterMap (fun q => q.2.map fun c => ((id, .property q.1), c)) ++
      n.items.toList.map fun c => ((id, .items), c)

theorem mem_edges {step : Step} (hn : s.node? id = some n) (hc : Step.Node n c step) :
    ((id, step), c) ∈ s.edges := by
  refine List.mem_flatMap.mpr ⟨(n, id), ?_, ?_⟩
  · rw [List.mem_zipIdx_iff_getElem?, Array.getElem?_toList]
    exact hn
  · cases step with
    | property name =>
      exact List.mem_append_left _ (List.mem_filterMap.mpr ⟨(name, some c), hc, rfl⟩)
    | items =>
      rw [Step.Node] at hc
      exact List.mem_append_right _ (by simp [hc])

/-- A schema is a tree if no two steps lead to one node, and none to the root. -/
theorem isTree_of_nodup (h : (s.root :: s.edges.map (·.2)).Nodup) : s.IsTree := by
  obtain ⟨hroot, hedges⟩ := List.nodup_cons.mp h
  have hnot : ∀ {id n step}, s.node? id = some n → ¬ Step.Node n s.root step := by
    intro id n step hn hc
    exact hroot (List.mem_map.mpr ⟨_, mem_edges hn hc, rfl⟩)
  intro position position' id hp hp'
  induction hp generalizing position' with
  | root =>
    generalize hid : s.root = id at hp'
    cases hp' with
    | root => rfl
    | step _ hn hc => exact absurd (hid ▸ hc) (hnot hn)
  | @step position id n step c hp hn hc ih =>
    cases hp' with
    | root => exact absurd hc (hnot hn)
    | step hp' hn' hc' =>
      have := List.inj_on_of_nodup_map hedges (mem_edges hn hc) (mem_edges hn' hc') rfl
      cases this
      rw [ih _ hp']

/-! ## Pointers to positions -/

/-- The pointer to a position without references on the way. -/
def pointerAt (position : List Step) : String :=
  position.foldr (fun step pointer => step.below pointer) Pointer.root

/-- The tokens of a step. -/
def Step.tokens : Step → List (List Char)
  | .property name => ["properties".toList, name.toList]
  | .items => ["items".toList]

theorem tokens?_pointerAt (position : List Step) :
    Pointer.tokens? (pointerAt position) = some (position.reverse.flatMap Step.tokens) := by
  induction position with
  | nil => rfl
  | cons step position ih =>
    rw [List.reverse_cons, List.flatMap_append]
    cases step with
    | property name => exact Pointer.tokens?_property name ih
    | items => exact Pointer.tokens?_items ih

/-- The first token tells which step comes first. -/
theorem Step.flatMap_tokens_injective {xs ys : List Step}
    (h : xs.flatMap Step.tokens = ys.flatMap Step.tokens) : xs = ys := by
  have hdiffer : "properties".toList ≠ "items".toList := by decide
  induction xs generalizing ys with
  | nil =>
    cases ys with
    | nil => rfl
    | cons y ys => cases y <;> cases h
  | cons x xs ih =>
    cases ys with
    | nil => cases x <;> cases h
    | cons y ys =>
      rw [List.flatMap_cons, List.flatMap_cons] at h
      cases x with
      | property name =>
        cases y with
        | property name' =>
          simp only [Step.tokens, List.cons_append, List.nil_append, List.cons.injEq,
            true_and] at h
          rw [String.toList_inj.mp h.1, ih h.2]
        | items => exact absurd (List.cons.inj h).1 hdiffer
      | items =>
        cases y with
        | property name' => exact absurd (List.cons.inj h).1.symm hdiffer
        | items => rw [ih (List.cons.inj h).2]

/-- Different positions have different pointers. -/
theorem pointerAt_injective : Function.Injective pointerAt := by
  intro position position' h
  have htokens := tokens?_pointerAt position
  rw [h, tokens?_pointerAt, Option.some.injEq] at htokens
  exact List.reverse_injective (Step.flatMap_tokens_injective htokens.symm)

/-! ## Written documents -/

theorem exists_of_mem_propertyValues {ps : List (String × SchemaTree)} {e : Value × Value}
    (h : e ∈ SchemaTree.propertyValues ps) : ∃ t : SchemaTree, e.2 = t.toValue := by
  induction ps with
  | nil => cases h
  | cons p ps ih =>
    rcases List.mem_cons.mp h with rfl | h
    · exact ⟨p.2, rfl⟩
    · exact ih h

/-- What is written for a tree is an object that is no reference, and what it names was written for
trees. -/
theorem holds_toValue (document : Document) (t : SchemaTree) :
    ∃ entries, Holds document t.toValue entries ∧
      ∀ step u, Step.Place document entries u step → ∃ t' : SchemaTree, u = t'.toValue := by
  cases t with
  | node own properties items =>
    have hw := written own (SchemaTree.propertiesValue properties) (SchemaTree.itemsValue items)
    refine ⟨_, ⟨rfl, hw.reference⟩, fun step u hu => ?_⟩
    cases step with
    | property name =>
      obtain ⟨w, ps, hentry, hps, hm⟩ := hu
      rw [hw.properties] at hentry
      cases properties with
      | none => cases hentry
      | some qs =>
        cases hentry
        cases hps
        exact exists_of_mem_propertyValues hm
    | items =>
      rw [Step.Place, hw.items] at hu
      cases items with
      | none => cases hu
      | some t' =>
        cases hu
        exact ⟨t', rfl⟩

/-- The places of a written document are where they are named. -/
theorem PlaceAt.written {t : SchemaTree} (h : PlaceAt { value := t.toValue } position pointer v) :
    pointer = pointerAt position ∧ ∃ t' : SchemaTree, v = t'.toValue := by
  induction h with
  | root => exact ⟨rfl, t, rfl⟩
  | step _ he ho hc ih =>
    obtain ⟨rfl, t', rfl⟩ := ih
    obtain ⟨es, hes, hinner⟩ := holds_toValue { value := t.toValue } t'
    obtain ⟨rfl, rfl⟩ := he.of_holds hes
    obtain rfl := ho.unique hes
    exact ⟨rfl, hinner _ _ hc⟩

theorem EndsAt.written {t : SchemaTree} (h : EndsAt { value := t.toValue } position last) :
    last = pointerAt position := by
  obtain ⟨pointer, v, w, hp, he⟩ := h
  obtain ⟨rfl, t', rfl⟩ := hp.written
  obtain ⟨es, hes, -⟩ := holds_toValue { value := t.toValue } t'
  exact (he.of_holds hes).1

/-- What is loaded from the document of a tree is a tree. -/
theorem isTree_of_written (hd : Document.IsJson { value := t.toValue })
    (h : Schema.ofValue t.toValue = .ok s) : s.IsTree := by
  obtain ⟨places, hl, hroot⟩ := keeps_ofDocument hd Loading.stepsKeep_housed .empty h
  intro position position' id hp hp'
  obtain ⟨last, hends, hhome⟩ := hp.exists_endsAt hd hl hroot
  obtain ⟨last', hends', hhome'⟩ := hp'.exists_endsAt hd hl hroot
  have hlast : last = last' := (hl.homes _ _ _ _ hhome hhome').mp rfl
  rw [hends.written, hends'.written] at hlast
  exact pointerAt_injective hlast

end SchemaModel.Schema
