import SchemaModel.Proofs.Runs
import SchemaModel.Proofs.Schema.Positions

/-!
Cycles are found. A schema is written on along all its paths at once, and a node is refused if it is
being written around itself. That ends for every schema, however its nodes point to each other: the
nodes around are distinct. It ends with an error if a node that the root leads to lies on a cycle,
and with the document of the whole tree if none does (`finds_cycles`).
-/
namespace SchemaModel.Schema

/-- The course of writing a node inside the nodes of a path, without a limit to its depth: what ends
with `write` for every child ends with the document of the node. -/
inductive Writing (s : Schema) : List NodeId → NodeId → Except DumpError Value → Prop
  | met {path id} (h : id ∈ path) : Writing s path id (.error .recursive)
  | missing {path id} (h : id ∉ path) (hn : s.node? id = none) :
      Writing s path id (.error .missingNode)
  | node {path id n write} (h : id ∉ path) (hn : s.node? id = some n)
      (hc : ∀ c ∈ n.children, Writing s (id :: path) c (write c)) :
      Writing s path id (writeNode write n)

variable {s : Schema} {id : NodeId} {n : SchemaNode} {path : List NodeId} {fuel : Nat}
  {write write' : NodeId → Except DumpError Value} {r r' : Except DumpError Value} {e : DumpError}
  {v : Value}

/-! ## One course, and an end -/

theorem writeProperties_congr {ps : List (String × Option NodeId)}
    (h : ∀ name c, (name, some c) ∈ ps → write c = write' c) :
    writeProperties write ps = writeProperties write' ps := by
  induction ps with
  | nil => rfl
  | cons p ps ih =>
    obtain ⟨name, _ | c⟩ := p
    · rfl
    · rw [writeProperties, writeProperties, h name c List.mem_cons_self,
        ih fun name' c' hm => h name' c' (List.mem_cons_of_mem _ hm)]

/-- A node is written with what its children are written as. -/
theorem writeNode_congr (h : ∀ c ∈ n.children, write c = write' c) :
    writeNode write n = writeNode write' n := by
  have hproperties : n.properties.mapM (writeProperties write) =
      n.properties.mapM (writeProperties write') := by
    cases hp : n.properties with
    | none => rfl
    | some ps =>
      rw [Option.mapM_some, Option.mapM_some, writeProperties_congr fun name c hm => ?_]
      have hmem : (name, some c) ∈ n.propertyList := by rwa [SchemaNode.propertyList, hp]
      exact h c (mem_children_of_property hmem)
  have hitems : n.items.mapM write = n.items.mapM write' := by
    cases hi : n.items with
    | none => rfl
    | some c => rw [Option.mapM_some, Option.mapM_some, h c (mem_children_of_items hi)]
  rw [writeNode, writeNode, hproperties, hitems]

theorem Writing.unique (h : Writing s path id r) (h' : Writing s path id r') : r' = r := by
  induction h generalizing r' with
  | met hm =>
    cases h' with
    | met => rfl
    | missing hm' | node hm' => exact absurd hm hm'
  | missing hm hn =>
    cases h' with
    | met hm' => exact absurd hm' hm
    | missing => rfl
    | node _ hn' =>
      rw [hn] at hn'
      cases hn'
  | node hm hn _ ih =>
    cases h' with
    | met hm' => exact absurd hm' hm
    | missing _ hn' =>
      rw [hn] at hn'
      cases hn'
    | node _ hn' hc' =>
      rw [hn] at hn'
      cases hn'
      exact writeNode_congr fun c hc => ih c hc (hc' c hc)

/-- The limit is never reached, since the nodes around are distinct. -/
theorem writing_writeFrom (hpath : path.Nodup) (hb : ∀ p ∈ path, p < s.nodes.size)
    (hfuel : fuel + path.length = s.nodes.size + 1) :
    Writing s path id (s.writeFrom fuel path id) := by
  induction fuel generalizing path id with
  | zero =>
    have := length_le_of_nodup hpath hb
    omega
  | succ fuel ih =>
    rw [writeFrom]
    by_cases hm : id ∈ path
    · rw [if_pos hm]
      exact .met hm
    · rw [if_neg hm]
      cases hn : s.node? id with
      | none => exact .missing hm hn
      | some n =>
        have hid : id < s.nodes.size := (Array.getElem?_eq_some_iff.mp hn).1
        refine .node hm hn fun c _ => ih (List.nodup_cons.mpr ⟨hm, hpath⟩) ?_ ?_
        · exact List.forall_mem_cons.mpr ⟨hid, hb⟩
        · rw [List.length_cons]
          omega

theorem writing_iff : Writing s [] s.root r ↔ r = s.toValue := by
  have hwriting : Writing s [] s.root s.toValue := writing_writeFrom .nil (by simp) rfl
  constructor
  · exact hwriting.unique
  · rintro rfl
    exact hwriting

/-! ## What is written is a tree -/

theorem unfoldsAll_of_writeProperties {qs : List (String × Option NodeId)}
    {es : List (Value × Value)}
    (h : ∀ name c, (name, some c) ∈ qs → ∀ v, write c = .ok v → ∃ t, s.Unfolds c t ∧ v = t.toValue)
    (hw : writeProperties write qs = .ok es) :
    ∃ ps, s.UnfoldsAll qs ps ∧ es = SchemaTree.propertyValues ps := by
  induction qs generalizing es with
  | nil =>
    cases hw
    exact ⟨[], .nil, rfl⟩
  | cons q qs ih =>
    obtain ⟨name, _ | c⟩ := q
    · cases hw
    · rw [writeProperties] at hw
      obtain ⟨v, hv, hw⟩ := Fallible.bind_eq_ok.mp hw
      obtain ⟨rest, hrest, hw⟩ := Fallible.bind_eq_ok.mp hw
      cases hw
      obtain ⟨t, ht, rfl⟩ := h name c List.mem_cons_self v hv
      obtain ⟨ps, hps, rfl⟩ := ih (fun name' c' hm => h name' c' (List.mem_cons_of_mem _ hm)) hrest
      exact ⟨(name, t) :: ps, .cons ht hps, rfl⟩

theorem unfolds_of_writeNode (hn : s.node? id = some n)
    (h : ∀ c ∈ n.children, ∀ v, write c = .ok v → ∃ t, s.Unfolds c t ∧ v = t.toValue)
    (hw : writeNode write n = .ok v) : ∃ t, s.Unfolds id t ∧ v = t.toValue := by
  obtain ⟨properties, hp, hw⟩ := Fallible.bind_eq_ok.mp hw
  obtain ⟨items, hi, hw⟩ := Fallible.bind_eq_ok.mp hw
  cases hw
  have hproperties : ∃ ps, Option.Rel s.UnfoldsAll n.properties ps ∧
      properties = ps.map SchemaTree.propertyValues := by
    cases hq : n.properties with
    | none =>
      rw [hq] at hp
      cases hp
      exact ⟨none, .none, rfl⟩
    | some qs =>
      rw [hq, Option.mapM_some] at hp
      obtain ⟨es, hes, rfl⟩ := Fallible.map_eq_ok.mp hp
      have hlist : n.propertyList = qs := by rw [SchemaNode.propertyList, hq, Option.getD_some]
      obtain ⟨ps, hps, rfl⟩ := unfoldsAll_of_writeProperties
        (fun name c hm => h c (mem_children_of_property (hlist ▸ hm))) hes
      exact ⟨some ps, .some hps, rfl⟩
  have hitems : ∃ t, Option.Rel s.Unfolds n.items t ∧ items = t.map SchemaTree.toValue := by
    cases hc : n.items with
    | none =>
      rw [hc] at hi
      cases hi
      exact ⟨none, .none, rfl⟩
    | some c =>
      rw [hc, Option.mapM_some] at hi
      obtain ⟨v, hv, rfl⟩ := Fallible.map_eq_ok.mp hi
      obtain ⟨t, ht, rfl⟩ := h c (mem_children_of_items hc) v hv
      exact ⟨some t, .some ht, rfl⟩
  obtain ⟨ps, hps, rfl⟩ := hproperties
  obtain ⟨t, ht, rfl⟩ := hitems
  refine ⟨_, .node hn hps ht, ?_⟩
  rw [SchemaTree.toValue, SchemaTree.propertiesValue_eq, SchemaTree.itemsValue_eq]
  cases ps <;> rfl

theorem unfolds_of_writeFrom (h : s.writeFrom fuel path id = .ok v) :
    ∃ t, s.Unfolds id t ∧ v = t.toValue := by
  induction fuel generalizing path id v with
  | zero => cases h
  | succ fuel ih =>
    rw [writeFrom] at h
    split at h
    · cases h
    · split at h
      · cases h
      · rename_i n hn
        exact unfolds_of_writeNode hn (fun c _ v hv => ih hv) h

/-! ## Errors -/

theorem writeProperties_error {qs : List (String × Option NodeId)}
    (hsome : ∀ q ∈ qs, q.2.isSome = true) (h : writeProperties write qs = .error e) :
    ∃ name c, (name, some c) ∈ qs ∧ write c = .error e := by
  induction qs with
  | nil => cases h
  | cons q qs ih =>
    rw [List.forall_mem_cons] at hsome
    obtain ⟨name, _ | c⟩ := q
    · cases hsome.1
    · rw [writeProperties] at h
      rcases Fallible.bind_eq_error.mp h with h | ⟨v, -, h⟩
      · exact ⟨name, c, List.mem_cons_self, h⟩
      · rcases Fallible.bind_eq_error.mp h with h | ⟨rest, -, h⟩
        · obtain ⟨name', c', hm, hc⟩ := ih hsome.2 h
          exact ⟨name', c', List.mem_cons_of_mem _ hm, hc⟩
        · cases h

/-- A node is refused with the error of a child. -/
theorem writeNode_error (hsome : ∀ q ∈ n.propertyList, q.2.isSome = true)
    (h : writeNode write n = .error e) : ∃ c ∈ n.children, write c = .error e := by
  rcases Fallible.bind_eq_error.mp h with h | ⟨properties, -, h⟩
  · cases hq : n.properties with
    | none =>
      rw [hq] at h
      cases h
    | some qs =>
      have hlist : n.propertyList = qs := by rw [SchemaNode.propertyList, hq, Option.getD_some]
      rw [hq, Option.mapM_some] at h
      obtain ⟨name, c, hm, hc⟩ := writeProperties_error (hlist ▸ hsome) (Fallible.map_eq_error.mp h)
      exact ⟨c, mem_children_of_property (hlist ▸ hm), hc⟩
  · rcases Fallible.bind_eq_error.mp h with h | ⟨items, -, h⟩
    · cases hi : n.items with
      | none =>
        rw [hi] at h
        cases h
      | some c =>
        rw [hi, Option.mapM_some] at h
        exact ⟨c, mem_children_of_items hi, Fallible.map_eq_error.mp h⟩
    · cases h

theorem eq_recursive_of_writeFrom (hwhole : s.Complete) (hid : s.Reaches id)
    (h : s.writeFrom fuel path id = .error e) : e = .recursive := by
  induction fuel generalizing path id with
  | zero =>
    cases h
    rfl
  | succ fuel ih =>
    rw [writeFrom] at h
    split at h
    · cases h
      rfl
    · obtain ⟨n, hn, hsome⟩ := hwhole id hid
      rw [hn] at h
      obtain ⟨c, hc, herror⟩ := writeNode_error hsome h
      exact ih (hid.tail ⟨n, hn, hc⟩) herror

/-! ## Cycles -/

/-- A node that the root leads to lies on a cycle. -/
def Cyclic (s : Schema) : Prop := ∃ id, s.Reaches id ∧ Relation.TransGen s.Child id id

/-- Writing a schema finds its cycles and nothing else. -/
structure FindsCycles (s : Schema) : Prop where
  /-- Writing ends, in one way, with the result. -/
  ends : ∀ r, Writing s [] s.root r ↔ r = s.toValue
  refused : s.Cyclic → s.toValue = .error .recursive
  written : ¬ s.Cyclic → ∃ t, s.Unfolds s.root t ∧ s.toValue = .ok t.toValue
  /-- A node is written once for each path that leads to it. -/
  positions : ∀ t, s.Unfolds s.root t →
    (∀ position id, NodeAt s position id → ∃ u, TreeAt t position u ∧ s.Unfolds id u) ∧
    ∀ position u, TreeAt t position u → ∃ id, NodeAt s position id ∧ s.Unfolds id u

/-- If no property is without a node, writing finds cycles exactly: nodes on a cycle are refused,
however far they are from the root, and nodes that are shared only are written. -/
theorem finds_cycles (hwhole : s.Complete) : s.FindsCycles where
  ends _ := writing_iff
  refused := by
    rintro ⟨id, hid, hcycle⟩
    cases hw : s.toValue with
    | ok v =>
      obtain ⟨t, ht, -⟩ := unfolds_of_writeFrom hw
      exact absurd hcycle (ht.acyclic id hid)
    | error e => rw [eq_recursive_of_writeFrom hwhole .refl hw]
  written hcyclic := toValue_ok (fun id hid hcycle => hcyclic ⟨id, hid, hcycle⟩) hwhole
  positions _ ht := ⟨fun _ _ hp => ht.exists_treeAt hp, fun _ _ hu => ht.exists_nodeAt hu⟩

theorem complete_of_table (hroot : s.root < s.nodes.size)
    (h : ∀ n ∈ s.nodes.toList, (∀ q ∈ n.propertyList, q.2.isSome = true) ∧
      ∀ c ∈ n.children, c < s.nodes.size) : s.Complete := by
  have hmem : ∀ {id n}, s.node? id = some n → n ∈ s.nodes.toList := by
    intro id n hn
    exact Array.mem_toList_iff.mpr (Array.mem_of_getElem? hn)
  intro id hid
  have hlt : id < s.nodes.size := by
    cases hid.cases_tail with
    | inl heq => exact heq ▸ hroot
    | inr hstep =>
      obtain ⟨p, -, n, hn, hc⟩ := hstep
      exact (h n (hmem hn)).2 id hc
  have hn : s.node? id = some s.nodes[id] := Array.getElem?_eq_getElem hlt
  exact ⟨s.nodes[id], hn, (h _ (hmem hn)).1⟩

/-- Two arrays that share the node of their items. -/
def diamond : Schema :=
  .ofNodes [{ properties := some [("left", some 1), ("right", some 2)] },
    { kind := .text "array", items := some 3 }, { kind := .text "array", items := some 3 },
    { kind := .text "string" }]

theorem finds_cycles_diamond : diamond.Complete ∧ diamond.FindsCycles := by
  have hwhole : diamond.Complete := complete_of_table (by decide) (by decide)
  exact ⟨hwhole, finds_cycles hwhole⟩

example : (Schema.ofNodes [{ items := some 1 },
    { properties := some [("next", some 1)] }]).toValue = .error .recursive := by rfl

end SchemaModel.Schema
