import SchemaModel.Proofs.Ancestors
import SchemaModel.Schema.Dump

/-!
Schemas unfolded to trees. A node that others share stands in the tree once for each of them, and a
schema in which no node contains itself is written as the document of its tree.
-/
namespace SchemaModel

/-- What a node declares apart from its children. -/
def SchemaNode.own (n : SchemaNode) : SchemaNode := { n with properties := none, items := none }

/-- A tree of nodes. -/
inductive SchemaTree
  | node (own : SchemaNode) (properties : Option (List (String × SchemaTree)))
    (items : Option SchemaTree)

namespace SchemaTree

mutual

/-- The document of a tree. -/
def toValue : SchemaTree → Value
  | .node own properties items =>
    .mapping (Schema.presentEntries
      (Schema.fields own (propertiesValue properties) (itemsValue items)))

def propertiesValue : Option (List (String × SchemaTree)) → Option Value
  | none => none
  | some ps => some (.mapping (propertyValues ps))

def propertyValues : List (String × SchemaTree) → List (Value × Value)
  | [] => []
  | (name, t) :: ps => (.text name, t.toValue) :: propertyValues ps

def itemsValue : Option SchemaTree → Option Value
  | none => none
  | some t => some t.toValue

end

theorem propertiesValue_eq (properties : Option (List (String × SchemaTree))) :
    propertiesValue properties = (properties.map propertyValues).map .mapping := by
  cases properties <;> rfl

theorem itemsValue_eq (items : Option SchemaTree) : itemsValue items = items.map toValue := by
  cases items <;> rfl

/-- What holds of a tree once it holds of the trees below it holds of every tree. -/
theorem below_induction {P : SchemaTree → Prop}
    (h : ∀ own properties items, (∀ ps, properties = some ps → ∀ p ∈ ps, P p.2) →
      (∀ t, items = some t → P t) → P (.node own properties items)) (t : SchemaTree) : P t := by
  match t with
  | .node own properties items =>
    refine h own properties items (fun ps hps p hp => ?_) (fun t ht => ?_)
    · have := List.sizeOf_lt_of_mem hp
      exact below_induction h p.2
    · exact below_induction h t
termination_by sizeOf t
decreasing_by
  · subst hps
    obtain ⟨name, u⟩ := p
    simp at this ⊢
    omega
  · subst ht
    simp
    omega

end SchemaTree

namespace Schema

variable {s : Schema} {id c : NodeId} {n : SchemaNode}

mutual

/-- The tree that a node unfolds to. -/
inductive Unfolds (s : Schema) : NodeId → SchemaTree → Prop
  | node {id : NodeId} {n : SchemaNode} {properties : Option (List (String × SchemaTree))}
      {items : Option SchemaTree} (hn : s.node? id = some n)
      (hproperties : Option.Rel (UnfoldsAll s) n.properties properties)
      (hitems : Option.Rel (Unfolds s) n.items items) :
      Unfolds s id (.node n.own properties items)

/-- The trees of properties, one for each, in their order. -/
inductive UnfoldsAll (s : Schema) :
    List (String × Option NodeId) → List (String × SchemaTree) → Prop
  | nil : UnfoldsAll s [] []
  | cons {name : String} {c : NodeId} {t : SchemaTree} {qs : List (String × Option NodeId)}
      {ps : List (String × SchemaTree)} (h : Unfolds s c t) (hs : UnfoldsAll s qs ps) :
      UnfoldsAll s ((name, some c) :: qs) ((name, t) :: ps)

end

/-- The node at one place points to that at another. -/
def Child (s : Schema) (id c : NodeId) : Prop := ∃ n, s.node? id = some n ∧ c ∈ n.children

/-- The nodes of a schema are those that its root leads to. -/
def Reaches (s : Schema) (id : NodeId) : Prop := Relation.ReflTransGen s.Child s.root id

/-- No node of the schema contains itself. -/
def Acyclic (s : Schema) : Prop := ∀ id, s.Reaches id → ¬ Relation.TransGen s.Child id id

/-- All nodes of a schema are there. -/
def Complete (s : Schema) : Prop :=
  ∀ id, s.Reaches id → ∃ n, s.node? id = some n ∧ ∀ q ∈ n.propertyList, q.2.isSome = true

theorem mem_children_of_property {name : String} (h : (name, some c) ∈ n.propertyList) :
    c ∈ n.children :=
  List.mem_append_left _ (List.mem_filterMap.mpr ⟨_, h, rfl⟩)

theorem mem_children_of_items (h : n.items = some c) : c ∈ n.children :=
  List.mem_append_right _ (by simp [h])

theorem UnfoldsAll.names {qs : List (String × Option NodeId)} {ps : List (String × SchemaTree)}
    (h : s.UnfoldsAll qs ps) : ps.map (·.1) = qs.map (·.1) := by
  induction qs generalizing ps with
  | nil =>
    cases h
    rfl
  | cons q qs ih =>
    cases h with
    | cons _ hs => rw [List.map_cons, List.map_cons, ih hs]

/-- Every tree is that of a property. -/
theorem UnfoldsAll.exists_of_mem {qs : List (String × Option NodeId)}
    {ps : List (String × SchemaTree)} (h : s.UnfoldsAll qs ps) {p : String × SchemaTree}
    (hp : p ∈ ps) : ∃ c, (p.1, some c) ∈ qs ∧ s.Unfolds c p.2 := by
  induction ps generalizing qs with
  | nil => cases hp
  | cons p' ps ih =>
    cases h with
    | cons h hs =>
      rcases List.mem_cons.mp hp with rfl | hp
      · exact ⟨_, List.mem_cons_self, h⟩
      · obtain ⟨c, hc, ht⟩ := ih hs hp
        exact ⟨c, List.mem_cons_of_mem _ hc, ht⟩

theorem UnfoldsAll.unique {qs : List (String × Option NodeId)} {ps ps' : List (String × SchemaTree)}
    (ih : ∀ p ∈ ps, ∀ c t, s.Unfolds c p.2 → s.Unfolds c t → t = p.2) (h : s.UnfoldsAll qs ps)
    (h' : s.UnfoldsAll qs ps') : ps' = ps := by
  induction ps generalizing qs ps' with
  | nil =>
    cases h
    cases h'
    rfl
  | cons p ps ihps =>
    rw [List.forall_mem_cons] at ih
    cases h with
    | cons ht hs =>
      cases h' with
      | cons ht' hs' => rw [ihps ih.2 hs hs', ih.1 _ _ ht ht']

/-- A node unfolds to one tree at most. -/
theorem Unfolds.unique {t t' : SchemaTree} (h : s.Unfolds id t) (h' : s.Unfolds id t') :
    t' = t := by
  induction t using SchemaTree.below_induction generalizing id t' with
  | h own properties items ihp ihi =>
    cases h with
    | @node _ n _ _ hn hp hi =>
      cases h' with
      | @node _ n' properties' items' hn' hp' hi' =>
        rw [hn] at hn'
        cases hn'
        have hproperties : properties' = properties := by
          generalize n.properties = q at hp hp'
          cases hp with
          | none =>
            cases hp'
            rfl
          | @some _ ps hall =>
            cases hp' with
            | some hall' =>
              rw [hall.unique (fun p hmem c t hu hu' => ihp ps rfl p hmem hu hu') hall']
        have hitems : items' = items := by
          generalize n.items = i at hi hi'
          cases hi with
          | none =>
            cases hi'
            rfl
          | @some _ t ht =>
            cases hi' with
            | some ht' => rw [ihi t rfl ht ht']
        rw [hproperties, hitems]

/-! ## Writing -/

variable {write : NodeId → Except DumpError Value}

theorem writeProperties_ok {qs : List (String × Option NodeId)}
    (h : ∀ q ∈ qs, ∃ c t, q.2 = some c ∧ s.Unfolds c t ∧ write c = .ok t.toValue) :
    ∃ ps, s.UnfoldsAll qs ps ∧
      writeProperties write qs = .ok (SchemaTree.propertyValues ps) := by
  induction qs with
  | nil => exact ⟨[], .nil, rfl⟩
  | cons q qs ih =>
    rw [List.forall_mem_cons] at h
    obtain ⟨⟨c, t, hc, ht, hw⟩, hqs⟩ := h
    obtain ⟨ps, hps, hwrite⟩ := ih hqs
    obtain ⟨name, _⟩ := q
    cases hc
    refine ⟨(name, t) :: ps, .cons ht hps, ?_⟩
    rw [writeProperties, hw, hwrite]
    rfl

/-- A node is written as the document of its tree once its children are. -/
theorem writeNode_ok (hn : s.node? id = some n) (hwhole : ∀ q ∈ n.propertyList, q.2.isSome = true)
    (h : ∀ c ∈ n.children, ∃ t, s.Unfolds c t ∧ write c = .ok t.toValue) :
    ∃ t, s.Unfolds id t ∧ writeNode write n = .ok t.toValue := by
  have hproperties : ∃ properties, Option.Rel s.UnfoldsAll n.properties properties ∧
      n.properties.mapM (writeProperties write) =
        .ok (properties.map SchemaTree.propertyValues) := by
    cases hp : n.properties with
    | none => exact ⟨none, .none, rfl⟩
    | some qs =>
      have hlist : n.propertyList = qs := by rw [SchemaNode.propertyList, hp, Option.getD_some]
      have hall : ∀ q ∈ qs, ∃ c t, q.2 = some c ∧ s.Unfolds c t ∧ write c = .ok t.toValue := by
        rintro ⟨name, child⟩ hq
        rw [← hlist] at hq
        obtain ⟨c, rfl⟩ := Option.isSome_iff_exists.mp (hwhole _ hq)
        obtain ⟨t, ht, hwt⟩ := h c (mem_children_of_property hq)
        exact ⟨c, t, rfl, ht, hwt⟩
      obtain ⟨ps, hps, hw⟩ := writeProperties_ok hall
      refine ⟨some ps, .some hps, ?_⟩
      rw [Option.mapM_some, hw]
      rfl
  have hitems : ∃ items, Option.Rel s.Unfolds n.items items ∧
      n.items.mapM write = .ok (items.map SchemaTree.toValue) := by
    cases hi : n.items with
    | none => exact ⟨none, .none, rfl⟩
    | some c =>
      obtain ⟨t, ht, hw⟩ := h c (mem_children_of_items hi)
      refine ⟨some t, .some ht, ?_⟩
      rw [Option.mapM_some, hw]
      rfl
  obtain ⟨properties, hproperties, hwp⟩ := hproperties
  obtain ⟨items, hitems, hwi⟩ := hitems
  refine ⟨_, .node hn hproperties hitems, ?_⟩
  rw [writeNode, hwp, hwi, SchemaTree.toValue, SchemaTree.propertiesValue_eq,
    SchemaTree.itemsValue_eq]
  cases properties <;> rfl

theorem writeFrom_ok (hs : s.Acyclic) (hwhole : s.Complete) {fuel : Nat} {path : List NodeId}
    (hid : s.Reaches id) (h : Ancestors s.Child s.nodes.size path id)
    (hfuel : fuel + path.length = s.nodes.size + 1) :
    ∃ t, s.Unfolds id t ∧ s.writeFrom fuel path id = .ok t.toValue := by
  induction fuel generalizing path id with
  | zero =>
    -- the nodes around are distinct, so there are no more of them than the table has
    have := h.length_le
    omega
  | succ fuel ih =>
    obtain ⟨n, hn, hsome⟩ := hwhole id hid
    rw [writeFrom, if_neg (h.not_mem (hs id hid)), hn]
    refine writeNode_ok hn hsome fun c hc => ?_
    have hstep : s.Child id c := ⟨n, hn, hc⟩
    refine ih (hid.tail hstep) (h.step (hs id hid) (Array.getElem?_eq_some_iff.mp hn).1 hstep) ?_
    rw [List.length_cons]
    omega

/-- A schema in which no node contains itself is written as the document of its tree. -/
theorem toValue_ok (hs : s.Acyclic) (hwhole : s.Complete) :
    ∃ t, s.Unfolds s.root t ∧ s.toValue = .ok t.toValue :=
  writeFrom_ok hs hwhole .refl (.nil ..) rfl

end Schema
end SchemaModel
