import SchemaModel.Proofs.Schema.Unfolding

/-!
Positions. A position of a schema, or of a tree, is given by the properties and items that lead to
it from the root, the innermost first. The tree that a schema unfolds to has the positions of the
schema, and has at each of them the tree of the node that is there.
-/
namespace SchemaModel.Schema

/-- A step of a schema inwards. -/
inductive Step
  | property (name : String)
  | items
  deriving DecidableEq, Repr

/-- What a node has as its child by a step. -/
def Step.Node (n : SchemaNode) (c : NodeId) : Step → Prop
  | .property name => (name, some c) ∈ n.propertyList
  | .items => n.items = some c

/-- What a tree has below it by a step. -/
def Step.Tree (t u : SchemaTree) : Step → Prop
  | .property name => ∃ own ps items, t = .node own (some ps) items ∧ (name, u) ∈ ps
  | .items => ∃ own properties, t = .node own properties (some u)

/-- The node at a position of a schema. -/
inductive NodeAt (s : Schema) : List Step → NodeId → Prop
  | root : NodeAt s [] s.root
  | step {position id n step c} (h : NodeAt s position id) (hn : s.node? id = some n)
      (hc : Step.Node n c step) : NodeAt s (step :: position) c

/-- The tree at a position of a tree. -/
inductive TreeAt (t : SchemaTree) : List Step → SchemaTree → Prop
  | root : TreeAt t [] t
  | step {position u step w} (h : TreeAt t position u) (hw : Step.Tree u w step) :
      TreeAt t (step :: position) w

variable {s : Schema} {id c : NodeId} {n : SchemaNode} {t u : SchemaTree} {position : List Step}
  {step : Step}

theorem Step.Node.mem_children (h : Step.Node n c step) : c ∈ n.children := by
  cases step with
  | property name => exact mem_children_of_property h
  | items => exact mem_children_of_items h

theorem Step.exists_of_mem_children (h : c ∈ n.children) : ∃ step, Step.Node n c step := by
  rcases List.mem_append.mp h with h | h
  · obtain ⟨⟨name, _⟩, hm, rfl⟩ := List.mem_filterMap.mp h
    exact ⟨.property name, hm⟩
  · have hi : n.items = some c := by simpa using h
    exact ⟨.items, hi⟩

theorem NodeAt.reaches (h : NodeAt s position id) : s.Reaches id := by
  induction h with
  | root => exact .refl
  | step _ hn hc ih => exact ih.tail ⟨_, hn, hc.mem_children⟩

theorem Reaches.exists_position (h : s.Reaches id) : ∃ position, NodeAt s position id := by
  induction h with
  | refl => exact ⟨[], .root⟩
  | tail _ hstep ih =>
    obtain ⟨position, hp⟩ := ih
    obtain ⟨n, hn, hc⟩ := hstep
    obtain ⟨step, hc⟩ := Step.exists_of_mem_children hc
    exact ⟨step :: position, hp.step hn hc⟩

theorem Step.Tree.sizeOf_lt (h : Step.Tree t u step) : sizeOf u < sizeOf t := by
  cases step with
  | property name =>
    obtain ⟨own, ps, items, rfl, hm⟩ := h
    have := List.sizeOf_lt_of_mem hm
    simp at this ⊢
    omega
  | items =>
    obtain ⟨own, properties, rfl⟩ := h
    simp
    omega

theorem UnfoldsAll.exists_tree {qs : List (String × Option NodeId)}
    {ps : List (String × SchemaTree)} (h : s.UnfoldsAll qs ps) {name : String}
    (hm : (name, some c) ∈ qs) : ∃ u, (name, u) ∈ ps ∧ s.Unfolds c u := by
  induction qs generalizing ps with
  | nil => cases hm
  | cons q qs ih =>
    cases h with
    | cons ht hs =>
      rcases List.mem_cons.mp hm with he | hm
      · cases he
        exact ⟨_, List.mem_cons_self, ht⟩
      · obtain ⟨u, hu, ht⟩ := ih hs hm
        exact ⟨u, List.mem_cons_of_mem _ hu, ht⟩

/-- The children of a node unfold to the trees below its tree. -/
theorem Unfolds.exists_below (h : s.Unfolds id t) (hn : s.node? id = some n)
    (hc : Step.Node n c step) : ∃ u, Step.Tree t u step ∧ s.Unfolds c u := by
  cases h with
  | node hn' hproperties hitems =>
    rw [hn] at hn'
    cases hn'
    cases step with
    | property name =>
      rw [Step.Node, SchemaNode.propertyList] at hc
      generalize n.properties = q at hproperties hc
      cases hproperties with
      | none => cases hc
      | some hall =>
        obtain ⟨u, hu, ht⟩ := hall.exists_tree hc
        exact ⟨u, ⟨_, _, _, rfl, hu⟩, ht⟩
    | items =>
      rw [Step.Node] at hc
      rw [hc] at hitems
      cases hitems with
      | some ht => exact ⟨_, ⟨_, _, rfl⟩, ht⟩

/-- The trees below the tree of a node are those of its children. -/
theorem Unfolds.exists_node (h : s.Unfolds id t) (hu : Step.Tree t u step) :
    ∃ n c, s.node? id = some n ∧ Step.Node n c step ∧ s.Unfolds c u := by
  cases h with
  | @node _ n _ _ hn hproperties hitems =>
    cases step with
    | property name =>
      obtain ⟨_, ps, _, ⟨⟩, hm⟩ := hu
      generalize hq : n.properties = q at hproperties
      cases hproperties with
      | some hall =>
        obtain ⟨c, hc, ht⟩ := hall.exists_of_mem hm
        exact ⟨n, c, hn, by rwa [Step.Node, SchemaNode.propertyList, hq], ht⟩
    | items =>
      obtain ⟨_, _, ⟨⟩⟩ := hu
      generalize hi : n.items = i at hitems
      cases hitems with
      | some ht => exact ⟨n, _, hn, hi, ht⟩

theorem Unfolds.exists_child {own : SchemaNode} {properties : Option (List (String × SchemaTree))}
    {items : Option SchemaTree} (h : s.Unfolds id (.node own properties items)) :
    (∀ ps, properties = some ps → ∀ p ∈ ps, ∃ c, s.Child id c ∧ s.Unfolds c p.2) ∧
      ∀ t, items = some t → ∃ c, s.Child id c ∧ s.Unfolds c t := by
  constructor
  · rintro ps rfl p hp
    have hbelow : Step.Tree (.node own (some ps) items) p.2 (.property p.1) := ⟨_, _, _, rfl, hp⟩
    obtain ⟨n, c, hn, hc, hu⟩ := h.exists_node hbelow
    exact ⟨c, ⟨n, hn, hc.mem_children⟩, hu⟩
  · rintro t rfl
    have hbelow : Step.Tree (.node own properties (some t)) t .items := ⟨_, _, rfl⟩
    obtain ⟨n, c, hn, hc, hu⟩ := h.exists_node hbelow
    exact ⟨c, ⟨n, hn, hc.mem_children⟩, hu⟩

/-- Every position of a schema is one of its tree. -/
theorem Unfolds.exists_treeAt (h : s.Unfolds s.root t) (hp : NodeAt s position id) :
    ∃ u, TreeAt t position u ∧ s.Unfolds id u := by
  induction hp with
  | root => exact ⟨t, .root, h⟩
  | step _ hn hc ih =>
    obtain ⟨u, hu, ht⟩ := ih
    obtain ⟨w, hw, ht'⟩ := ht.exists_below hn hc
    exact ⟨w, hu.step hw, ht'⟩

/-- Every position of the tree of a schema is one of the schema. -/
theorem Unfolds.exists_nodeAt (h : s.Unfolds s.root t) (hu : TreeAt t position u) :
    ∃ id, NodeAt s position id ∧ s.Unfolds id u := by
  induction hu with
  | root => exact ⟨s.root, .root, h⟩
  | step _ hw ih =>
    obtain ⟨id, hid, ht⟩ := ih
    obtain ⟨n, c, hn, hc, ht'⟩ := ht.exists_node hw
    exact ⟨c, hid.step hn hc, ht'⟩

/-- What unfolds to a tree does not contain itself, since the trees inwards get smaller. -/
theorem Unfolds.not_transGen (h : s.Unfolds id t) : ¬ Relation.TransGen s.Child id id := by
  have hsmaller : ∀ {c}, Relation.TransGen s.Child id c →
      ∃ u, s.Unfolds c u ∧ sizeOf u < sizeOf t := by
    intro c hc
    induction hc with
    | single hstep =>
      obtain ⟨n, hn, hm⟩ := hstep
      obtain ⟨step, hm⟩ := Step.exists_of_mem_children hm
      obtain ⟨u, hu, ht⟩ := h.exists_below hn hm
      exact ⟨u, ht, hu.sizeOf_lt⟩
    | tail _ hstep ih =>
      obtain ⟨n, hn, hm⟩ := hstep
      obtain ⟨step, hm⟩ := Step.exists_of_mem_children hm
      obtain ⟨u, ht, hlt⟩ := ih
      obtain ⟨w, hw, ht'⟩ := ht.exists_below hn hm
      exact ⟨w, ht', Nat.lt_trans hw.sizeOf_lt hlt⟩
  intro hcycle
  obtain ⟨u, hu, hlt⟩ := hsmaller hcycle
  rw [h.unique hu] at hlt
  exact Nat.lt_irrefl _ hlt

theorem Unfolds.acyclic (h : s.Unfolds s.root t) : s.Acyclic := by
  intro id hid
  obtain ⟨position, hp⟩ := hid.exists_position
  obtain ⟨u, -, hu⟩ := h.exists_treeAt hp
  exact hu.not_transGen

end SchemaModel.Schema
