import SchemaModel.Demo
import SchemaModel.Proofs.Generation.Renaming
import SchemaModel.Proofs.Schema.Trees

/-!
Generation from schemas that were written and loaded again. The nodes are other nodes, at other
places of the table, but if the schema is a tree, those at one position are partners, so that what
is generated is the same (`generates_again`).
-/
namespace SchemaModel

namespace Schema

variable {s s' : Schema} {t : SchemaTree}

/-- The nodes of two schemas that are at one position and unfold to one tree. -/
def SamePosition (s s' : Schema) (id id' : NodeId) : Prop :=
  ∃ position u, NodeAt s position id ∧ NodeAt s' position id' ∧ s.Unfolds id u ∧ s'.Unfolds id' u

/-- Items that unfold to one tree have partners if their nodes have. -/
theorem rel_of_unfolds {R : NodeId → NodeId → Prop} {items items' : Option NodeId}
    {u : Option SchemaTree} (h : Option.Rel s.Unfolds items u) (h' : Option.Rel s'.Unfolds items' u)
    (hR : ∀ c c' w, items = some c → items' = some c' → s.Unfolds c w → s'.Unfolds c' w → R c c') :
    Option.Rel R items items' := by
  cases h with
  | none =>
    cases h'
    exact .none
  | some hw =>
    cases h' with
    | some hw' => exact .some (hR _ _ _ rfl rfl hw hw')

theorem UnfoldsAll.forall₂ {R : NodeId → NodeId → Prop} {qs qs' : List (String × Option NodeId)}
    {ps : List (String × SchemaTree)} (h : s.UnfoldsAll qs ps) (h' : s'.UnfoldsAll qs' ps)
    (hR : ∀ name c c' w, (name, some c) ∈ qs → (name, some c') ∈ qs' → s.Unfolds c w →
      s'.Unfolds c' w → R c c') :
    List.Forall₂ (fun q q' => q'.1 = q.1 ∧ Option.Rel R q.2 q'.2) qs qs' := by
  induction ps generalizing qs qs' with
  | nil =>
    cases h
    cases h'
    exact .nil
  | cons p ps ih =>
    cases h with
    | cons hw hs =>
      cases h' with
      | cons hw' hs' =>
        refine .cons ⟨rfl, .some ?_⟩ (ih hs hs' fun name c c' w hc hc' => ?_)
        · exact hR _ _ _ _ List.mem_cons_self List.mem_cons_self hw hw'
        · exact hR name c c' w (List.mem_cons_of_mem _ hc) (List.mem_cons_of_mem _ hc')

/-- Properties that unfold to the same trees have partners if their nodes have. -/
theorem forall₂_of_unfolds {R : NodeId → NodeId → Prop} {n n' : SchemaNode}
    {ps : Option (List (String × SchemaTree))} (h : Option.Rel s.UnfoldsAll n.properties ps)
    (h' : Option.Rel s'.UnfoldsAll n'.properties ps)
    (hR : ∀ name c c' w, (name, some c) ∈ n.propertyList → (name, some c') ∈ n'.propertyList →
      s.Unfolds c w → s'.Unfolds c' w → R c c') :
    List.Forall₂ (fun q q' => q'.1 = q.1 ∧ Option.Rel R q.2 q'.2) n.propertyList
      n'.propertyList := by
  rw [SchemaNode.propertyList, SchemaNode.propertyList] at hR ⊢
  generalize n.properties = q at h hR ⊢
  generalize n'.properties = q' at h' hR ⊢
  cases h with
  | none =>
    cases h'
    exact .nil
  | some hall =>
    cases h' with
    | some hall' => exact hall.forall₂ hall' hR

/-- Two trees of nodes that unfold to one tree are the same but for the places of their nodes. -/
theorem renamed_of_unfolds (hkept : s.AllKept) (hkept' : s'.AllKept) (htree : s.IsTree)
    (htree' : s'.IsTree) (ht : s.Unfolds s.root t) (ht' : s'.Unfolds s'.root t) :
    Renamed (SamePosition s s') s s' where
  root := ⟨[], t, .root, .root, ht, ht'⟩
  unique := by
    constructor
    · rintro a b a' ⟨position, -, ha, ha', -⟩ ⟨position', -, hb, hb', -⟩
      obtain rfl := htree' _ _ _ ha' hb'
      exact ha.unique hkept hb
    · rintro a a' b' ⟨position, -, ha, ha', -⟩ ⟨position', -, hb, hb', -⟩
      obtain rfl := htree _ _ _ ha hb
      exact ha'.unique hkept' hb'
  node := by
    rintro a a' ⟨position, u, ha, ha', hu, hu'⟩
    cases hu with
    | @node _ n properties items hn hproperties hitems =>
      generalize hown : n.own = own at hu'
      cases hu' with
      | @node _ n' _ _ hn' hproperties' hitems' =>
        have hinner : ∀ step c c' w, Step.Node n c step → Step.Node n' c' step →
            s.Unfolds c w → s'.Unfolds c' w → SamePosition s s' c c' :=
          fun step c c' w hc hc' hw hw' =>
            ⟨step :: position, w, ha.step hn hc, ha'.step hn' hc', hw, hw'⟩
        refine ⟨n, n', hn, hn', hown.symm, ?_, ?_⟩
        · exact rel_of_unfolds hitems hitems' (hinner .items)
        · exact forall₂_of_unfolds hproperties hproperties' fun name => hinner (.property name)

end Schema

/-- The module that is generated for a schema, or why there is none. -/
def Emission.moduleOf (s : Schema) (settings : Settings) (name : String) :
    Except Demo.Error String := do
  let g ← (Generation.ofSchema s settings name).mapError .build
  (moduleText g).mapError .emission

/-- A schema in which no node is reached in two ways, loaded from a document in JSON, is written and
loaded again, and the same is generated from it, or the same error is raised. -/
theorem Emission.generates_again {document : Document} {s : Schema} (hd : document.IsJson)
    (h : Schema.ofDocument document = .ok s) (htree : s.IsTree) : ∃ v s', s.toValue = .ok v ∧
      Schema.ofValue v = .ok s' ∧ ∀ settings name,
        Generation.ofSchema s' settings name = Generation.ofSchema s settings name ∧
        moduleOf s' settings name = moduleOf s settings name := by
  obtain ⟨s', t, hr⟩ := Schema.exists_reloads hd h htree.acyclic
  have htree' : s'.IsTree := Schema.isTree_of_written hr.isJson hr.loaded
  have hrenamed := Schema.renamed_of_unfolds hr.kept hr.keptAgain htree htree' hr.unfolds
    hr.unfoldsAgain
  refine ⟨_, s', hr.written, hr.loaded, fun settings name => ?_⟩
  have hsame := Generation.ofSchema_renamed hrenamed htree.acyclic htree'.acyclic settings name
  exact ⟨hsame, by rw [moduleOf, moduleOf, hsame]⟩

/-- A document with a definition that one property refers to, defaults and documentation. -/
def Emission.stock : Document :=
  .ofValue (.mapping [
    (.text "definitions", .mapping [
      (.text "size", .mapping [
        (.text "enum", .list [.text "small", .text "large"]), (.text "title", .text "Size")])]),
    (.text "description", .text "What is in stock."),
    (.text "properties", .mapping [
      (.text "size", .mapping [(.text "$ref", .text "#/definitions/size")]),
      (.text "shelf", .mapping [
        (.text "properties", .mapping [
          (.text "row", .mapping [(.text "type", .text "integer"), (.text "default", .int 1)])])]),
      (.text "labels", .mapping [
        (.text "type", .text "array"), (.text "uniqueItems", .bool true),
        (.text "items", .mapping [(.text "type", .text "string")]),
        (.text "default", .list [.text "new"])])])])

theorem Emission.generates_again_stock : ∃ s, stock.IsJson ∧ Schema.ofDocument stock = .ok s ∧
    s.IsTree ∧ ∃ v s', s.toValue = .ok v ∧ Schema.ofValue v = .ok s' ∧ ∀ settings name,
      Generation.ofSchema s' settings name = Generation.ofSchema s settings name ∧
      moduleOf s' settings name = moduleOf s settings name := by
  have hd : stock.IsJson := Document.isJson_ofValue (by decide)
  have hrun : (Schema.ofDocument stock).toOption.map
      (fun s => s.root :: s.edges.map (·.2)) = some [0, 1, 2, 4, 3, 5] := by
    decide +kernel
  cases hs : Schema.ofDocument stock with
  | error e =>
    rw [hs] at hrun
    cases hrun
  | ok s =>
    rw [hs] at hrun
    have hedges : s.root :: s.edges.map (·.2) = [0, 1, 2, 4, 3, 5] := Option.some.inj hrun
    have htree : s.IsTree := Schema.isTree_of_nodup (by rw [hedges]; decide)
    exact ⟨s, hd, rfl, htree, generates_again hd hs htree⟩

end SchemaModel
