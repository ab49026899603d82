import SchemaModel.Proofs.Schema.Declarations
import SchemaModel.Proofs.Schema.PlainLiteral
import SchemaModel.Proofs.Schema.Unfolding

/-!
The form of loaded nodes, which the written document keeps: kinds and documentation are texts, a
node with properties has a kind, the names of properties are distinct, and literals come back from
their raw values.
-/
namespace SchemaModel

open Value (entriesJson)

/-- A node of which nothing is lost when it is written and read again. -/
structure SchemaNode.Kept (n : SchemaNode) : Prop where
  /-- Only a node without properties has no kind. -/
  kind : (∃ s, n.kind = .text s) ∨ n.kind = .null ∧ n.properties = none
  format : n.format.isJson = true
  title : n.title = .null ∨ ∃ s, n.title = .text s
  description : n.description = .null ∨ ∃ s, n.description = .text s
  names : n.propertyNames.Nodup
  enum : ∀ ls, n.enum = some ls → Literal.allPlain ls = true
  /-- The flavour of the default is that of the node. -/
  default : ∀ l, n.default = some l → ∃ plain : Literal, plain.isPlain = true ∧
    plain.toValue = l.toValue ∧ plain.flavoured n.unique = l

theorem SchemaNode.Kept.own {n : SchemaNode} (h : n.Kept) : n.own.Kept :=
  { h with
    kind := h.kind.imp_right fun hk => ⟨hk.1, rfl⟩
    names := .nil }

namespace Schema

variable {document : Document} {s : Schema} {id : NodeId} {n own : SchemaNode} {v : Value}
  {entries : List (Value × Value)} {R : NodeId → Value → Prop}

/-! ## What loading gives -/

theorem DocumentationOf.isText {w : Value} (h : DocumentationOf v w) :
    w = .null ∨ ∃ s, w = .text s := by
  cases h with
  | null => exact .inl rfl
  | text => exact .inr ⟨_, rfl⟩
  | other => exact .inr ⟨_, rfl⟩

/-- The names of properties are keys of a mapping, of which each occurs once. -/
theorem nodup_of_propertiesOf {ps : List (String × Option NodeId)} {es : List (Value × Value)}
    (hj : entriesJson es = true)
    (h : List.Forall₂ (fun p e => e.1 = Value.text p.1 ∧ ∃ c, p.2 = some c ∧ R c e.2) ps es) :
    (ps.map (·.1)).Nodup := by
  induction h with
  | nil => exact .nil
  | @cons p e ps es hpe hrest ih =>
    obtain ⟨k, w, rfl, -, hnone, hes⟩ := Value.entriesJson_cons hj
    obtain ⟨hkey, -⟩ := hpe
    cases hkey
    refine List.nodup_cons.mpr ⟨fun hm => ?_, ih hes⟩
    -- a later property of this name would be an entry of its key
    obtain ⟨q, hq, hname⟩ := List.mem_map.mp hm
    obtain ⟨⟨key, u⟩, hf, hkey, -⟩ := exists_of_forall₂ hrest hq
    cases hkey
    rw [show p.1 = q.1 from hname.symm, Value.entry?_of_mem hes hf] at hnone
    cases hnone

theorem KindOf.kept {k : Value} (h : KindOf document entries k) :
    (∃ s, k = .text s) ∨ k = .null ∧ Value.entry? "properties" entries = none := by
  cases h with
  | typed => exact .inl ⟨_, rfl⟩
  | object => exact .inl ⟨_, rfl⟩
  | unknown _ hp => exact .inr ⟨rfl, hp⟩

/-- The properties of a node stand for the entries of a mapping, of which there may be none. -/
theorem Declares.propertyList (hj : entriesJson entries = true)
    (h : Declares document R entries n) : ∃ es, entriesJson es = true ∧
      List.Forall₂ (fun p e => e.1 = Value.text p.1 ∧ ∃ c, p.2 = some c ∧ R c e.2)
        n.propertyList es := by
  rw [SchemaNode.propertyList]
  cases hp : n.properties with
  | none => exact ⟨[], rfl, .nil⟩
  | some ps =>
    obtain ⟨w, hw, es, hc, hall⟩ := exists_of_rel h.properties hp
    exact ⟨es, Document.entriesJson_of_content (Value.isJson_of_entry? hj hw) hc, hall⟩

theorem Declares.kept (hj : entriesJson entries = true)
    (h : Declares document R entries n) : n.Kept where
  kind := by
    refine h.kind.kept.imp_right fun ⟨hnull, hnone⟩ => ⟨hnull, ?_⟩
    have hproperties := h.properties
    rw [hnone] at hproperties
    exact eq_none_of_rel hproperties
  format := by
    rw [h.format]
    cases hf : Value.entry? "format" entries with
    | none => rfl
    | some v => exact Value.isJson_of_entry? hj hf
  title := h.title.isText
  description := h.description.isText
  names := by
    obtain ⟨es, hes, hall⟩ := h.propertyList hj
    exact nodup_of_propertiesOf hes hall
  enum ls hls := by
    obtain ⟨w, hw, xs, hc, hall⟩ := exists_of_rel h.enum hls
    have hxs := Document.isJson_content document (Value.isJson_of_entry? hj hw)
    rw [hc, Value.isJson] at hxs
    exact Literal.allPlain_of xs hxs hall
  default l hl := by
    obtain ⟨w, hw, hdefault⟩ := exists_of_rel h.default hl
    exact Literal.flavoured_of_defaultOf (Value.isJson_of_entry? hj hw) hdefault

/-- The children of a node stand for places of the document too. -/
theorem Declares.child (hj : entriesJson entries = true)
    (h : Declares document R entries n) {c : NodeId} (hc : c ∈ n.children) :
    ∃ w, R c w ∧ w.isJson = true := by
  rcases List.mem_append.mp hc with hc | hc
  · obtain ⟨⟨name, child⟩, hq, rfl⟩ := List.mem_filterMap.mp hc
    obtain ⟨es, hes, hall⟩ := h.propertyList hj
    obtain ⟨⟨key, w⟩, he, hkey, c', hc', hr⟩ := exists_of_forall₂ hall hq
    cases hkey
    cases hc'
    exact ⟨w, hr, Value.isJson_of_entry? hes (Value.entry?_of_mem hes he)⟩
  · obtain ⟨w, hw, hr⟩ := exists_of_rel h.items (Option.mem_toList.mp hc)
    exact ⟨w, hr, Value.isJson_of_entry? hj hw⟩

/-- The nodes that stand for places in JSON. -/
theorem Follows.entriesJson (hd : document.IsJson) (hj : v.isJson = true)
    (h : Follows document v entries) : Value.entriesJson entries = true := by
  induction h with
  | object hv _ => exact Document.entriesJson_of_content hj hv
  | reference _ _ ht _ ih => exact ih (hd.resolve ht)

/-- Every node that the root of a loaded schema leads to keeps its form. -/
theorem kept_of_bisimilar (hd : document.IsJson) (h : s.Bisimilar document)
    (hid : s.Reaches id) :
    ∃ n, s.node? id = some n ∧ n.Kept ∧ ∀ q ∈ n.propertyList, q.2.isSome = true := by
  obtain ⟨R, hroot, hR, -⟩ := h
  have hplace : ∃ v, R id v ∧ v.isJson = true := by
    induction hid with
    | refl => exact ⟨document.value, hroot, hd.value⟩
    | tail _ hstep ih =>
      obtain ⟨v, hv, hj⟩ := ih
      obtain ⟨entries, n, hfollows, hn, hdecl⟩ := hR _ v hv
      obtain ⟨n', hn', hc⟩ := hstep
      rw [hn] at hn'
      cases hn'
      exact hdecl.child (hfollows.entriesJson hd hj) hc
  obtain ⟨v, hv, hj⟩ := hplace
  obtain ⟨entries, n, hfollows, hn, hdecl⟩ := hR id v hv
  have hes := hfollows.entriesJson hd hj
  refine ⟨n, hn, hdecl.kept hes, fun q hq => ?_⟩
  obtain ⟨es, -, hall⟩ := hdecl.propertyList hes
  obtain ⟨e, -, -, c, hc, -⟩ := exists_of_forall₂ hall hq
  rw [hc]
  rfl

/-- Whether every node of a schema keeps its form. -/
def AllKept (s : Schema) : Prop := ∀ id, s.Reaches id → ∀ n, s.node? id = some n → n.Kept

theorem AllKept.of_unfolds {properties : Option (List (String × SchemaTree))}
    {items : Option SchemaTree} (hs : s.AllKept) (hid : s.Reaches id)
    (h : s.Unfolds id (.node own properties items)) : own.Kept := by
  cases h with
  | node hn _ _ => exact (hs id hid _ hn).own

theorem AllKept.names {ps : List (String × SchemaTree)} {items : Option SchemaTree}
    (hs : s.AllKept) (hid : s.Reaches id) (h : s.Unfolds id (.node own (some ps) items)) :
    (ps.map (·.1)).Nodup := by
  cases h with
  | @node _ n _ _ hn hproperties _ =>
    have hnodup := (hs id hid n hn).names
    rw [SchemaNode.propertyNames, SchemaNode.propertyList] at hnodup
    generalize n.properties = q at hproperties hnodup
    cases hproperties with
    | some hall =>
      rw [hall.names]
      exact hnodup

end Schema
end SchemaModel
