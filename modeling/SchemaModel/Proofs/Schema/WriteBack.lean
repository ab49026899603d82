import SchemaModel.Proofs.Schema.Faithful
import SchemaModel.Proofs.Schema.Written

/-!
Loaded schemas written back. The document of a schema without cycles is loaded again, and what comes
out unfolds to the same tree.
-/
namespace SchemaModel.Schema

variable {document : Document} {s s' : Schema} {id : NodeId} {n own : SchemaNode} {v : Value}
  {entries es : List (Value × Value)} {R : NodeId → Value → Prop} {properties items : Option Value}
  {t : SchemaTree}

/-! ## What is read again -/

variable {k : Value} {n' : SchemaNode}

theorem KindOf.eq_of_text {name : String} (h : KindOf document es k)
    (hk : Value.entry? "type" es = some (.text name)) : k = .text name := by
  have htext : KindText document (.text name) name := .text rfl
  cases h with
  | typed hv hs =>
    rw [hk] at hv
    cases hv
    cases hs with
    | text hv =>
      cases hv
      rfl
    | first hv => cases hv
  | object hv => exact absurd htext (hv _ hk _)
  | unknown hv => exact absurd htext (hv _ hk _)

theorem KindOf.eq_of_none (h : KindOf document es k) (hk : Value.entry? "type" es = none)
    (hp : Value.entry? "properties" es = none) : k = .null := by
  cases h with
  | typed hv =>
    rw [hk] at hv
    cases hv
  | object _ hsome =>
    rw [hp] at hsome
    cases hsome
  | unknown => rfl

theorem DocumentationOf.eq {w : Value} (hv : v = .null ∨ ∃ s, v = .text s)
    (h : DocumentationOf v w) : w = v := by
  cases h with
  | null => rfl
  | text => rfl
  | other hn ht =>
    obtain rfl | ⟨s, rfl⟩ := hv
    · exact absurd rfl hn
    · exact absurd rfl (ht s)

theorem eq_of_enum {ls ls' : Option (List Literal)}
    (hls : ∀ xs, ls = some xs → Literal.allPlain xs = true)
    (h : Option.Rel (fun ls v => ∃ xs, document.content v = .list xs ∧ Literal.AllOf xs ls) ls'
      (ls.map fun ls => .list (Literal.toValues ls))) : ls' = ls := by
  cases ls with
  | none => exact eq_none_of_rel h
  | some xs =>
    cases h with
    | some hall =>
      obtain ⟨ys, hys, hall⟩ := hall
      cases hys
      rw [Literal.eq_of_allOf_toValues (hls xs rfl) hall]

/-- The flavour of a default that is not written is found again. -/
theorem DefaultOf.eq {unique : Bool} {plain l l' : Literal} (hplain : plain.isPlain = true)
    (hvalue : plain.toValue = l.toValue) (hl : plain.flavoured unique = l)
    (h : DefaultOf unique l.toValue l') : l' = l := by
  rw [← hvalue] at h
  cases h with
  | uniqueSequence hu hof =>
    rw [← Literal.eq_of_of_toValue hplain hof, Literal.flavoured, if_pos hu] at hl
    exact hl
  | plain hof hn =>
    have heq := Literal.eq_of_of_toValue hplain hof
    subst heq
    rw [← hl]
    cases l' with
    | sequence items => rw [Literal.flavoured, if_neg fun hu => hn hu items rfl]
    | _ => rfl

theorem eq_of_default {unique : Bool} {l l' : Option Literal}
    (hl : ∀ d, l = some d → ∃ plain : Literal, plain.isPlain = true ∧
      plain.toValue = d.toValue ∧ plain.flavoured unique = d)
    (h : Option.Rel (fun l v => DefaultOf unique v l) l' (l.map Literal.toValue)) : l' = l := by
  cases l with
  | none => exact eq_none_of_rel h
  | some d =>
    cases h with
    | some hd =>
      obtain ⟨plain, hplain, hvalue, hflavour⟩ := hl d rfl
      rw [hd.eq hplain hvalue hflavour]

/-- A node that declares what was written for another has all that the other has of its own. -/
theorem Declares.own_eq (hn : n.Kept) (hw : Written n.own properties items es)
    (hnone : n.properties = none → properties = none) (h : Declares document R es n') :
    n'.own = n.own := by
  have hkind : n'.kind = n.kind := by
    have htype := hw.kind
    obtain ⟨name, hk⟩ | ⟨hk, hp⟩ := hn.kind
    · rw [hk]
      refine h.kind.eq_of_text ?_
      rw [htype, show n.own.kind = n.kind from rfl, hk]
      rfl
    · rw [hk]
      refine h.kind.eq_of_none ?_ ?_
      · rw [htype, show n.own.kind = n.kind from rfl, hk]
        rfl
      · rw [hw.properties, hnone hp]
  have hformat : n'.format = n.format := by
    rw [h.format, hw.format, getD_given?]
    rfl
  have hunique : n'.unique = n.unique := by
    rw [h.unique, hw.unique, show n.own.unique = n.unique from rfl]
    cases n.unique <;> rfl
  have htitle : n'.title = n.title := by
    have := h.title
    rw [hw.title, getD_given?] at this
    exact this.eq hn.title
  have hdescription : n'.description = n.description := by
    have := h.description
    rw [hw.description, getD_given?] at this
    exact this.eq hn.description
  have henum : n'.enum = n.enum := by
    have := h.enum
    rw [hw.enum] at this
    exact eq_of_enum hn.enum this
  have hdefault : n'.default = n.default := by
    have := h.default
    rw [hw.default, hunique] at this
    exact eq_of_default hn.default this
  simp only [SchemaNode.own, hkind, hformat, hunique, htitle, hdescription, henum, hdefault]

/-- A place that holds a written node is no reference. -/
theorem Follows.eq_of_written (hw : Written own properties items es)
    (h : Follows document (.mapping es) entries) : entries = es := by
  cases h with
  | object hv _ =>
    cases hv
    rfl
  | reference hv hr =>
    cases hv
    rw [hw.reference] at hr
    cases hr

theorem unfoldsAll_of_propertyValues {ps : List (String × SchemaTree)}
    {qs : List (String × Option NodeId)}
    (ih : ∀ p ∈ ps, ∀ c, R c p.2.toValue → s'.Unfolds c p.2)
    (h : List.Forall₂ (fun p e => e.1 = Value.text p.1 ∧ ∃ c, p.2 = some c ∧ R c e.2) qs
      (SchemaTree.propertyValues ps)) : s'.UnfoldsAll qs ps := by
  induction ps generalizing qs with
  | nil =>
    cases h
    exact .nil
  | cons p ps ihps =>
    obtain ⟨name, t⟩ := p
    rw [List.forall_mem_cons] at ih
    cases h with
    | @cons q _ qs _ hpe hrest =>
      obtain ⟨name', c⟩ := q
      obtain ⟨hname, c, rfl, hr⟩ := hpe
      cases hname
      exact .cons (ih.1 c hr) (ihps ih.2 hrest)

/-- A node that stands for the document of a tree unfolds to this tree. -/
theorem unfolds_of_bisimulation (hs : s.AllKept) (hR : s'.Bisimulation document R)
    (hid : s.Reaches id) (h : s.Unfolds id t) {id' : NodeId} (hv : R id' t.toValue) :
    s'.Unfolds id' t := by
  induction t using SchemaTree.below_induction generalizing id id' with
  | h own properties items ihp ihi =>
    obtain ⟨hbelow, hbelow'⟩ := h.exists_child
    have hw := written own (SchemaTree.propertiesValue properties) (SchemaTree.itemsValue items)
    obtain ⟨entries, n', hfollows, hn', hdecl⟩ := hR id' _ hv
    rw [SchemaTree.toValue] at hfollows
    -- a written node is no reference, so the place itself holds the entries
    cases hfollows.eq_of_written hw
    have hproperties : Option.Rel s'.UnfoldsAll n'.properties properties := by
      have hrel := hdecl.properties
      rw [hw.properties] at hrel
      cases properties with
      | none =>
        rw [eq_none_of_rel hrel]
        exact .none
      | some ps =>
        generalize hq : n'.properties = q at hrel
        cases hrel with
        | some hps =>
          obtain ⟨es, hes, hall⟩ := hps
          cases hes
          refine .some (unfoldsAll_of_propertyValues (fun p hp c hr => ?_) hall)
          obtain ⟨b, hb, hu⟩ := hbelow ps rfl p hp
          exact ihp ps rfl p hp (hid.tail hb) hu hr
    have hitems : Option.Rel s'.Unfolds n'.items items := by
      have hrel := hdecl.items
      rw [hw.items] at hrel
      cases items with
      | none =>
        rw [eq_none_of_rel hrel]
        exact .none
      | some t =>
        generalize hi : n'.items = i at hrel
        cases hrel with
        | some hr =>
          obtain ⟨b, hb, hu⟩ := hbelow' t rfl
          exact .some (ihi t rfl (hid.tail hb) hu hr)
    cases h with
    | @node _ n _ _ hn hps _ =>
      have hnone : n.properties = none → SchemaTree.propertiesValue properties = none := by
        intro hp
        rw [hp] at hps
        cases hps
        rfl
      rw [← hdecl.own_eq (hs id hid n hn) hw hnone]
      exact .node hn' hproperties hitems

/-! ## The round trip -/

theorem Bisimilar.allKept (hd : document.IsJson) (h : s.Bisimilar document) : s.AllKept := by
  intro id hid n hn
  obtain ⟨n', hn', hkept, -⟩ := kept_of_bisimilar hd h hid
  rw [hn] at hn'
  cases hn'
  exact hkept

theorem Bisimilar.complete (hd : document.IsJson) (h : s.Bisimilar document) : s.Complete := by
  intro id hid
  obtain ⟨n, hn, -, hwhole⟩ := kept_of_bisimilar hd h hid
  exact ⟨n, hn, hwhole⟩

theorem count_le_readBound (v : Value) : Document.count v ≤ readBound { value := v } := by
  have hsize : Document.count v ≤ Document.size { value := v } + 3 := by
    simp only [Document.size]
    omega
  rw [readBound]
  exact Nat.le_trans hsize (Nat.le_mul_self _)

/-- The document of a tree that a loaded schema unfolds to is loaded. -/
theorem ofValue_ok (hs : s.AllKept) (h : s.Unfolds s.root t) :
    ∃ s', Schema.ofValue t.toValue = .ok s' := by
  have hd : Document.IsJson { value := t.toValue } := ⟨rfl, isJson_tree hs .refl h⟩
  obtain ⟨root, l, hr⟩ := readTree_succeeds hd hs .refl h (count_le_readBound _) [] []
    Pointer.root ⟨#[], []⟩
  refine ⟨{ nodes := l.nodes, root }, ?_⟩
  cases t with
  | node own properties items => exact Fallible.bind_eq_ok.mpr ⟨(root, l), hr, rfl⟩

/-- A schema that was loaded, the tree that it unfolds to, and the schema that is loaded from the
document of the tree. -/
structure Reloads (s s' : Schema) (t : SchemaTree) : Prop where
  kept : s.AllKept
  unfolds : s.Unfolds s.root t
  written : s.toValue = .ok t.toValue
  isJson : Document.IsJson { value := t.toValue }
  loaded : Schema.ofValue t.toValue = .ok s'
  keptAgain : s'.AllKept
  unfoldsAgain : s'.Unfolds s'.root t

theorem exists_reloads (hd : document.IsJson) (h : ofDocument document = .ok s) (hs : s.Acyclic) :
    ∃ s' t, Reloads s s' t := by
  obtain ⟨l, hinv, hroot⟩ := ofDocument_ok hd h
  have hsim := bisimilar_of_inv hinv hroot
  have hkept := hsim.allKept hd
  obtain ⟨t, ht, hv⟩ := toValue_ok hs (hsim.complete hd)
  obtain ⟨s', hs'⟩ := ofValue_ok hkept ht
  -- the written document is in JSON as well, so that what is loaded from it is faithful to it
  have hd' : Document.IsJson { value := t.toValue } := ⟨rfl, isJson_tree hkept .refl ht⟩
  obtain ⟨l', hinv', hroot'⟩ := ofDocument_ok hd' hs'
  have hsim' := bisimilar_of_inv hinv' hroot'
  have hkept' := hsim'.allKept hd'
  obtain ⟨R, hR, hbisim, -⟩ := hsim'
  have ht' := unfolds_of_bisimulation hkept hbisim .refl ht hR
  exact ⟨s', t, hkept, ht, hv, hd', hs', hkept', ht'⟩

/-- A schema without cycles that is loaded from a document in JSON is written to a document that is
loaded again, as a schema that unfolds to the same tree. -/
theorem unfolds_written (hd : document.IsJson) (h : ofDocument document = .ok s)
    (hs : s.Acyclic) : ∃ v s' t, s.toValue = .ok v ∧ Schema.ofValue v = .ok s' ∧
      (∀ u, s.Unfolds s.root u ↔ u = t) ∧ ∀ u, s'.Unfolds s'.root u ↔ u = t := by
  obtain ⟨s', t, hr⟩ := exists_reloads hd h hs
  refine ⟨_, s', t, hr.written, hr.loaded, fun u => ⟨hr.unfolds.unique, ?_⟩,
    fun u => ⟨hr.unfoldsAgain.unique, ?_⟩⟩
  · rintro rfl
    exact hr.unfolds
  · rintro rfl
    exact hr.unfoldsAgain

/-- A document with a shared definition, a list of types, documentation that is no text, a format
that is no text, a default that is a set and one that is null. -/
def shelves : Document :=
  .ofValue (.mapping [
    (.text "definitions", .mapping [
      (.text "label", .mapping [
        (.text "type", .list [.text "null", .text "string"]), (.text "title", .int 3),
        (.text "format", .list [.bool false, .null]), (.text "enum", .list [.text "x", .null])])]),
    (.text "properties", .mapping [
      (.text "$ref", .mapping [(.text "$ref", .text "#/definitions/label")]),
      (.text "labels", .mapping [
        (.text "type", .text "array"), (.text "uniqueItems", .bool true),
        (.text "items", .mapping [(.text "$ref", .text "#/definitions/label")]),
        (.text "default", .list [.text "x", .list [.text "x"]])]),
      (.text "none", .mapping [(.text "default", .null), (.text "title", .text "")])])])

theorem unfolds_written_shelves : ∃ s, shelves.IsJson ∧ ofDocument shelves = .ok s ∧ s.Acyclic ∧
    s.nodes.toList.map SchemaNode.children = [[1, 2, 3], [], [1], []] ∧
    ∃ v s' t, s.toValue = .ok v ∧ Schema.ofValue v = .ok s' ∧
      (∀ u, s.Unfolds s.root u ↔ u = t) ∧ ∀ u, s'.Unfolds s'.root u ↔ u = t := by
  have hd : shelves.IsJson := Document.isJson_ofValue (by decide)
  have hrun : (ofDocument shelves).toOption.map
      (fun s => s.nodes.toList.map SchemaNode.children) = some [[1, 2, 3], [], [1], []] := by
    decide +kernel
  cases hs : ofDocument shelves with
  | error e =>
    rw [hs] at hrun
    cases hrun
  | ok s =>
    rw [hs] at hrun
    have hchildren : s.nodes.toList.map SchemaNode.children = [[1, 2, 3], [], [1], []] :=
      Option.some.inj hrun
    have hacyclic : s.Acyclic := by
      intro id _
      refine not_transGen_of_rank (fun id => [2, 0, 1].getD id 0) (fun id c ⟨n, hn, hc⟩ => ?_) id
      have hget : (s.nodes.toList.map SchemaNode.children)[id]? = some n.children := by
        rw [List.getElem?_map, Array.getElem?_toList, ← node?, hn]
        rfl
      have hlower : ∀ id < 4, ∀ cs, [[1, 2, 3], [], [1], []][id]? = some cs → ∀ c ∈ cs,
          [2, 0, 1].getD c 0 < [2, 0, 1].getD id 0 := by decide
      rw [hchildren] at hget
      exact hlower id (List.getElem?_eq_some_iff.mp hget).1 _ hget c hc
    exact ⟨s, hd, rfl, hacyclic, hchildren, unfolds_written hd hs hacyclic⟩

end SchemaModel.Schema
