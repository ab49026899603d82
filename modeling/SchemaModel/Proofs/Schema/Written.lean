import SchemaModel.Proofs.Schema.Kept
import SchemaModel.Proofs.Schema.Positions
import SchemaModel.Proofs.Tables

/-!
The documents of trees. What a node has of its own stands under its names, so that such a document
is read without an error, whatever was read before.
-/
namespace SchemaModel.Schema

open Value (entriesJson)

variable {document : Document} {s : Schema} {id : NodeId} {own : SchemaNode} {v : Value}

/-! ## Written entries -/

theorem presentEntries_cons (name : String) (v : Option Value)
    (fs : List (String × Option Value)) : presentEntries ((name, v) :: fs) =
      (v.map fun v => (.text name, v)).toList ++ presentEntries fs := by
  cases v <;> rfl

/-- What is declared under a name is found under it. -/
theorem entry?_presentEntries {fs : List (String × Option Value)} (h : (fs.map (·.1)).Nodup)
    (name : String) : Value.entry? name (presentEntries fs) = (fs.lookup name).join := by
  induction fs with
  | nil => rfl
  | cons f fs ih =>
    obtain ⟨key, v⟩ := f
    obtain ⟨hnew, hrest⟩ := List.nodup_cons.mp h
    rw [presentEntries_cons, Value.entry?_append, ih hrest]
    by_cases hname : name = key
    · subst hname
      rw [Tables.lookup_eq_none_iff.mpr hnew, List.lookup_cons_self]
      cases v <;> simp [Value.entry?]
    · have hkey : (name == key) = false := beq_eq_false_iff_ne.mpr hname
      rw [List.lookup_cons, hkey]
      cases v <;> simp [Value.entry?, Ne.symm hname]

theorem entriesJson_presentEntries {fs : List (String × Option Value)} (h : (fs.map (·.1)).Nodup)
    (hv : ∀ f ∈ fs, ∀ v, f.2 = some v → v.isJson = true) :
    entriesJson (presentEntries fs) = true := by
  induction fs with
  | nil => rfl
  | cons f fs ih =>
    obtain ⟨key, v⟩ := f
    obtain ⟨hnew, hrest⟩ := List.nodup_cons.mp h
    rw [List.forall_mem_cons] at hv
    rw [presentEntries_cons]
    cases v with
    | none => exact ih hrest hv.2
    | some v =>
      show entriesJson ((.text key, v) :: presentEntries fs) = true
      have habsent : Value.entry? key (presentEntries fs) = none := by
        rw [entry?_presentEntries hrest, Tables.lookup_eq_none_iff.mpr hnew]
        rfl
      rw [entriesJson, hv.1 v rfl, habsent, ih hrest hv.2]
      rfl

theorem nodup_fields (n : SchemaNode) (properties items : Option Value) :
    ((fields n properties items).map (·.1)).Nodup := by
  show List.Nodup ["type", "format", "uniqueItems", "title", "description", "properties", "items",
    "enum", "default"]
  decide

/-- The entries of a written node. -/
structure Written (own : SchemaNode) (properties items : Option Value)
    (es : List (Value × Value)) : Prop where
  kind : Value.entry? "type" es = given? own.kind
  format : Value.entry? "format" es = given? own.format
  unique : Value.entry? "uniqueItems" es = if own.unique then some (.bool true) else none
  title : Value.entry? "title" es = given? own.title
  description : Value.entry? "description" es = given? own.description
  properties : Value.entry? "properties" es = properties
  items : Value.entry? "items" es = items
  enum : Value.entry? "enum" es = own.enum.map fun ls => .list (Literal.toValues ls)
  default : Value.entry? "default" es = own.default.map Literal.toValue
  reference : Value.entry? "$ref" es = none

theorem written (own : SchemaNode) (properties items : Option Value) :
    Written own properties items (presentEntries (fields own properties items)) := by
  constructor <;> rw [entry?_presentEntries (nodup_fields ..)] <;> rfl

theorem isJson_given? {v w : Value} (hv : v.isJson = true) (h : given? v = some w) :
    w.isJson = true := by
  cases v <;> cases h <;> exact hv

theorem getD_given? (v : Value) : (given? v).getD .null = v := by
  cases v <;> rfl

/-- Documentation that is null or a text is JSON. -/
theorem isJson_of_text {v : Value} (h : v = .null ∨ ∃ s, v = .text s) : v.isJson = true := by
  rcases h with rfl | ⟨s, rfl⟩ <;> rfl

theorem entriesJson_written {own : SchemaNode} (h : own.Kept) {properties items : Option Value}
    (hproperties : ∀ v, properties = some v → v.isJson = true)
    (hitems : ∀ v, items = some v → v.isJson = true) :
    entriesJson (presentEntries (fields own properties items)) = true := by
  refine entriesJson_presentEntries (nodup_fields ..) ?_
  have hkind : own.kind.isJson = true := isJson_of_text (h.kind.elim .inr fun hk => .inl hk.1)
  simp only [fields, List.forall_mem_cons, List.not_mem_nil, false_implies, implies_true, and_true]
  refine ⟨fun _ => isJson_given? hkind, fun _ => isJson_given? h.format, ?_,
    fun _ => isJson_given? (isJson_of_text h.title),
    fun _ => isJson_given? (isJson_of_text h.description), hproperties, hitems, ?_, ?_⟩
  · intro v hv
    split at hv <;> cases hv
    rfl
  · intro v hv
    obtain ⟨ls, -, rfl⟩ := Option.map_eq_some_iff.mp hv
    exact Literal.allJson_toValues ls
  · intro v hv
    obtain ⟨l, -, rfl⟩ := Option.map_eq_some_iff.mp hv
    exact Literal.isJson_toValue l

/-! ## Reading what was written -/

/-- A step of loading that succeeds whatever was loaded before. -/
def Succeeds {α : Type} (x : Loading.Action α) : Prop := ∀ l, ∃ a l', x l = .ok (a, l')

section

variable {α β : Type} {x : Loading.Action α} {f : α → Loading.Action β}

theorem Succeeds.bind (hx : Succeeds x) (hf : ∀ a, Succeeds (f a)) : Succeeds (x >>= f) := by
  intro l
  obtain ⟨a, l₁, ha⟩ := hx l
  obtain ⟨b, l₂, hb⟩ := hf a l₁
  exact ⟨b, l₂, Stateful.bind_eq_ok.mpr ⟨a, l₁, ha, hb⟩⟩

theorem Succeeds.pure (a : α) : Succeeds (Pure.pure a) := fun l => ⟨a, l, rfl⟩

theorem Succeeds.get : Succeeds get := fun l => ⟨l, l, rfl⟩

theorem Succeeds.modify (g : Loading → Loading) : Succeeds (modify g) := fun l => ⟨_, g l, rfl⟩

theorem Succeeds.lift {e : Except LoadError α} {a : α} (h : e = .ok a) :
    Succeeds (liftM e : Loading.Action α) := by
  intro l
  exact ⟨a, l, Stateful.lift_eq_ok.mpr ⟨h, rfl⟩⟩

end

variable {read : Value → String → Loading.Action NodeId} {pointer : String}

theorem readProperties_succeeds {ps : List (String × SchemaTree)}
    (h : ∀ p ∈ ps, ∀ pointer, Succeeds (read p.2.toValue pointer)) :
    Succeeds (readProperties read pointer (SchemaTree.propertyValues ps)) := by
  induction ps with
  | nil => exact .pure _
  | cons p ps ih =>
    rw [List.forall_mem_cons] at h
    obtain ⟨name, t⟩ := p
    rw [SchemaTree.propertyValues, readProperties]
    exact (h.1 _).bind fun id => (ih h.2).bind fun rest => .pure _

variable {es : List (Value × Value)} {properties items : Option Value}

/-- Documentation that is null or a text is kept as it is. -/
theorem documentation_of_text {v : Value} (h : v = .null ∨ ∃ s, v = .text s) :
    documentation v = .ok v := by
  rcases h with rfl | ⟨s, rfl⟩ <;> rfl

theorem declaration_succeeds (hd : document.IsJson) (hw : Written own properties items es)
    (hown : own.Kept) : ∃ base, declaration document es = .ok base := by
  have hkind : ∃ k, declaredKind document ((Value.entry? "type" es).getD .null) = .ok k := by
    rw [hw.kind, getD_given?]
    rcases hown.kind with ⟨s, hk⟩ | ⟨hk, -⟩
    · rw [hk]
      exact ⟨_, rfl⟩
    · rw [hk]
      exact ⟨_, rfl⟩
  obtain ⟨k, hk⟩ := hkind
  have htitle : documentation (document.closed ((Value.entry? "title" es).getD .null)) =
      .ok own.title := by
    rw [hd.closed_eq, hw.title, getD_given?, documentation_of_text hown.title]
  have hdescription :
      documentation (document.closed ((Value.entry? "description" es).getD .null)) =
        .ok own.description := by
    rw [hd.closed_eq, hw.description, getD_given?, documentation_of_text hown.description]
  exact ⟨_, Fallible.bind_eq_ok.mpr ⟨k, hk, Fallible.bind_eq_ok.mpr ⟨_, htitle,
    Fallible.bind_eq_ok.mpr ⟨_, hdescription, rfl⟩⟩⟩⟩

theorem mapM_literal {ls : List Literal} (h : Literal.allPlain ls = true) :
    (Literal.toValues ls).mapM literal = .ok ls := by
  induction ls with
  | nil => rfl
  | cons l ls ih =>
    simp only [Literal.allPlain, Bool.and_eq_true] at h
    rw [Literal.toValues, List.mapM_cons, ih h.2, literal, Literal.ofValue_toValue l h.1]
    rfl

theorem choices_succeeds (hd : document.IsJson) (hw : Written own properties items es)
    (hown : own.Kept) : choices document pointer es = .ok own.enum := by
  rw [choices, hw.enum]
  cases he : own.enum with
  | none => rfl
  | some ls =>
    show Except.map some ((Literal.toValues ls).mapM fun x => literal (document.closed x)) = _
    simp only [hd.closed_eq]
    rw [mapM_literal (hown.enum ls he)]
    rfl

theorem declaredDefault_succeeds (hd : document.IsJson) (hw : Written own properties items es)
    (hown : own.Kept) (unique : Bool) : ∃ l, declaredDefault document unique es = .ok l := by
  rw [declaredDefault, hw.default]
  cases hl : own.default with
  | none => exact ⟨_, rfl⟩
  | some l =>
    obtain ⟨plain, hplain, hvalue, -⟩ := hown.default l hl
    simp only [Option.map_some, hd.closed_eq]
    rw [← hvalue, literal, Literal.ofValue_toValue plain hplain]
    exact ⟨_, rfl⟩

theorem readLiterals_succeeds (hd : document.IsJson) (hw : Written own properties items es)
    (hown : own.Kept) (unique : Bool) {f : Option (List Literal) → Option Literal → SchemaNode} :
    Succeeds (do
      let enum ← liftM (choices document pointer es)
      let default ← liftM (declaredDefault document unique es)
      return f enum default : Loading.Action SchemaNode) := by
  obtain ⟨default, hdefault⟩ := declaredDefault_succeeds hd hw hown unique
  refine (Succeeds.lift (choices_succeeds hd hw hown)).bind fun enum => ?_
  exact (Succeeds.lift hdefault).bind fun default => .pure _

/-- The items are read, if there are any, before what comes next. -/
theorem readItems_succeeds {items : Option SchemaTree}
    {next : Option NodeId → Loading.Action SchemaNode} (hnext : ∀ i, Succeeds (next i))
    (hitems : ∀ t, items = some t → ∀ pointer, Succeeds (read t.toValue pointer)) :
    Succeeds (match SchemaTree.itemsValue items with
      | none => (pure none : Loading.Action (Option NodeId)) >>= next
      | some w => read w (Pointer.items pointer) >>= fun id => pure (some id) >>= next) := by
  cases items with
  | none => exact (Succeeds.pure _).bind hnext
  | some t => exact (hitems t rfl _).bind fun id => (Succeeds.pure _).bind hnext

theorem readObject_succeeds (hd : document.IsJson) (hown : own.Kept)
    {properties : Option (List (String × SchemaTree))} {items : Option SchemaTree}
    (hw : Written own (SchemaTree.propertiesValue properties) (SchemaTree.itemsValue items) es)
    (hproperties : ∀ ps, properties = some ps → ∀ p ∈ ps, ∀ pointer,
      Succeeds (read p.2.toValue pointer))
    (hitems : ∀ t, items = some t → ∀ pointer, Succeeds (read t.toValue pointer)) :
    Succeeds (readObject document read pointer es) := by
  obtain ⟨base, hbase⟩ := declaration_succeeds hd hw hown
  rw [readObject, hw.properties, hw.items]
  refine (Succeeds.lift hbase).bind fun base => ?_
  cases properties with
  | none =>
    refine (Succeeds.pure _).bind fun out => ?_
    exact readItems_succeeds (fun _ => readLiterals_succeeds hd hw hown _) hitems
  | some ps =>
    refine (readProperties_succeeds (hproperties ps rfl)).bind fun out => ?_
    refine (Succeeds.pure _).bind fun out => ?_
    exact readItems_succeeds (fun _ => readLiterals_succeeds hd hw hown _) hitems

/-- A mapping that is no reference is read if its object is. -/
theorem readAt_succeeds {fuel : Nat} {path : List Nat} {chain : List String}
    (href : Value.entry? "$ref" es = none)
    (h : Succeeds (readObject document (readAt document fuel path []) pointer es)) :
    Succeeds (readAt document (fuel + 1) path chain (.mapping es) pointer) := by
  rw [readAt]
  refine Succeeds.get.bind fun l => ?_
  cases hp : l.place? pointer with
  | some id => exact .pure _
  | none =>
    have hobject : reference? (document.content (.mapping es)) = none := href
    simp only [hobject]
    refine Succeeds.get.bind fun l₁ => (Succeeds.modify _).bind fun _ => ?_
    exact h.bind fun n => (Succeeds.modify _).bind fun _ => .pure _

/-! ## Trees -/

theorem count_le_of_entry? {name : String} {w : Value} (h : Value.entry? name es = some w) :
    Document.count w ≤ Document.countEntries es := by
  induction es with
  | nil => cases h
  | cons e es ih =>
    obtain ⟨k, v⟩ := e
    rw [Document.countEntries]
    cases k
    case text k =>
      rw [Value.entry?] at h
      split at h
      · cases h
        omega
      · have := ih h
        omega
    all_goals
      have := ih h
      omega

theorem mem_names_of_entry {ps : List (String × SchemaTree)} {name : String}
    (h : Value.entry? name (SchemaTree.propertyValues ps) = some v) : name ∈ ps.map (·.1) := by
  induction ps with
  | nil => cases h
  | cons p ps ih =>
    rw [SchemaTree.propertyValues, Value.entry?] at h
    split at h
    · rename_i hname
      exact hname ▸ List.mem_cons_self
    · exact List.mem_cons_of_mem _ (ih h)

theorem count_le_of_mem {ps : List (String × SchemaTree)} {p : String × SchemaTree} (hp : p ∈ ps) :
    Document.count p.2.toValue ≤ Document.countEntries (SchemaTree.propertyValues ps) := by
  induction ps with
  | nil => cases hp
  | cons q ps ih =>
    rw [SchemaTree.propertyValues, Document.countEntries]
    rcases List.mem_cons.mp hp with rfl | hp
    · omega
    · have := ih hp
      omega

/-- The trees below a tree are smaller. -/
theorem count_below (own : SchemaNode) (properties : Option (List (String × SchemaTree)))
    (items : Option SchemaTree) :
    (∀ ps, properties = some ps → ∀ p ∈ ps, Document.count p.2.toValue <
        Document.count (SchemaTree.node own properties items).toValue) ∧
      ∀ t, items = some t → Document.count t.toValue <
        Document.count (SchemaTree.node own properties items).toValue := by
  have hw := written own (SchemaTree.propertiesValue properties) (SchemaTree.itemsValue items)
  rw [SchemaTree.toValue, Document.count]
  constructor
  · rintro ps rfl p hp
    have hle := count_le_of_entry? hw.properties
    have := count_le_of_mem hp
    rw [Document.count] at hle
    omega
  · rintro t rfl
    have := count_le_of_entry? hw.items
    omega

variable {t : SchemaTree}

/-- The document of a tree is read, whatever was read before. -/
theorem readTree_succeeds (hd : document.IsJson) (hs : s.AllKept) (hid : s.Reaches id)
    (h : s.Unfolds id t) {fuel : Nat} (hfuel : Document.count t.toValue ≤ fuel) (path : List Nat)
    (chain : List String) (pointer : String) :
    Succeeds (readAt document fuel path chain t.toValue pointer) := by
  induction t using SchemaTree.below_induction generalizing id fuel path chain pointer with
  | h own properties items ihp ihi =>
    obtain ⟨hbelow, hbelow'⟩ := h.exists_child
    obtain ⟨hcount, hcount'⟩ := count_below own properties items
    have hpos : 0 < Document.count (SchemaTree.node own properties items).toValue := by
      rw [SchemaTree.toValue, Document.count]
      omega
    obtain ⟨k, rfl⟩ : ∃ k, fuel = k + 1 := ⟨fuel - 1, by omega⟩
    -- each level of the tree takes one step, and the trees below are smaller
    have hw := written own (SchemaTree.propertiesValue properties) (SchemaTree.itemsValue items)
    rw [SchemaTree.toValue]
    refine readAt_succeeds hw.reference ?_
    refine readObject_succeeds hd (hs.of_unfolds hid h) hw (fun ps hps p hp pointer => ?_)
      (fun t ht pointer => ?_)
    · obtain ⟨c, hc, hu⟩ := hbelow ps hps p hp
      have := hcount ps hps p hp
      exact ihp ps hps p hp (hid.tail hc) hu (by omega) _ _ _
    · obtain ⟨c, hc, hu⟩ := hbelow' t ht
      have := hcount' t ht
      exact ihi t ht (hid.tail hc) hu (by omega) _ _ _

theorem entriesJson_propertyValues {ps : List (String × SchemaTree)} (hnames : (ps.map (·.1)).Nodup)
    (h : ∀ p ∈ ps, p.2.toValue.isJson = true) :
    entriesJson (SchemaTree.propertyValues ps) = true := by
  induction ps with
  | nil => rfl
  | cons p ps ih =>
    obtain ⟨name, t⟩ := p
    rw [List.forall_mem_cons] at h
    obtain ⟨hnew, hrest⟩ := List.nodup_cons.mp hnames
    have habsent : Value.entry? name (SchemaTree.propertyValues ps) = none := by
      cases hv : Value.entry? name (SchemaTree.propertyValues ps) with
      | none => rfl
      | some v => exact absurd (mem_names_of_entry hv) hnew
    rw [SchemaTree.propertyValues, entriesJson, h.1, habsent, ih hrest h.2]
    rfl

/-- The document of a tree is in JSON. -/
theorem isJson_tree (hs : s.AllKept) (hid : s.Reaches id) (h : s.Unfolds id t) :
    t.toValue.isJson = true := by
  induction t using SchemaTree.below_induction generalizing id with
  | h own properties items ihp ihi =>
    obtain ⟨hbelow, hbelow'⟩ := h.exists_child
    have hown := hs.of_unfolds hid h
    rw [SchemaTree.toValue, Value.isJson]
    refine entriesJson_written hown (fun v hv => ?_) (fun v hv => ?_)
    · cases properties with
      | none => cases hv
      | some ps =>
        cases hv
        refine entriesJson_propertyValues (hs.names hid h) fun p hp => ?_
        obtain ⟨c, hc, hu⟩ := hbelow ps rfl p hp
        exact ihp ps rfl p hp (hid.tail hc) hu
    · cases items with
      | none => cases hv
      | some t =>
        cases hv
        obtain ⟨c, hc, hu⟩ := hbelow' t rfl
        exact ihi t rfl (hid.tail hc) hu

end SchemaModel.Schema
