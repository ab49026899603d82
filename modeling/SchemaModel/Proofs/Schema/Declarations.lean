import SchemaModel.Proofs.Number.Limit
import SchemaModel.Proofs.Schema.JsonValue
import SchemaModel.Schema.Load

/-!
What an object of a document declares, said of its entries: the kind, the documentation, choices
and default of a node, and the places of its children. A relation `R` tells which nodes stand for
which places.
-/
namespace SchemaModel

open Fallible

namespace Literal

mutual

/-- The literal that a place in JSON stands for. -/
inductive Of : Value → Literal → Prop
  | null : Of .null .null
  | bool {b} : Of (.bool b) (.bool b)
  | int {i} : Of (.int i) (.int i)
  | decimal {x} : Of (.double x) (.decimal x)
  | text {s} : Of (.text s) (.text s)
  | sequence {xs ls} (h : AllOf xs ls) : Of (.list xs) (.sequence ls)
  | object {es fs} (h : FieldsOf es fs) : Of (.mapping es) (.object fs)
  | marked {m v l} (h : Of v l) : Of (.marked m v) l

inductive AllOf : List Value → List Literal → Prop
  | nil : AllOf [] []
  | cons {x xs l ls} (h : Of x l) (hs : AllOf xs ls) : AllOf (x :: xs) (l :: ls)

/-- Fields have the keys of the entries for names, and stand in their order. -/
inductive FieldsOf : List (Value × Value) → List (String × Literal) → Prop
  | nil : FieldsOf [] []
  | cons {k v es l fs} (h : Of v l) (hs : FieldsOf es fs) :
      FieldsOf ((.text k, v) :: es) ((k, l) :: fs)

end

mutual

theorem of_ofValue : (v : Value) → {l : Literal} → v.isJson = true → ofValue v = .ok l → Of v l
  | .null, l, _, h => by cases h; exact .null
  | .bool b, l, _, h => by cases h; exact .bool
  | .int i, l, _, h => by cases h; exact .int
  | .double x, l, _, h => by cases h; exact .decimal
  | .text s, l, _, h => by cases h; exact .text
  | .marked m v, l, hj, h => by
    rw [ofValue] at h
    exact .marked (of_ofValue v hj h)
  | .list xs, l, hj, h => by
    rw [ofValue] at h
    obtain ⟨ls, hx, rfl⟩ := map_eq_ok.mp h
    exact .sequence (allOf_ofValues xs hj hx)
  | .mapping es, l, hj, h => by
    rw [ofValue] at h
    obtain ⟨fs, hx, rfl⟩ := map_eq_ok.mp h
    exact .object (fieldsOf_ofEntries es hj hx)
  | .bytes _, _, hj, _ | .date _, _, hj, _ | .moment _, _, hj, _ | .member _, _, hj, _
  | .tuple _, _, hj, _ | .set _, _, hj, _ | .unordered _, _, hj, _ | .frozen _, _, hj, _
  | .again .., _, hj, _ => by
    cases hj

theorem allOf_ofValues : (xs : List Value) → {ls : List Literal} → Value.allJson xs = true →
    ofValues xs = .ok ls → AllOf xs ls
  | [], _, _, h => by cases h; exact .nil
  | x :: xs, _, hj, h => by
    simp only [Value.allJson, Bool.and_eq_true] at hj
    rw [ofValues] at h
    obtain ⟨l, hx, h⟩ := bind_eq_ok.mp h
    obtain ⟨ls, hs, h⟩ := bind_eq_ok.mp h
    cases h
    exact .cons (of_ofValue x hj.1 hx) (allOf_ofValues xs hj.2 hs)

theorem fieldsOf_ofEntries : (es : List (Value × Value)) → {fs : List (String × Literal)} →
    Value.entriesJson es = true → ofEntries es = .ok fs → FieldsOf es fs
  | [], _, _, h => by cases h; exact .nil
  | (k, v) :: es, _, hj, h => by
    obtain ⟨name, w, he, hw, -, hes⟩ := Value.entriesJson_cons hj
    cases he
    rw [ofEntries] at h
    obtain ⟨l, hx, h⟩ := bind_eq_ok.mp h
    obtain ⟨fs, hs, h⟩ := bind_eq_ok.mp h
    cases h
    exact .cons (of_ofValue v hw hx) (fieldsOf_ofEntries es hes hs)

end

end Literal

namespace Schema

variable {document : Document} {entries : List (Value × Value)} {R : NodeId → Value → Prop}

/-- The object that is reached from a place by following references. -/
inductive Follows (document : Document) : Value → List (Value × Value) → Prop
  | object {v entries} (hv : document.content v = .mapping entries)
      (hr : Value.entry? "$ref" entries = none) : Follows document v entries
  | reference {v entries reference target found} (hv : document.content v = .mapping entries)
      (hr : Value.entry? "$ref" entries = some (.text reference))
      (ht : Pointer.resolve document reference = .ok target)
      (h : Follows document target found) : Follows document v found

/-- The text that a `type` entry gives for the kind: itself, or the first text of a list that is not
`null`. -/
inductive KindText (document : Document) : Value → String → Prop
  | text {v s} (hv : document.content v = .text s) : KindText document v s
  | first {v before s after} (hv : document.content v = .list (before ++ .text s :: after))
      (hs : s ≠ "null") (hb : ∀ t, Value.text t ∈ before → t = "null") : KindText document v s

/-- The kind of an object: the text of its `type`, or else that of objects if it has properties. -/
inductive KindOf (document : Document) (entries : List (Value × Value)) : Value → Prop
  | typed {v s} (hv : Value.entry? "type" entries = some v) (hs : KindText document v s) :
      KindOf document entries (.text s)
  | object (hv : ∀ v, Value.entry? "type" entries = some v → ∀ s, ¬ KindText document v s)
      (hp : (Value.entry? "properties" entries).isSome) :
      KindOf document entries (.text "object")
  | unknown (hv : ∀ v, Value.entry? "type" entries = some v → ∀ s, ¬ KindText document v s)
      (hp : Value.entry? "properties" entries = none) : KindOf document entries .null

/-- Documentation is a text, if there is any. -/
inductive DocumentationOf : Value → Value → Prop
  | null : DocumentationOf .null .null
  | text {s} : DocumentationOf (.text s) (.text s)
  | other {v} (hn : v ≠ .null) (ht : ∀ s, v ≠ .text s) : DocumentationOf v (.text v.display)

/-- A default is the literal of its place, as a unique sequence where a list is to be unique. -/
inductive DefaultOf (unique : Bool) : Value → Literal → Prop
  | uniqueSequence {v items} (hu : unique = true) (hl : Literal.Of v (.sequence items)) :
      DefaultOf unique v (.uniqueSequence items)
  | plain {v l} (hl : Literal.Of v l) (hn : unique = true → ∀ items, l ≠ .sequence items) :
      DefaultOf unique v l

/-- The properties of a node, one for each entry, in order. -/
def PropertiesOf (document : Document) (R : NodeId → Value → Prop)
    (properties : List (String × Option NodeId)) (v : Value) : Prop :=
  ∃ es, document.content v = .mapping es ∧
    List.Forall₂ (fun p e => e.1 = .text p.1 ∧ ∃ id, p.2 = some id ∧ R id e.2) properties es

/-- A node holds all that the entries of an object declare, and nothing else. -/
structure Declares (document : Document) (R : NodeId → Value → Prop)
    (entries : List (Value × Value)) (n : SchemaNode) : Prop where
  kind : KindOf document entries n.kind
  format : n.format = (Value.entry? "format" entries).getD .null
  unique : n.unique = ((Value.entry? "uniqueItems" entries).getD .null).isGiven
  title : DocumentationOf ((Value.entry? "title" entries).getD .null) n.title
  description : DocumentationOf ((Value.entry? "description" entries).getD .null) n.description
  properties : Option.Rel (PropertiesOf document R) n.properties (Value.entry? "properties" entries)
  items : Option.Rel R n.items (Value.entry? "items" entries)
  enum : Option.Rel (fun ls v => ∃ xs, document.content v = .list xs ∧ Literal.AllOf xs ls) n.enum
    (Value.entry? "enum" entries)
  default : Option.Rel (fun l v => DefaultOf n.unique v l) n.default (Value.entry? "default" entries)

/-- A relation under which every node declares what the object declares that its place leads to. -/
def Bisimulation (s : Schema) (document : Document) (R : NodeId → Value → Prop) : Prop :=
  ∀ id v, R id v → ∃ entries n, Follows document v entries ∧ s.node? id = some n ∧
    Declares document R entries n

/-- The nodes of a schema are bisimilar to the places of a document: the root stands for the whole,
and every node for some place. -/
def Bisimilar (s : Schema) (document : Document) : Prop :=
  ∃ R : NodeId → Value → Prop, R s.root document.value ∧ s.Bisimulation document R ∧
    ∀ id n, s.node? id = some n → ∃ v, R id v

theorem rel_mono {α β : Type} {r r' : α → β → Prop} (h : ∀ a b, r a b → r' a b) {x : Option α}
    {y : Option β} (hr : Option.Rel r x y) : Option.Rel r' x y := by
  cases hr with
  | none => exact .none
  | some hab => exact .some (h _ _ hab)

theorem rel_imp {α β : Type} {r r' : α → β → Prop} {x : Option α} {y : Option β}
    (hr : Option.Rel r x y) (h : ∀ a b, y = some b → r a b → r' a b) : Option.Rel r' x y := by
  cases hr with
  | none => exact .none
  | some hab => exact .some (h _ _ rfl hab)

theorem exists_of_rel {α β : Type} {r : α → β → Prop} {x : Option α} {y : Option β}
    (h : Option.Rel r x y) {a : α} (hx : x = some a) : ∃ b, y = some b ∧ r a b := by
  cases h with
  | none => cases hx
  | some hab =>
    cases hx
    exact ⟨_, rfl, hab⟩

theorem exists_of_rel_right {α β : Type} {r : α → β → Prop} {x : Option α} {y : Option β}
    (h : Option.Rel r x y) {b : β} (hy : y = some b) : ∃ a, x = some a ∧ r a b := by
  cases h with
  | none => cases hy
  | some hab =>
    cases hy
    exact ⟨_, rfl, hab⟩

theorem eq_none_of_rel {α β : Type} {r : α → β → Prop} {x : Option α}
    (h : Option.Rel r x (none : Option β)) : x = none := by
  cases h
  rfl

/-- There is only one object at the end of references. -/
theorem Follows.unique {v : Value} {es fs : List (Value × Value)} (h : Follows document v es)
    (h' : Follows document v fs) : es = fs := by
  induction h with
  | object hv hr =>
    cases h' with
    | object hv' hr' =>
      rw [hv] at hv'
      cases hv'
      rfl
    | reference hv' hr' =>
      rw [hv] at hv'
      cases hv'
      rw [hr] at hr'
      cases hr'
  | reference hv hr ht _ ih =>
    cases h' with
    | object hv' hr' =>
      rw [hv] at hv'
      cases hv'
      rw [hr] at hr'
      cases hr'
    | reference hv' hr' ht' h' =>
      rw [hv] at hv'
      cases hv'
      rw [hr] at hr'
      cases hr'
      rw [ht] at ht'
      cases ht'
      exact ih h'

theorem PropertiesOf.mono {R' : NodeId → Value → Prop} {ps : List (String × Option NodeId)}
    {v : Value} (h : PropertiesOf document R ps v) (hR : ∀ id v, R id v → R' id v) :
    PropertiesOf document R' ps v := by
  obtain ⟨es, hc, hall⟩ := h
  refine ⟨es, hc, hall.imp fun p e hpe => ?_⟩
  obtain ⟨hname, id, hid, hr⟩ := hpe
  exact ⟨hname, id, hid, hR id _ hr⟩

/-- What a node declares stays true when more nodes stand for places. -/
theorem Declares.mono {R' : NodeId → Value → Prop} {n : SchemaNode}
    (h : Declares document R entries n) (hR : ∀ id v, R id v → R' id v) :
    Declares document R' entries n :=
  { h with
    properties := rel_mono (fun _ _ hp => hp.mono hR) h.properties
    items := rel_mono hR h.items }

/-! ## Reading entries -/

theorem isGiven_content {v : Value} (hj : v.isJson = true) :
    (document.content v).isGiven = v.isGiven := by
  cases v with
  | again m isMapping => simp [Value.isJson] at hj
  | _ => rfl

/-- The first text of a list other than `null`, if there is one. -/
theorem kindText_of_list {v : Value} {xs : List Value} (hv : document.content v = .list xs)
    (p : Value → Bool)
    (hp : ∀ x, p x = match x with
      | .text s => s != "null"
      | _ => false) :
    (∃ s, (xs.find? p).getD .null = .text s ∧ KindText document v s) ∨
      ((xs.find? p).getD .null = .null ∧ ∀ s, ¬ KindText document v s) := by
  cases hf : xs.find? p with
  | some x =>
    obtain ⟨hx, before, after, rfl, hbefore⟩ := List.find?_eq_some_iff_append.mp hf
    rw [hp] at hx
    split at hx
    · rename_i s
      refine .inl ⟨s, rfl, .first hv (by simpa using hx) fun t ht => ?_⟩
      simpa [hp] using hbefore _ ht
    · cases hx
  | none =>
    refine .inr ⟨rfl, fun s hs => ?_⟩
    cases hs with
    | text hv' =>
      rw [hv] at hv'
      cases hv'
    | first hv' hs _ =>
      rw [hv] at hv'
      cases hv'
      simpa [hp, hs] using List.find?_eq_none.mp hf (.text s) (by simp)

/-- A `type` entry that can be read gives a text or nothing. -/
theorem declaredKind_ok {v k : Value} (h : declaredKind document v = .ok k) :
    (∃ s, k = .text s ∧ KindText document v s) ∨ (k = .null ∧ ∀ s, ¬ KindText document v s) := by
  unfold declaredKind at h
  split at h
  · rename_i hc
    cases h
    refine .inr ⟨rfl, fun s hs => ?_⟩
    cases hs with
    | text hv => simp [hc] at hv
    | first hv => simp [hc] at hv
  · rename_i s hc
    cases h
    exact .inl ⟨s, rfl, .text hc⟩
  · rename_i xs hc
    cases h
    exact kindText_of_list hc _ fun _ => rfl
  · cases h

theorem kindOf_of_declaredKind {k : Value} {isObject : Bool}
    (h : declaredKind document ((Value.entry? "type" entries).getD .null) = .ok k)
    (hi : isObject = true ↔ k = .null ∧ (Value.entry? "properties" entries).isSome = true) :
    KindOf document entries (if isObject then .text "object" else k) := by
  have hfound : (∃ s, k = .text s ∧ KindOf document entries k) ∨
      (k = .null ∧ ∀ v, Value.entry? "type" entries = some v → ∀ s, ¬ KindText document v s) := by
    cases ht : Value.entry? "type" entries with
    | none =>
      rw [ht] at h
      cases h
      exact .inr ⟨rfl, nofun⟩
    | some v =>
      rw [ht] at h
      obtain ⟨s, rfl, hs⟩ | ⟨rfl, hs⟩ := declaredKind_ok h
      · exact .inl ⟨s, rfl, .typed ht hs⟩
      · refine .inr ⟨rfl, ?_⟩
        rintro w ⟨⟩
        exact hs
  by_cases hp : (Value.entry? "properties" entries).isSome = true
  · obtain ⟨s, rfl, hk⟩ | ⟨rfl, hnone⟩ := hfound
    · rw [if_neg (by simp [hi])]
      exact hk
    · rw [if_pos (hi.mpr ⟨rfl, hp⟩)]
      exact .object hnone hp
  · rw [if_neg fun ht => hp (hi.mp ht).2]
    obtain ⟨s, rfl, hk⟩ | ⟨rfl, hnone⟩ := hfound
    · exact hk
    · exact .unknown hnone (by simpa using hp)

theorem documentation_ok {v d : Value} (h : documentation v = .ok d) : DocumentationOf v d := by
  unfold documentation at h
  split at h
  · cases h
    exact .null
  · cases h
    exact .text
  · rename_i hn ht
    split at h
    · rename_i s hs
      cases h
      rw [← (Value.display?_eq_some.mp hs).2]
      exact .other hn ht
    · cases h

theorem documentation_eq_error {v : Value} {e : LoadError} :
    documentation v = .error e ↔ v.hasLong = true ∧ e = .digits := by
  unfold documentation
  split
  · simp [Value.hasLong]
  · simp [Value.hasLong]
  · rw [Value.display?]
    cases v.hasLong <;> simp [eq_comm]

/-- What an object declares apart from its children, its choices and its default. -/
theorem declaration_ok (hd : document.IsJson) (hj : Value.entriesJson entries = true)
    {n : SchemaNode} (h : declaration document entries = .ok n) :
    KindOf document entries n.kind ∧ n.format = (Value.entry? "format" entries).getD .null ∧
      n.unique = ((Value.entry? "uniqueItems" entries).getD .null).isGiven ∧
      DocumentationOf ((Value.entry? "title" entries).getD .null) n.title ∧
      DocumentationOf ((Value.entry? "description" entries).getD .null) n.description := by
  have hunique : ((Value.entry? "uniqueItems" entries).getD .null).isJson = true := by
    cases hu : Value.entry? "uniqueItems" entries with
    | none => rfl
    | some v => exact Value.isJson_of_entry? hj hu
  unfold declaration at h
  simp only [hd.closed_eq, isGiven_content hunique] at h
  obtain ⟨k, hk, h⟩ := bind_eq_ok.mp h
  obtain ⟨title, htitle, h⟩ := bind_eq_ok.mp h
  obtain ⟨description, hdescription, h⟩ := bind_eq_ok.mp h
  cases h
  refine ⟨kindOf_of_declaredKind hk ?_, rfl, rfl, documentation_ok htitle,
    documentation_ok hdescription⟩
  cases k <;> simp

theorem literal_ok {v : Value} (hj : v.isJson = true) {l : Literal} (h : literal v = .ok l) :
    Literal.Of v l := by
  exact Literal.of_ofValue v hj (mapError_eq_ok.mp h)

theorem allOf_of_mapM {xs : List Value} (hj : Value.allJson xs = true) {ls : List Literal}
    (h : xs.mapM literal = .ok ls) : Literal.AllOf xs ls := by
  have hall := forall₂_of_mapM h
  clear h
  induction hall with
  | nil => exact .nil
  | cons hx _ ih =>
    simp only [Value.allJson, Bool.and_eq_true] at hj
    exact .cons (literal_ok hj.1 hx) (ih hj.2)

theorem defaultOf_flavoured (unique : Bool) {v : Value} {l : Literal} (h : Literal.Of v l) :
    DefaultOf unique v (l.flavoured unique) := by
  cases l with
  | sequence items =>
    cases unique with
    | true => exact .uniqueSequence rfl h
    | false => exact .plain h nofun
  | _ => exact .plain h fun _ _ he => nomatch he

theorem choices_ok (hd : document.IsJson) (hj : Value.entriesJson entries = true) {pointer : String}
    {enum : Option (List Literal)} (h : choices document pointer entries = .ok enum) :
    Option.Rel (fun ls v => ∃ xs, document.content v = .list xs ∧ Literal.AllOf xs ls) enum
      (Value.entry? "enum" entries) := by
  unfold choices at h
  cases he : Value.entry? "enum" entries with
  | none =>
    rw [he] at h
    cases h
    exact .none
  | some v =>
    rw [he] at h
    simp only [Option.map_some] at h
    split at h
    · simp_all
    · rename_i xs hc
      have hall : Value.allJson xs = true := by
        have := Document.isJson_content document (Value.isJson_of_entry? hj he)
        rwa [Option.some.inj hc] at this
      obtain ⟨ls, hx, rfl⟩ := map_eq_ok.mp h
      simp only [hd.closed_eq] at hx
      exact .some ⟨xs, Option.some.inj hc, allOf_of_mapM hall hx⟩
    · cases h

theorem declaredDefault_ok (hd : document.IsJson) (hj : Value.entriesJson entries = true)
    {unique : Bool} {default : Option Literal}
    (h : declaredDefault document unique entries = .ok default) :
    Option.Rel (fun l v => DefaultOf unique v l) default (Value.entry? "default" entries) := by
  unfold declaredDefault at h
  cases he : Value.entry? "default" entries with
  | none =>
    rw [he] at h
    cases h
    exact .none
  | some v =>
    rw [he] at h
    simp only [hd.closed_eq] at h
    obtain ⟨l, hl, rfl⟩ := map_eq_ok.mp h
    exact .some (defaultOf_flavoured unique (literal_ok (Value.isJson_of_entry? hj he) hl))

end Schema
end SchemaModel
