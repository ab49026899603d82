import SchemaModel.Proofs.Schema.Loading
import SchemaModel.Proofs.Schema.Places
import SchemaModel.Proofs.Tables
import SchemaModel.Schema.Load

/-!
Runs of loading, taken apart. A run that succeeds remembers what it reads and forgets nothing, and
whatever its steps keep holds at its end.
-/
namespace SchemaModel

namespace Schema

open Stateful

variable {document : Document} {l l' : Loading} {pending : List NodeId} {pointer : String}
  {id : NodeId} {v : Value} {entries : List (Value × Value)}
  {read : Value → String → Loading.Action NodeId}

/-! ## Runs taken apart -/

theorem readProperties_cons_ok {e : Value × Value} {es : List (Value × Value)}
    {out : List (String × Option NodeId)}
    (h : readProperties read pointer (e :: es) l = .ok (out, l')) :
    ∃ name w id rest l₁, e = (.text name, w) ∧ out = (name, some id) :: rest ∧
      read w (Pointer.property pointer name) l = .ok (id, l₁) ∧
      readProperties read pointer es l₁ = .ok (rest, l') := by
  obtain ⟨key, w⟩ := e
  cases key
  case text name =>
    rw [readProperties, bind_eq_ok] at h
    obtain ⟨id, l₁, hid, h⟩ := h
    rw [bind_eq_ok] at h
    obtain ⟨rest, l₂, hrest, h⟩ := h
    obtain ⟨rfl, rfl⟩ := pure_eq_ok.mp h
    exact ⟨name, w, id, rest, l₁, rfl, rfl, hid, hrest⟩
  all_goals cases h

/-- The items are read, if there are any, before what comes next. -/
theorem readItems_ok {next : Option NodeId → Loading.Action SchemaNode} {n : SchemaNode}
    (h : (match Value.entry? "items" entries with
      | none => (pure none : Loading.Action (Option NodeId)) >>= next
      | some w => read w (Pointer.items pointer) >>= fun id => pure (some id) >>= next) l =
        .ok (n, l')) :
    ∃ items l₁, next items l₁ = .ok (n, l') ∧
      ((Value.entry? "items" entries = none ∧ items = none ∧ l₁ = l) ∨
        ∃ w id, Value.entry? "items" entries = some w ∧ items = some id ∧
          read w (Pointer.items pointer) l = .ok (id, l₁)) := by
  cases hi : Value.entry? "items" entries with
  | none =>
    simp only [hi, bind_eq_ok, pure_eq_ok] at h
    obtain ⟨_, _, ⟨rfl, rfl⟩, h⟩ := h
    exact ⟨_, _, h, .inl ⟨rfl, rfl, rfl⟩⟩
  | some w =>
    simp only [hi, bind_eq_ok, pure_eq_ok] at h
    obtain ⟨id, l₁, hid, _, _, ⟨rfl, rfl⟩, h⟩ := h
    exact ⟨_, _, h, .inr ⟨w, id, rfl, rfl, hid⟩⟩

/-- The choices and the default are read last, and loading goes on as before. -/
theorem readLiterals_ok {base n : SchemaNode} {properties : Option (List (String × Option NodeId))}
    {items : Option NodeId}
    (h : (do
      let enum ← liftM (choices document pointer entries)
      let default ← liftM (declaredDefault document base.unique entries)
      return { base with properties, items, enum, default } : Loading.Action SchemaNode) l =
        .ok (n, l')) :
    ∃ enum default, n = { base with properties, items, enum, default } ∧ l' = l ∧
      choices document pointer entries = .ok enum ∧
      declaredDefault document base.unique entries = .ok default := by
  simp only [bind_eq_ok, lift_eq_ok, pure_eq_ok] at h
  obtain ⟨enum, _, ⟨henum, rfl⟩, default, _, ⟨hdefault, rfl⟩, rfl, rfl⟩ := h
  exact ⟨enum, default, rfl, rfl, henum, hdefault⟩

/-- An object is read by its declaration, its properties, its items, its choices and its default. -/
theorem readObject_ok {n : SchemaNode}
    (h : readObject document read pointer entries l = .ok (n, l')) :
    ∃ base properties items enum default l₁,
      n = { base with properties, items, enum, default } ∧
      declaration document entries = .ok base ∧
      ((Value.entry? "properties" entries = none ∧ properties = none ∧ l₁ = l) ∨
        ∃ w es ps, Value.entry? "properties" entries = some w ∧ document.content w = .mapping es ∧
          properties = some ps ∧ readProperties read pointer es l = .ok (ps, l₁)) ∧
      ((Value.entry? "items" entries = none ∧ items = none ∧ l' = l₁) ∨
        ∃ w id, Value.entry? "items" entries = some w ∧ items = some id ∧
          read w (Pointer.items pointer) l₁ = .ok (id, l')) ∧
      choices document pointer entries = .ok enum ∧
      declaredDefault document base.unique entries = .ok default := by
  rw [readObject, bind_eq_ok] at h
  obtain ⟨base, l₀, hlift, h⟩ := h
  obtain ⟨hbase, rfl⟩ := lift_eq_ok.mp hlift
  cases hp : Value.entry? "properties" entries with
  | none =>
    simp only [hp, Option.map_none] at h
    rw [bind_eq_ok] at h
    obtain ⟨_, _, hpure, h⟩ := h
    obtain ⟨rfl, rfl⟩ := pure_eq_ok.mp hpure
    obtain ⟨items, l₁, h, hitems⟩ := readItems_ok h
    obtain ⟨enum, default, rfl, rfl, henum, hdefault⟩ := readLiterals_ok h
    exact ⟨base, none, items, enum, default, _, rfl, hbase, .inl ⟨rfl, rfl, rfl⟩, hitems, henum,
      hdefault⟩
  | some w =>
    simp only [hp, Option.map_some] at h
    cases hc : document.content w
    case mapping es =>
      simp only [hc] at h
      rw [bind_eq_ok] at h
      obtain ⟨ps, l₁, hps, h⟩ := h
      rw [bind_eq_ok] at h
      obtain ⟨_, _, hpure, h⟩ := h
      obtain ⟨rfl, rfl⟩ := pure_eq_ok.mp hpure
      obtain ⟨items, l₂, h, hitems⟩ := readItems_ok h
      obtain ⟨enum, default, rfl, rfl, henum, hdefault⟩ := readLiterals_ok h
      exact ⟨base, some ps, items, enum, default, _, rfl, hbase,
        .inr ⟨w, es, ps, rfl, hc, rfl, hps⟩, hitems, henum, hdefault⟩
    all_goals
      simp only [hc] at h
      cases h

theorem follow_ok {reference : String} {target : Value}
    (h : follow document reference = .ok target) :
    Pointer.resolve document reference = .ok target :=
  Fallible.mapError_eq_ok.mp h

/-- A place is known, or its reference is followed, or it gets a node for the object it holds. -/
theorem readAt_ok {fuel : Nat} {path : List Nat} {chain : List String}
    (h : readAt document (fuel + 1) path chain v pointer l = .ok (id, l')) :
    (l.place? pointer = some id ∧ l' = l) ∨
    (∃ reference target l₁, Refers document v reference target ∧
      readAt document fuel [] (pointer :: chain) target reference l = .ok (id, l₁) ∧
      l' = l₁.link pointer id) ∨
    (∃ entries n path l₁, Holds document v entries ∧ l.place? pointer = none ∧ id = l.nodes.size ∧
      readObject document (readAt document fuel path []) pointer entries (l.register pointer) =
        .ok (n, l₁) ∧ l' = l₁.fill id n) := by
  rw [readAt, bind_eq_ok] at h
  obtain ⟨l₀, l₁, hget, h⟩ := h
  cases hget
  cases hp : l.place? pointer with
  | some known =>
    rw [hp] at h
    obtain ⟨rfl, rfl⟩ := pure_eq_ok.mp h
    exact .inl ⟨rfl, rfl⟩
  | none =>
    simp only [hp] at h
    right
    cases hr : reference? (document.content v) with
    | some reference =>
      simp only [hr] at h
      cases reference
      case text reference =>
        left
        simp only at h
        split at h
        · cases h
        · simp only [bind_eq_ok, lift_eq_ok, pure_eq_ok] at h
          obtain ⟨target, _, ⟨hfollow, rfl⟩, id', l₁, hread, _, _, hlink, rfl, rfl⟩ := h
          cases hlink
          exact ⟨reference, target, l₁, ⟨hr, follow_ok hfollow⟩, hread, rfl⟩
      all_goals cases h
    | none =>
      right
      simp only [hr] at h
      split at h
      · cases h
      · simp only [bind_eq_ok] at h
        obtain ⟨l₁, _, hget, _, _, hregister, h⟩ := h
        cases hget
        cases hregister
        cases hc : document.content v
        case mapping entries =>
          rw [hc] at h hr
          simp only [bind_eq_ok, pure_eq_ok] at h
          obtain ⟨n, l₂, hread, _, _, hfill, rfl, rfl⟩ := h
          cases hfill
          exact ⟨entries, n, _, l₂, ⟨hc, hr⟩, rfl, rfl, hread, rfl⟩
        all_goals
          rw [hc] at h
          cases h

/-! ## What steps keep -/

/-- What a node has of the object under a pointer: what the object declares, and as its children the
nodes that are remembered with the pointers to them. -/
structure Covers (l : Loading) (document : Document) (pointer : String)
    (entries : List (Value × Value)) (n : SchemaNode) : Prop where
  declared : ∃ base, declaration document entries = .ok base ∧
    n = { base with properties := n.properties, items := n.items, enum := n.enum,
                    default := n.default }
  properties : Option.Rel (fun ps w => ∃ es, document.content w = .mapping es ∧
    List.Forall₂ (fun p e => e.1 = .text p.1 ∧
      ∃ c, p.2 = some c ∧ (Pointer.property pointer p.1, c) ∈ l.places) ps es)
    n.properties (Value.entry? "properties" entries)
  items : Option.Rel (fun c _ => (Pointer.items pointer, c) ∈ l.places) n.items
    (Value.entry? "items" entries)
  enum : choices document pointer entries = .ok n.enum
  default : declaredDefault document n.unique entries = .ok n.default

/-- The steps of loading keep a property of what is built: a node is registered for an object before
it is filled, and a pointer from which a reference leads on is linked to the node of its target.
Nodes that are still to be filled are pending. -/
structure StepsKeep (document : Document) (I : List NodeId → Loading → Prop) : Prop where
  register : ∀ {pending l pointer v entries}, I pending l → l.place? pointer = none →
    Pointer.resolve document pointer = .ok v → Holds document v entries →
    I (l.nodes.size :: pending) (l.register pointer)
  link : ∀ {pending l pointer v reference target id}, I pending l → (reference, id) ∈ l.places →
    Pointer.resolve document pointer = .ok v → Refers document v reference target →
    I pending (l.link pointer id)
  fill : ∀ {pending l pointer v entries id n}, I (id :: pending) l → (pointer, id) ∈ l.places →
    Pointer.resolve document pointer = .ok v → Holds document v entries →
    Covers l document pointer entries n → I pending (l.fill id n)

/-- Reading a place keeps a property and remembers the node of the place. -/
def ReadKeeps (document : Document) (I : List NodeId → Loading → Prop)
    (read : Value → String → Loading.Action NodeId) : Prop :=
  ∀ pending v pointer id (l l' : Loading), I pending l → Pointer.resolve document pointer = .ok v →
    read v pointer l = .ok (id, l') → I pending l' ∧ l.Grows l' ∧ (pointer, id) ∈ l'.places

variable {I : List NodeId → Loading → Prop}

theorem readProperties_keeps (hread : ReadKeeps document I read) (h : I pending l)
    {es : List (Value × Value)} {out : List (String × Option NodeId)}
    (hes : ∀ name w, (.text name, w) ∈ es →
      Pointer.resolve document (Pointer.property pointer name) = .ok w)
    (hr : readProperties read pointer es l = .ok (out, l')) :
    I pending l' ∧ l.Grows l' ∧
      List.Forall₂ (fun p e => e.1 = .text p.1 ∧
        ∃ c, p.2 = some c ∧ (Pointer.property pointer p.1, c) ∈ l'.places) out es := by
  induction es generalizing l out with
  | nil =>
    obtain ⟨rfl, rfl⟩ := pure_eq_ok.mp hr
    exact ⟨h, .refl _, .nil⟩
  | cons e es ih =>
    obtain ⟨name, w, id, rest, l₁, rfl, rfl, hid, hrest⟩ := readProperties_cons_ok hr
    obtain ⟨hkept, hg, hm⟩ := hread pending w _ id l l₁ h (hes name w List.mem_cons_self) hid
    -- places are never forgotten, so what was read first is still there behind the rest
    obtain ⟨hkept', hg', hall⟩ := ih hkept (fun n u hm => hes n u (List.mem_cons_of_mem _ hm)) hrest
    exact ⟨hkept', hg.trans hg', .cons ⟨rfl, id, rfl, hg'.places hm⟩ hall⟩

theorem Covers.properties_after {es : List (Value × Value)} {ps : List (String × Option NodeId)}
    (hg : l.Grows l')
    (h : List.Forall₂ (fun p e => e.1 = .text p.1 ∧
      ∃ c, p.2 = some c ∧ (Pointer.property pointer p.1, c) ∈ l.places) ps es) :
    List.Forall₂ (fun p e => e.1 = .text p.1 ∧
      ∃ c, p.2 = some c ∧ (Pointer.property pointer p.1, c) ∈ l'.places) ps es :=
  h.imp fun _ _ ⟨hname, c, hc, hm⟩ => ⟨hname, c, hc, hg.places hm⟩

/-- Nothing of an object is lost when more is read. -/
theorem Covers.after {n : SchemaNode} (h : Covers l document pointer entries n) (hg : l.Grows l') :
    Covers l' document pointer entries n :=
  { h with
    properties := rel_mono (fun _ _ ⟨es, hes, hall⟩ => ⟨es, hes, properties_after hg hall⟩)
      h.properties
    items := rel_mono (fun _ _ hm => hg.places hm) h.items }

/-- The children of an object are remembered. -/
theorem Covers.inner {n : SchemaNode} {pointer' : String} {w : Value}
    (h : Covers l document pointer entries n) (hi : Inner document pointer entries pointer' w) :
    ∃ id, (pointer', id) ∈ l.places := by
  cases hi with
  | property hw hps hu =>
    obtain ⟨ps, -, es, hes, hall⟩ := exists_of_rel_right h.properties hw
    rw [hps] at hes
    cases hes
    obtain ⟨p, -, hname, c, -, hm⟩ := exists_of_forall₂ hall.flip hu
    cases hname
    exact ⟨c, hm⟩
  | items hu =>
    obtain ⟨c, -, hm⟩ := exists_of_rel_right h.items hu
    exact ⟨c, hm⟩

/-- Reading an object gives a node that covers it. -/
theorem readObject_keeps (hd : document.IsJson) (hread : ReadKeeps document I read)
    (h : I pending l) (hv : Pointer.resolve document pointer = .ok v)
    (hc : document.content v = .mapping entries) {n : SchemaNode}
    (hr : readObject document read pointer entries l = .ok (n, l')) :
    I pending l' ∧ l.Grows l' ∧ Covers l' document pointer entries n := by
  have hj := Document.entriesJson_of_content (hd.resolve hv) hc
  obtain ⟨base, properties, items, enum, default, l₁, rfl, hbase, hprops, hitems, henum,
    hdefault⟩ :=
    readObject_ok hr
  have hproperties : I pending l₁ ∧ l.Grows l₁ ∧
      Option.Rel (fun ps w => ∃ es, document.content w = .mapping es ∧
        List.Forall₂ (fun p e => e.1 = .text p.1 ∧
          ∃ c, p.2 = some c ∧ (Pointer.property pointer p.1, c) ∈ l₁.places) ps es)
        properties (Value.entry? "properties" entries) := by
    obtain ⟨hnone, rfl, rfl⟩ | ⟨w, es, ps, hw, hes, rfl, hps⟩ := hprops
    · rw [hnone]
      exact ⟨h, .refl _, .none⟩
    · have hwj := Document.entriesJson_of_content (Value.isJson_of_entry? hj hw) hes
      obtain ⟨hkept, hg, hall⟩ := readProperties_keeps hread h (fun name u hm =>
        Pointer.resolve_property hv hc hw hes (Value.entry?_of_mem hwj hm)) hps
      rw [hw]
      exact ⟨hkept, hg, .some ⟨es, hes, hall⟩⟩
  obtain ⟨hkept, hg, hproperties⟩ := hproperties
  have hitem : I pending l' ∧ l₁.Grows l' ∧
      Option.Rel (fun c _ => (Pointer.items pointer, c) ∈ l'.places) items
        (Value.entry? "items" entries) := by
    obtain ⟨hnone, rfl, rfl⟩ | ⟨w, id, hw, rfl, hid⟩ := hitems
    · rw [hnone]
      exact ⟨hkept, .refl _, .none⟩
    · obtain ⟨hkept', hg', hm⟩ :=
        hread pending w _ id l₁ l' hkept (Pointer.resolve_items hv hc hw) hid
      rw [hw]
      exact ⟨hkept', hg', .some hm⟩
  obtain ⟨hkept', hg', hitem⟩ := hitem
  exact ⟨hkept', hg.trans hg',
    { declared := ⟨base, hbase, rfl⟩
      properties := rel_mono (fun _ _ ⟨es, hes, hall⟩ => ⟨es, hes, Covers.properties_after hg' hall⟩)
        hproperties
      items := hitem
      enum := henum
      default := hdefault }⟩

/-- What the steps keep is kept by reading a place, however many steps it takes. -/
theorem readAt_keeps (hd : document.IsJson) (hI : StepsKeep document I) (fuel : Nat)
    (path : List Nat) (chain : List String) :
    ReadKeeps document I (readAt document fuel path chain) := by
  induction fuel generalizing path chain with
  | zero =>
    intro pending v pointer id l l' _ _ hr
    cases hr
  | succ fuel ih =>
    intro pending v pointer id l l' h hv hr
    obtain ⟨hknown, rfl⟩ | ⟨reference, target, l₁, href, hread, rfl⟩ |
      ⟨entries, n, path', l₁, ho, hnew, rfl, hread, rfl⟩ := readAt_ok hr
    · exact ⟨h, .refl _, Tables.mem_of_lookup hknown⟩
    · -- the target is read under its own pointer, and this pointer is linked to its node
      obtain ⟨hkept, hg, hm⟩ := ih [] (pointer :: chain) pending target reference id l l₁ h href.2
        hread
      exact ⟨hI.link hkept hm hv href, hg.trans (.link l₁ pointer id), List.mem_cons_self⟩
    · -- the node is registered before it is filled: a reference back to it meets it as pending
      have hregister := hI.register h hnew hv ho
      obtain ⟨hkept, hg, hcovers⟩ := readObject_keeps hd (ih path' []) hregister hv ho.1 hread
      have hm := hg.places (List.mem_cons_self (a := (pointer, l.nodes.size)) (l := l.places))
      exact ⟨hI.fill hkept hm hv ho hcovers,
        ((Loading.Grows.register l pointer).trans hg).trans (.fill l₁ _ n), hm⟩

/-- What the steps keep holds of what is built for a document. -/
theorem keeps_ofDocument (hd : document.IsJson) (hI : StepsKeep document I) (h₀ : I [] ⟨#[], []⟩)
    {s : Schema} (h : ofDocument document = .ok s) :
    ∃ places, I [] ⟨s.nodes, places⟩ ∧ (Pointer.root, s.root) ∈ places := by
  unfold ofDocument at h
  split at h
  · obtain ⟨p, hr, h⟩ := Fallible.bind_eq_ok.mp h
    cases h
    obtain ⟨hkept, -, hroot⟩ := readAt_keeps hd hI _ [] [] [] document.value _ p.1 _ p.2 h₀
      Pointer.resolve_root hr
    exact ⟨p.2.places, hkept, hroot⟩
  · cases h

end Schema
end SchemaModel
