import SchemaModel.Proofs.Schema.Places

/-!
Spellings of pointers. A pointer stands for a place, which is given by the steps that lead to it from
the whole document. Different pointers can stand for one place: a tilde is read as itself unless a
digit follows, and an index can be written with further zeros or with digits of another script. Each
place has one usual spelling, and it is the one in which the pointers to children are written.
-/
namespace SchemaModel.Pointer

/-- A step of a document inwards. -/
inductive Key
  | entry (name : String)
  | item (index : Nat)
  deriving DecidableEq, Repr

/-- The step that a token stands for at a place: in a list it is an index. -/
def key (document : Document) (target : Value) (token : List Char) : Key :=
  match document.content target with
  | .list _ => .item ((index? token).getD 0)
  | _ => .entry (String.ofList token)

/-- The steps that tokens stand for from a place on, if they lead anywhere. -/
def keys? (document : Document) : Value → List (List Char) → Option (List Key)
  | _, [] => some []
  | v, token :: ts =>
    match step document v token with
    | .ok w => (keys? document w ts).map (key document v token :: ·)
    | .error _ => none

/-- The place that a pointer stands for. -/
def place? (document : Document) (pointer : String) : Option (List Key) :=
  (tokens? pointer).bind (keys? document document.value)

/-- The usual spelling of a step. -/
def Key.token : Key → String
  | .entry name => String.ofList (escape name.toList)
  | .item n => toString n

/-- The usual spelling of a place. -/
def spell (place : List Key) : String := place.foldl (fun pointer k => pointer ++ "/" ++ k.token) root

/-- A pointer that is spelled as usual. -/
def Usual (document : Document) (pointer : String) : Prop :=
  ∃ place, place? document pointer = some place ∧ pointer = spell place

variable {document : Document} {pointer pointer' : String} {v w u : Value}
  {entries properties : List (Value × Value)} {place : List Key} {name : String}

theorem keys?_append {ts us : List (List Char)} (h : ts.foldlM (step document) v = .ok w) :
    keys? document v (ts ++ us) =
      (keys? document v ts).bind fun ks => (keys? document w us).map (ks ++ ·) := by
  induction ts generalizing v with
  | nil =>
    cases h
    simp [keys?]
  | cons token ts ih =>
    rw [List.foldlM_cons] at h
    obtain ⟨v', hstep, h⟩ := Fallible.bind_eq_ok.mp h
    simp only [List.cons_append, keys?, hstep, ih h]
    cases keys? document v' ts <;> simp [Function.comp_def]

theorem key_of_mapping (hv : document.content v = .mapping entries) (token : List Char) :
    key document v token = .entry (String.ofList token) := by
  simp [key, hv]

theorem place?_property (h : resolve document pointer = .ok v)
    (hv : document.content v = .mapping entries)
    (hw : Value.entry? "properties" entries = some w)
    (hp : document.content w = .mapping properties)
    (hu : Value.entry? name properties = some u) :
    place? document (property pointer name) =
      (place? document pointer).map (· ++ [.entry "properties", .entry name]) := by
  obtain ⟨ts, hts, hfold⟩ := resolve_ok_iff.mp h
  have hfirst : step document v "properties".toList = .ok w := step_of_entry? hv hw
  have hsecond : step document w name.toList = .ok u :=
    step_of_entry? hp (by rwa [String.ofList_toList])
  rw [place?, tokens?_property name hts, place?, hts, Option.bind_some, Option.bind_some,
    keys?_append hfold]
  simp only [keys?, hfirst, hsecond, key_of_mapping hv, key_of_mapping hp, String.ofList_toList]
  cases keys? document document.value ts <;> rfl

theorem place?_items (h : resolve document pointer = .ok v)
    (hv : document.content v = .mapping entries) (hw : Value.entry? "items" entries = some w) :
    place? document (items pointer) = (place? document pointer).map (· ++ [.entry "items"]) := by
  obtain ⟨ts, hts, hfold⟩ := resolve_ok_iff.mp h
  have hstep : step document v "items".toList = .ok w := step_of_entry? hv hw
  rw [place?, tokens?_items hts, place?, hts, Option.bind_some, Option.bind_some,
    keys?_append hfold]
  simp only [keys?, hstep, key_of_mapping hv, String.ofList_toList]
  cases keys? document document.value ts <;> rfl

theorem spell_property (place : List Key) (name : String) :
    spell (place ++ [.entry "properties", .entry name]) = property (spell place) name := by
  have htable : Key.token (.entry "properties") = "properties" := by decide
  have hslashes : "/properties/" = "/" ++ ("properties" ++ "/") := by decide
  simp only [spell, List.foldl_append, List.foldl_cons, List.foldl_nil, property, htable, hslashes,
    String.append_assoc]
  rfl

theorem spell_items (place : List Key) : spell (place ++ [.entry "items"]) = items (spell place) := by
  have hitems : Key.token (.entry "items") = "items" := by decide
  have hslash : "/items" = "/" ++ "items" := by decide
  simp only [spell, List.foldl_append, List.foldl_cons, List.foldl_nil, items, hitems, hslash,
    String.append_assoc]

/-! ## The usual spelling -/

theorem usual_root : Usual document root := ⟨[], rfl, rfl⟩

/-- Pointers to children keep the spelling of the pointer that they stand below. -/
theorem Usual.inner (hd : document.IsJson) (h : Usual document pointer)
    (hv : resolve document pointer = .ok v) (hc : document.content v = .mapping entries)
    (hi : Schema.Inner document pointer entries pointer' w) : Usual document pointer' := by
  obtain ⟨place, hplace, hspell⟩ := h
  have hj := Document.entriesJson_of_content (hd.resolve hv) hc
  cases hi with
  | @property _ _ name _ hw hps hu =>
    have hpj := Document.entriesJson_of_content (Value.isJson_of_entry? hj hw) hps
    refine ⟨place ++ [.entry "properties", .entry name], ?_, ?_⟩
    · rw [place?_property hv hc hw hps (Value.entry?_of_mem hpj hu), hplace, Option.map_some]
    · rw [spell_property, hspell]
  | items hu =>
    refine ⟨place ++ [.entry "items"], ?_, ?_⟩
    · rw [place?_items hv hc hu, hplace, Option.map_some]
    · rw [spell_items, hspell]

/-- Two pointers that are spelled as usual are the same exactly if they stand for one place. -/
theorem Usual.eq_iff (h : Usual document pointer) (h' : Usual document pointer') :
    pointer = pointer' ↔ place? document pointer = place? document pointer' := by
  obtain ⟨place, hplace, hspell⟩ := h
  obtain ⟨place', hplace', hspell'⟩ := h'
  constructor
  · rintro rfl
    rfl
  · intro he
    rw [hplace, hplace', Option.some.injEq] at he
    rw [hspell, hspell', he]

end SchemaModel.Pointer
