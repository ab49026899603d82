import SchemaModel.Proofs.Schema.Homes
import SchemaModel.Proofs.Schema.Positions
import SchemaModel.Proofs.Schema.Spelling

/-!
Sharing of nodes. Two positions have one node exactly if references end at one pointer from both.
Where references are spelled as usual, that is to say at one place of the document.
-/
namespace SchemaModel.Schema

/-- The pointer to a child below the pointer to its object. -/
def Step.below (pointer : String) : Step → String
  | .property name => Pointer.property pointer name
  | .items => Pointer.items pointer

/-- What an object names as its child by a step. -/
def Step.Place (document : Document) (entries : List (Value × Value)) (u : Value) : Step → Prop
  | .property name => ∃ w ps, Value.entry? "properties" entries = some w ∧
      document.content w = .mapping ps ∧ (.text name, u) ∈ ps
  | .items => Value.entry? "items" entries = some u

/-- The place that a document has for a position, and the pointer under which it is visited. -/
inductive PlaceAt (document : Document) : List Step → String → Value → Prop
  | root : PlaceAt document [] Pointer.root document.value
  | step {position pointer v last w entries step u} (h : PlaceAt document position pointer v)
      (he : Ends document pointer v last w) (ho : Holds document w entries)
      (hc : Step.Place document entries u step) :
      PlaceAt document (step :: position) (step.below last) u

/-- References from a position end at an object under a pointer. -/
def EndsAt (document : Document) (position : List Step) (last : String) : Prop :=
  ∃ pointer v w, PlaceAt document position pointer v ∧ Ends document pointer v last w

variable {document : Document} {s : Schema} {l : Loading} {position : List Step} {step : Step}
  {pointer pointer' last last' : String} {id c : NodeId} {v w u : Value}
  {entries : List (Value × Value)} {n : SchemaNode}

/-! ## Children -/

theorem Step.Place.inner (h : Step.Place document entries u step) :
    Inner document pointer entries (step.below pointer) u := by
  cases step with
  | property name =>
    obtain ⟨w, ps, hw, hps, hu⟩ := h
    exact .property hw hps hu
  | items => exact .items h

theorem Step.Place.unique (hj : Value.entriesJson entries = true) {u' : Value}
    (h : Step.Place document entries u step) (h' : Step.Place document entries u' step) :
    u = u' := by
  cases step with
  | property name =>
    obtain ⟨w, ps, hw, hps, hu⟩ := h
    obtain ⟨w', ps', hw', hps', hu'⟩ := h'
    rw [hw] at hw'
    cases hw'
    rw [hps] at hps'
    cases hps'
    have hpj := Document.entriesJson_of_content (Value.isJson_of_entry? hj hw) hps
    have := Value.entry?_of_mem hpj hu
    rw [Value.entry?_of_mem hpj hu'] at this
    cases this
    rfl
  | items =>
    have := Eq.symm h |>.trans h'
    cases this
    rfl

/-- A node has the children that the object it covers names. -/
theorem Covers.exists_place (h : Covers l document pointer entries n) (hc : Step.Node n c step) :
    ∃ u, Step.Place document entries u step ∧ (step.below pointer, c) ∈ l.places := by
  cases step with
  | property name =>
    obtain ⟨ps, hps, hm⟩ : ∃ ps, n.properties = some ps ∧ (name, some c) ∈ ps := by
      rw [Step.Node, SchemaNode.propertyList] at hc
      cases hp : n.properties with
      | none => simp [hp] at hc
      | some ps => exact ⟨ps, rfl, by simpa [hp] using hc⟩
    obtain ⟨w, hw, es, hes, hall⟩ := exists_of_rel h.properties hps
    obtain ⟨⟨key, u⟩, hu, hname, c', hc', hplace⟩ := exists_of_forall₂ hall hm
    cases hname
    cases hc'
    exact ⟨u, ⟨w, es, hw, hes, hu⟩, hplace⟩
  | items =>
    obtain ⟨u, hu, hplace⟩ := exists_of_rel h.items hc
    exact ⟨u, hu, hplace⟩

theorem Covers.exists_node (h : Covers l document pointer entries n)
    (hu : Step.Place document entries u step) :
    ∃ c, Step.Node n c step ∧ (step.below pointer, c) ∈ l.places := by
  cases step with
  | property name =>
    obtain ⟨w, es, hw, hes, hu⟩ := hu
    obtain ⟨ps, hps, es', hes', hall⟩ := exists_of_rel_right h.properties hw
    rw [hes] at hes'
    cases hes'
    obtain ⟨⟨name', c'⟩, hp, hname, c, hc, hplace⟩ := exists_of_forall₂ hall.flip hu
    cases hname
    cases hc
    refine ⟨c, ?_, hplace⟩
    rwa [Step.Node, SchemaNode.propertyList, hps]
  | items =>
    obtain ⟨c, hc, hplace⟩ := exists_of_rel_right h.items hu
    exact ⟨c, hc, hplace⟩

/-! ## Positions -/

theorem PlaceAt.visited (h : PlaceAt document position pointer v) : Visited document pointer v := by
  induction h with
  | root => exact .root
  | step _ he ho hc ih => exact (he.visited ih).inner ho hc.inner

/-- A position has one place. -/
theorem PlaceAt.unique (hd : document.IsJson) {v' : Value}
    (h : PlaceAt document position pointer v) (h' : PlaceAt document position pointer' v') :
    pointer = pointer' ∧ v = v' := by
  induction h generalizing pointer' v' with
  | root =>
    cases h'
    exact ⟨rfl, rfl⟩
  | step h he ho hc ih =>
    cases h' with
    | step h' he' ho' hc' =>
      obtain ⟨rfl, rfl⟩ := ih h'
      obtain ⟨rfl, rfl⟩ := he.unique he'
      obtain rfl := ho.unique ho'
      have hw := hd.resolve (he.resolve (h.visited.resolve hd))
      exact ⟨rfl, hc.unique (Document.entriesJson_of_content hw ho.1) hc'⟩

theorem EndsAt.unique (hd : document.IsJson) (h : EndsAt document position last)
    (h' : EndsAt document position last') : last = last' := by
  obtain ⟨pointer, v, w, hp, he⟩ := h
  obtain ⟨pointer', v', w', hp', he'⟩ := h'
  obtain ⟨rfl, rfl⟩ := hp.unique hd hp'
  exact (he.unique he').1

variable {places : List (String × NodeId)}

/-- The node at a position is at home where references from the position end. -/
theorem NodeAt.exists_endsAt (hd : document.IsJson)
    (hl : Loading.Housed document [] ⟨s.nodes, places⟩) (hroot : (Pointer.root, s.root) ∈ places)
    (h : NodeAt s position id) :
    ∃ last, EndsAt document position last ∧ Loading.Home ⟨s.nodes, places⟩ document id last := by
  have hends : ∀ {position pointer v id}, PlaceAt document position pointer v →
      (pointer, id) ∈ places →
      ∃ last, EndsAt document position last ∧ Loading.Home ⟨s.nodes, places⟩ document id last := by
    intro position pointer v id hp hm
    have hv := hp.visited.resolve hd
    obtain ⟨v', last, w, hv', he⟩ := hl.ends _ _ hm
    rw [hv] at hv'
    cases hv'
    exact ⟨last, ⟨pointer, v, w, hp, he⟩, hl.home hm hv he⟩
  induction h with
  | root => exact hends .root hroot
  | @step position id n step c _ hn hc ih =>
    obtain ⟨last, ⟨pointer, v, w, hp, he⟩, hm, w', entries, hw', ho⟩ := ih
    have hw := he.resolve (hp.visited.resolve hd)
    rw [hw] at hw'
    cases hw'
    obtain ⟨n', hn', hcovers⟩ := hl.covered _ _ _ _ hm List.not_mem_nil hw ho
    obtain rfl : n = n' := Option.some.inj (hn.symm.trans hn')
    obtain ⟨u, hu, hchild⟩ := hcovers.exists_place hc
    exact hends (hp.step he ho hu) hchild

/-- A position of the document is one of the schema. -/
theorem PlaceAt.exists_nodeAt (hd : document.IsJson)
    (hl : Loading.Housed document [] ⟨s.nodes, places⟩) (hroot : (Pointer.root, s.root) ∈ places)
    (h : PlaceAt document position pointer v) :
    ∃ id, NodeAt s position id ∧ (pointer, id) ∈ places := by
  induction h with
  | root => exact ⟨s.root, .root, hroot⟩
  | step hp he ho hc ih =>
    obtain ⟨id, hnode, hm⟩ := ih
    have hv := hp.visited.resolve hd
    obtain ⟨hlast, -⟩ := hl.home hm hv he
    obtain ⟨n, hn, hcovers⟩ := hl.covered _ _ _ _ hlast List.not_mem_nil (he.resolve hv) ho
    obtain ⟨c, hchild, hplace⟩ := hcovers.exists_node hc
    exact ⟨c, hnode.step hn hchild, hplace⟩

/-- Where references are spelled as usual, so are all pointers that are visited. -/
theorem Visited.usual (hd : document.IsJson)
    (href : ∀ pointer v reference target, Visited document pointer v →
      Refers document v reference target → Pointer.Usual document reference)
    (h : Visited document pointer v) : Pointer.Usual document pointer := by
  induction h with
  | root => exact Pointer.usual_root
  | target h hr _ => exact href _ _ _ _ h hr
  | inner h ho hi ih => exact ih.inner hd (h.resolve hd) ho.1 hi

/-! ## One node for one place -/

/-- Two positions have one node exactly if references from them end at one place. -/
def Shares (document : Document) (s : Schema) : Prop :=
  ∀ position position' id id' last last', NodeAt s position id → NodeAt s position' id' →
    EndsAt document position last → EndsAt document position' last' →
    (id = id' ↔ Pointer.place? document last = Pointer.place? document last')

/-- The positions of a loaded schema are those of the document. Two of them have one node exactly if
references from them end at one pointer; where references are spelled as usual, at one place. -/
theorem same_node_iff (hd : document.IsJson) (h : ofDocument document = .ok s) :
    (∀ position, (∃ id, NodeAt s position id) ↔ ∃ last, EndsAt document position last) ∧
    (∀ position position' id id' last last', NodeAt s position id → NodeAt s position' id' →
      EndsAt document position last → EndsAt document position' last' →
      (id = id' ↔ last = last')) ∧
    ((∀ pointer v reference target, Visited document pointer v →
      Refers document v reference target → Pointer.Usual document reference) →
      Shares document s) := by
  obtain ⟨places, hl, hroot⟩ := keeps_ofDocument hd Loading.stepsKeep_housed .empty h
  have hpointers : ∀ position position' id id' last last', NodeAt s position id →
      NodeAt s position' id' → EndsAt document position last → EndsAt document position' last' →
      (id = id' ↔ last = last') := by
    intro position position' id id' last last' hn hn' he he'
    obtain ⟨home, hends, hhome⟩ := hn.exists_endsAt hd hl hroot
    obtain ⟨home', hends', hhome'⟩ := hn'.exists_endsAt hd hl hroot
    obtain rfl := hends.unique hd he
    obtain rfl := hends'.unique hd he'
    exact hl.homes _ _ _ _ hhome hhome'
  refine ⟨fun position => ⟨?_, ?_⟩, hpointers, fun href => ?_⟩
  · rintro ⟨id, hn⟩
    obtain ⟨last, he, -⟩ := hn.exists_endsAt hd hl hroot
    exact ⟨last, he⟩
  · rintro ⟨last, pointer, v, w, hp, -⟩
    obtain ⟨id, hn, -⟩ := hp.exists_nodeAt hd hl hroot
    exact ⟨id, hn⟩
  · intro position position' id id' last last' hn hn' he he'
    have husual : ∀ {position last}, EndsAt document position last → Pointer.Usual document last := by
      rintro position last ⟨pointer, v, w, hp, hends⟩
      exact (hends.visited hp.visited).usual hd href
    rw [hpointers _ _ _ _ _ _ hn hn' he he']
    exact (husual he).eq_iff (husual he')

/-- The properties that nodes declare, found by loading the document. -/
theorem exists_of_lists (document : Document) (root : NodeId)
    (lists : List (List (String × Option NodeId))) (h : (ofDocument document).toOption.map (fun s =>
      (s.root, s.nodes.toList.map (·.propertyList))) = some (root, lists)) :
    ∃ s, ofDocument document = .ok s ∧ NodeAt s [] root ∧
      ∀ position id ps name c, NodeAt s position id → lists[id]? = some ps → (name, some c) ∈ ps →
        NodeAt s (.property name :: position) c := by
  obtain ⟨s, hs, h⟩ := Option.map_eq_some_iff.mp h
  obtain ⟨rfl, rfl⟩ := Prod.mk.inj h
  refine ⟨s, Fallible.toOption_eq_some.mp hs, .root, fun position id ps name c hp hps hc => ?_⟩
  rw [List.getElem?_map, Array.getElem?_toList, Option.map_eq_some_iff] at hps
  obtain ⟨n, hn, rfl⟩ := hps
  exact hp.step hn hc

/-- A definition that is referenced directly and by another name, and a property like it. -/
def aliases : Document :=
  .ofValue (.mapping [
    (.text "definitions", .mapping [
      (.text "name", .mapping [(.text "type", .text "string")]),
      (.text "alias", .mapping [(.text "$ref", .text "#/definitions/name")])]),
    (.text "properties", .mapping [
      (.text "first", .mapping [(.text "$ref", .text "#/definitions/alias")]),
      (.text "last", .mapping [(.text "$ref", .text "#/definitions/name")]),
      (.text "other", .mapping [(.text "type", .text "string")])])])

theorem same_node_iff_aliases : ∃ s, aliases.IsJson ∧ ofDocument aliases = .ok s ∧
    NodeAt s [.property "first"] 1 ∧ NodeAt s [.property "last"] 1 ∧
    NodeAt s [.property "other"] 2 ∧
    (∀ last last', EndsAt aliases [.property "first"] last →
      EndsAt aliases [.property "last"] last' → last = last') ∧
    ∀ last last', EndsAt aliases [.property "first"] last →
      EndsAt aliases [.property "other"] last' → last ≠ last' := by
  have hd : aliases.IsJson := Document.isJson_ofValue (by decide)
  obtain ⟨s, hs, hroot, hproperty⟩ := exists_of_lists aliases 0
    [[("first", some 1), ("last", some 1), ("other", some 2)], [], []]
    (by decide +kernel)
  have hfirst : NodeAt s [.property "first"] 1 := hproperty _ _ _ _ _ hroot rfl (by simp)
  have hlast : NodeAt s [.property "last"] 1 := hproperty _ _ _ _ _ hroot rfl (by simp)
  have hother : NodeAt s [.property "other"] 2 := hproperty _ _ _ _ _ hroot rfl (by simp)
  have hsame := (same_node_iff hd hs).2.1
  refine ⟨s, hd, hs, hfirst, hlast, hother, fun _ _ he he' => ?_, fun _ _ he he' hlast => ?_⟩
  · exact (hsame _ _ _ _ _ _ hfirst hlast he he').mp rfl
  · cases (hsame _ _ _ _ _ _ hfirst hother he he').mpr hlast

/-- A property that refers to itself from inside, with a tilde that is not written in full. -/
def tildes : Document :=
  .ofValue (.mapping [
    (.text "properties", .mapping [
      (.text "x~y", .mapping [
        (.text "properties", .mapping [
          (.text "self", .mapping [(.text "$ref", .text "#/properties/x~y")])])])])])

theorem not_shares_tildes : ∃ s, ofDocument tildes = .ok s ∧ ¬ Shares tildes s := by
  obtain ⟨s, hs, hroot, hproperty⟩ := exists_of_lists tildes 0
    [[("x~y", some 1)], [("self", some 2)], [("self", some 2)]] (by decide +kernel)
  have houter : NodeAt s [.property "x~y"] 1 := hproperty _ _ _ _ _ hroot rfl (by simp)
  have hinner : NodeAt s [.property "self", .property "x~y"] 2 :=
    hproperty _ _ _ _ _ houter rfl (by simp)
  have hx : PlaceAt tildes [.property "x~y"] "#/properties/x~0y" _ :=
    .step .root (.here ⟨rfl, rfl⟩) ⟨rfl, rfl⟩ ⟨_, _, rfl, rfl, List.mem_singleton.mpr rfl⟩
  have hplace : EndsAt tildes [.property "x~y"] "#/properties/x~0y" :=
    ⟨_, _, _, hx, .here ⟨rfl, rfl⟩⟩
  have hplace' : EndsAt tildes [.property "self", .property "x~y"] "#/properties/x~y" :=
    ⟨_, _, _, hx.step (.here ⟨rfl, rfl⟩) ⟨rfl, rfl⟩
      ⟨_, _, rfl, rfl, List.mem_singleton.mpr rfl⟩, .reference ⟨rfl, rfl⟩ (.here ⟨rfl, rfl⟩)⟩
  refine ⟨s, hs, fun hshares => ?_⟩
  cases (hshares _ _ _ _ _ _ houter hinner hplace hplace').mpr (by decide +kernel)

end SchemaModel.Schema
