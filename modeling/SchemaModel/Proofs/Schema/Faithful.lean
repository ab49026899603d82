import SchemaModel.Proofs.Schema.Reading
import SchemaModel.Schema.Source

/-!
Loading is faithful. Reading a place keeps the invariant of loading and gives a node that stands for
the place, so that in the end the nodes and the places of the document are bisimilar when references
are followed.
-/
namespace SchemaModel.Schema

open Stateful

variable {document : Document} {l l' : Loading} {pending : List NodeId} {pointer : String}
  {id : NodeId} {v : Value} {entries : List (Value × Value)}
  {read : Value → String → Loading.Action NodeId}

/-! ## Runs keep the invariant -/

/-- The nodes of properties stand for the places that the entries of the properties hold. -/
theorem propertiesOf_of_places (hd : document.IsJson)
    (hv : Pointer.resolve document pointer = .ok v) (hc : document.content v = .mapping entries)
    {w : Value} (hw : Value.entry? "properties" entries = some w) {es : List (Value × Value)}
    (hes : document.content w = .mapping es) {ps : List (String × Option NodeId)}
    (hall : List.Forall₂ (fun p e => e.1 = .text p.1 ∧
      ∃ c, p.2 = some c ∧ (Pointer.property pointer p.1, c) ∈ l.places) ps es) :
    PropertiesOf document (l.At document) ps w := by
  have hj := Document.entriesJson_of_content (hd.resolve hv) hc
  have hwj := Document.entriesJson_of_content (Value.isJson_of_entry? hj hw) hes
  obtain ⟨hlength, hzip⟩ := List.forall₂_iff_zip.mp hall
  refine ⟨es, hes, List.forall₂_iff_zip.mpr ⟨hlength, fun {p e} hm => ?_⟩⟩
  obtain ⟨hname, c, hc', hplace⟩ := hzip hm
  obtain ⟨key, u⟩ := e
  obtain rfl : key = .text p.1 := hname
  have hu := Value.entry?_of_mem hwj (List.of_mem_zip hm).2
  exact ⟨rfl, c, hc', _, hplace, Pointer.resolve_property hv hc hw hes hu⟩

/-- A node that covers an object declares what the object declares. -/
theorem Covers.declares (hd : document.IsJson) (hv : Pointer.resolve document pointer = .ok v)
    (hc : document.content v = .mapping entries) {n : SchemaNode}
    (h : Covers l document pointer entries n) : Declares document (l.At document) entries n := by
  have hj := Document.entriesJson_of_content (hd.resolve hv) hc
  obtain ⟨base, hbase, hn⟩ := h.declared
  obtain ⟨hkind, hformat, hunique, htitle, hdescription⟩ := declaration_ok hd hj hbase
  exact
    { kind := by rwa [hn]
      format := by rwa [hn]
      unique := by rwa [hn]
      title := by rwa [hn]
      description := by rwa [hn]
      properties := rel_imp h.properties fun _ _ hw ⟨_, hes, hall⟩ =>
        propertiesOf_of_places hd hv hc hw hes hall
      items := rel_imp h.items fun _ _ hw hm => ⟨_, hm, Pointer.resolve_items hv hc hw⟩
      enum := choices_ok hd hj h.enum
      default := declaredDefault_ok hd hj h.default }

theorem stepsKeep_inv (hd : document.IsJson) :
    StepsKeep document fun pending l => l.Inv document pending where
  register h _ hv ho := h.register hv (.object ho.1 ho.2)
  link h hm hv hr := by
    obtain ⟨entries, hc, he⟩ := reference?_eq hr.1
    exact h.link hm hr.2 hv fun _ hes => .reference hc he hr.2 hes
  fill h hm hv ho hcovers :=
    h.fill ⟨_, ⟨_, hm, hv⟩, .object ho.1 ho.2⟩ (hcovers.declares hd hv ho.1)

/-! ## The schema of a document -/

/-- When nothing is pending, the nodes are bisimilar to the places they stand for. -/
theorem bisimilar_of_inv {s : Schema} (h : Loading.Inv ⟨s.nodes, l.places⟩ document [])
    (hroot : (Pointer.root, s.root) ∈ l.places) : s.Bisimilar document := by
  refine ⟨Loading.At ⟨s.nodes, l.places⟩ document, ⟨_, hroot, Pointer.resolve_root⟩,
    fun id v hat => ?_, fun id n hn => ?_⟩
  · have hid := Array.getElem?_eq_getElem (h.lt_of_at hat)
    obtain ⟨entries, hsource, hdecl⟩ := h.filled id _ hid List.not_mem_nil
    obtain ⟨pointer, hm, hp⟩ := hat
    obtain ⟨w, found, hw, hfound⟩ := h.resolved pointer id hm
    rw [hp] at hw
    cases hw
    -- the node may stand for several places, but they all lead to one object
    cases h.sourceUnique id _ _ hsource ⟨v, ⟨pointer, hm, hp⟩, hfound⟩
    exact ⟨entries, _, hfound, hid, hdecl⟩
  · obtain ⟨entries, ⟨v, hat, -⟩, -⟩ := h.filled id n hn List.not_mem_nil
    exact ⟨v, hat⟩

theorem ofDocument_ok {s : Schema} (hd : document.IsJson) (h : ofDocument document = .ok s) :
    ∃ l : Loading, Loading.Inv ⟨s.nodes, l.places⟩ document [] ∧
      (Pointer.root, s.root) ∈ l.places := by
  obtain ⟨places, hinv, hroot⟩ := keeps_ofDocument hd (stepsKeep_inv hd) .empty h
  exact ⟨⟨s.nodes, places⟩, hinv, hroot⟩

/-- A schema that is loaded from a document in JSON is bisimilar to it. -/
theorem bisimilar_ofDocument {s : Schema} (hd : document.IsJson)
    (h : ofDocument document = .ok s) : s.Bisimilar document := by
  obtain ⟨l, hinv, hroot⟩ := ofDocument_ok hd h
  exact bisimilar_of_inv hinv hroot

/-- A document with references to the whole, into another subtree, and to a property whose name
needs escapes. -/
def folders : Document :=
  .ofValue (.mapping [
    (.text "definitions", .mapping [
      (.text "label", .mapping [
        (.text "type", .list [.text "null", .text "string"]), (.text "enum", .list [.text "x"])])]),
    (.text "properties", .mapping [
      (.text "in/out", .mapping [(.text "$ref", .text "#/definitions/label")]),
      (.text "parent", .mapping [(.text "$ref", .text "#")]),
      (.text "labels", .mapping [
        (.text "type", .text "array"), (.text "uniqueItems", .bool true),
        (.text "items", .mapping [(.text "$ref", .text "#/properties/in~1out")]),
        (.text "default", .list [.text "x", .text "x"])])])])

theorem bisimilar_folders : ∃ s, folders.IsJson ∧ ofDocument folders = .ok s ∧
    s.nodes.toList.map (·.propertyList) =
      [[("in/out", some 1), ("parent", some 0), ("labels", some 2)], [], []] ∧
    s.nodes.toList.map (·.items) = [none, none, some 1] ∧ s.Bisimilar folders := by
  have hd : folders.IsJson := Document.isJson_ofValue (by decide)
  have hrun : (ofDocument folders).toOption.map
      (fun s => (s.nodes.toList.map (·.propertyList), s.nodes.toList.map (·.items))) =
        some ([[("in/out", some 1), ("parent", some 0), ("labels", some 2)], [], []],
          [none, none, some 1]) := by decide +kernel
  cases hs : ofDocument folders with
  | error e =>
    rw [hs] at hrun
    cases hrun
  | ok s =>
    rw [hs] at hrun
    simp only [Except.toOption, Option.map_some, Option.some.injEq, Prod.mk.injEq] at hrun
    exact ⟨s, hd, rfl, hrun.1, hrun.2, bisimilar_ofDocument hd hs⟩

/-- A schema that is read from a JSON text is bisimilar to the document in the text. -/
theorem bisimilar_ofText {s : Schema} {text : String} (h : ofText .json text = .ok s) :
    ∃ document, DocumentFormat.json.read text = .ok document ∧ s.Bisimilar document := by
  unfold ofText at h
  obtain ⟨document, hr, h⟩ := Fallible.bind_eq_ok.mp h
  have hdocument := Fallible.mapError_eq_ok.mp hr
  obtain ⟨l, hinv, hroot⟩ := ofDocument_ok (Document.isJson_of_readJson hdocument)
    (Fallible.mapError_eq_ok.mp h)
  exact ⟨document, hdocument, bisimilar_of_inv hinv hroot⟩

end SchemaModel.Schema
