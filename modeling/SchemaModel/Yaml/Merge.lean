import SchemaModel.Yaml.Node

/-!
Merging of mappings. An entry whose key is a merge mark stands for the entries of another mapping,
or of several. They go in front of the mapping's own entries, so that these win. Merging changes the
graph itself: what another mapping merges later, or reads as a list of pairs, are merged entries.
-/
namespace SchemaModel.Yaml.Graph

abbrev Entries := List (Place × Place)

/-- The number of entries of all mappings, and so a bound of what can still be merged. -/
def entryCount (g : Graph) : Nat := (g.toList.map fun n => n.entries.length).foldr (· + ·) 0

def setEntries (g : Graph) (p : Place) (es : Entries) : Graph :=
  match g.node p with
  | .mapping t _ => g.put p (.mapping t es)
  | _ => g

/-- A key that is a default mark becomes a text like any other. -/
def settleKeys (g : Graph) (es : Entries) : Graph :=
  es.foldl (fun g e => if g.tag e.1 == .value then g.put e.1 ((g.node e.1).withTag .text) else g) g

/-- The entries of each of several mappings, `merge` merging into one of them. -/
def mergeEach (merge : Place → Graph → Except Error Graph) :
    List Place → Graph → Except Error (List Entries × Graph)
  | [], g => .ok ([], g)
  | p :: ps, g => do
    match g.node p with
    | .mapping .. => do
      let g ← merge p g
      let own := (g.node p).entries
      let (others, g) ← mergeEach merge ps g
      return (own :: others, g)
    | _ => throw .malformed

/-- Puts the entries that the mapping at a place merges in front of its own. Of several mappings the
first wins. `merged` holds what has been found so far. The entry is removed before it is followed,
so that a mapping may merge itself; every step removes one, and `fuel` counts them. -/
def mergeInto : Nat → Entries → Place → Graph → Except Error Graph
  | 0, _, _, g => .ok g
  | fuel + 1, merged, p, g =>
    let own := (g.node p).entries
    match own.findIdx? fun e => g.tag e.1 == .merge with
    | none => .ok ((g.settleKeys own).setEntries p (merged ++ own))
    | some i => do
      let source := ((own[i]?).map (·.2)).getD p
      let g := g.setEntries p (own.eraseIdx i)
      match g.node source with
      | .mapping .. => do
        let g ← mergeInto fuel [] source g
        mergeInto fuel (merged ++ (g.node source).entries) p g
      | .sequence _ ps => do
        let (found, g) ← mergeEach (mergeInto fuel []) ps g
        mergeInto fuel (merged ++ found.reverse.flatten) p g
      | .scalar .. => throw .malformed

/-- Does all merging of the mapping at a place. -/
def merge (p : Place) (g : Graph) : Except Error Graph := mergeInto (g.entryCount + 1) [] p g

end SchemaModel.Yaml.Graph
