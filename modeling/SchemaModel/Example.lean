import SchemaModel.Schema.Load

/-!
The example schema: one property for every rule about defaults. It exists as a document and as a
table of nodes.
-/
namespace SchemaModel.Example

/-- An entry with a text key. -/
def entry (name : String) (v : Value) : Value × Value := (.text name, v)

/-- A mapping with text keys. -/
def mapping (entries : List (String × Value)) : Value :=
  .mapping (entries.map fun (name, v) => entry name v)

def texts (ss : List String) : Value := .list (ss.map .text)

/-- The number 1.337. -/
def decimal : Double := Double.ofDecimal false 1337 (-3)

/-- The example as a document. -/
def document : Value :=
  mapping
    [("type", .text "object"),
     ("properties", mapping
       [("stringWithDefault", mapping [("type", .text "string"), ("default", .text "abc")]),
        ("integerWithDefault", mapping [("type", .text "integer"), ("default", .int 1337)]),
        ("numberWithDefault", mapping [("type", .text "number"), ("default", .double decimal)]),
        ("booleanWithDefault", mapping [("type", .text "boolean"), ("default", .bool true)]),
        ("dateWithDefault", mapping [("type", .text "date"), ("default", .int 123456789)]),
        ("dateAsStringWithDefault", mapping
          [("type", .text "string"), ("format", .text "date-time"),
           ("default", .text "2011-02-24T09:25:23.112+0000")]),
        ("utcmillisecWithDefault", mapping
          [("type", .text "integer"), ("format", .text "utc-millisec"),
           ("default", .int 123456789)]),
        ("enumWithDefault", mapping
          [("enum", texts ["one", "two", "three"]), ("default", .text "two")]),
        ("complexPropertyWithDefault", mapping
          [("type", .text "object"),
           ("properties", mapping [("abc", mapping [("type", .text "string")])]),
           ("default", mapping [("abc", .text "xyz")])]),
        ("arrayWithDefault", mapping
          [("type", .text "array"), ("items", mapping [("type", .text "string")]),
           ("default", texts ["one", "two", "three"])]),
        ("uniqueArrayWithDefault", mapping
          [("type", .text "array"), ("uniqueItems", .bool true),
           ("items", mapping [("type", .text "integer")]),
           ("default", .list [.int 100, .int 200, .int 300])]),
        ("arrayWithoutDefault", mapping
          [("type", .text "array"), ("items", mapping [("type", .text "string")])]),
        ("uniqueArrayWithoutDefault", mapping
          [("type", .text "array"), ("uniqueItems", .bool true),
           ("items", mapping [("type", .text "boolean")])])])]

/-- A node of a kind, with a default. -/
def node (kind : String) (default : Option Literal := none) : SchemaNode :=
  { kind := .text kind, default }

/-- The example as a table of nodes: the root, its properties in order, then what they point to. -/
def schema : Schema :=
  { root := 0
    nodes := #[
      { kind := .text "object"
        properties := some
          [("stringWithDefault", some 1), ("integerWithDefault", some 2),
           ("numberWithDefault", some 3), ("booleanWithDefault", some 4),
           ("dateWithDefault", some 5), ("dateAsStringWithDefault", some 6),
           ("utcmillisecWithDefault", some 7), ("enumWithDefault", some 8),
           ("complexPropertyWithDefault", some 9), ("arrayWithDefault", some 10),
           ("uniqueArrayWithDefault", some 11), ("arrayWithoutDefault", some 12),
           ("uniqueArrayWithoutDefault", some 13)] },
      node "string" (some (.text "abc")),
      node "integer" (some (.int 1337)),
      node "number" (some (.decimal decimal)),
      node "boolean" (some (.bool true)),
      node "date" (some (.int 123456789)),
      { node "string" (some (.text "2011-02-24T09:25:23.112+0000")) with
        format := .text "date-time" },
      { node "integer" (some (.int 123456789)) with format := .text "utc-millisec" },
      { enum := some [.text "one", .text "two", .text "three"], default := some (.text "two") },
      { node "object" (some (.object [("abc", .text "xyz")])) with
        properties := some [("abc", some 14)] },
      { node "array" (some (.sequence [.text "one", .text "two", .text "three"])) with
        items := some 15 },
      { node "array" (some (.uniqueSequence [.int 100, .int 200, .int 300])) with
        unique := true, items := some 16 },
      { node "array" with items := some 17 },
      { node "array" with unique := true, items := some 18 },
      node "string", node "string", node "integer", node "string", node "boolean"] }

end SchemaModel.Example
