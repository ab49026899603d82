import SchemaModel.Schema.Node
import SchemaModel.Settings
import SchemaModel.TargetType

/-!
What the declaration of a node says about its type, before names are given. The first rule that
applies decides: declared choices, the format of epoch milliseconds, then the declared kind.
Arrays are looked through down to what their innermost items say.
-/
namespace SchemaModel

/-- The format of integers that count milliseconds since the epoch. -/
def epochMillisFormat : String := "utc-millisec"

/-- What one declaration says. -/
inductive Form
  /-- A type that needs no name. -/
  | type (t : TargetType)
  | choices (literals : List Literal)
  | array (unique : Bool) (items : Option NodeId)
  | object
  | unrecognized
  deriving Repr

namespace SchemaNode

/-- The choices that a node declares; an empty list of choices declares none. -/
def choices? (n : SchemaNode) : Option (List Literal) :=
  match n.enum with
  | some (l :: ls) => some (l :: ls)
  | _ => none

/-- What the kind of a node says, its format read under the given settings. -/
def formOfKind (settings : Settings) (n : SchemaNode) : Form :=
  match n.knownKind? with
  | some .date =>
    match settings.dateFormat? n.format with
    | some f => .type (.date .formatted (some f))
    | none => .type (.date .epochMillis none)
  | some .string =>
    match settings.dateFormat? n.format with
    | some f => .type (.date .formatted (some f))
    | none => .type (.scalar .string)
  | some .integer => .type (.scalar (if settings.longIntegers then .long else .integer))
  | some .number => .type (.scalar .double)
  | some .boolean => .type (.scalar .boolean)
  | some .array => .array n.unique n.items
  | some .object => .object
  | none => .unrecognized

/-- What a node says. -/
def form (settings : Settings) (n : SchemaNode) : Form :=
  match n.choices? with
  | some literals => .choices literals
  | none =>
    if n.format.text? = some epochMillisFormat then
      .type (.date .epochMillisAsLong (some epochMillisFormat))
    else n.formOfKind settings

end SchemaNode

/-- What is found at the end of a chain of arrays. -/
inductive Leaf
  | type (t : TargetType)
  | choices (id : NodeId) (literals : List Literal)
  | object (id : NodeId)
  | unrecognized (kind : Value)
  deriving Repr

/-- What a place of a schema says: the arrays on the way, from the outside in, by whether their
items form a set, and what the innermost items say. -/
structure Outline where
  arrays : List Bool
  leaf : Leaf
  deriving Repr

/-- The collections of a chain of arrays around a type. -/
def wrap (arrays : List Bool) (t : TargetType) : TargetType :=
  arrays.foldr (fun unique t => if unique then .set t else .list t) t

namespace Schema

/-- Follows items through arrays. Items that are not declared are texts. A chain of more arrays than
there are nodes never ends. -/
def outlineFrom (s : Schema) (settings : Settings) : Nat → Option NodeId → Option Outline
  | _, none => some ⟨[], .type (.scalar .string)⟩
  | 0, some _ => none
  | fuel + 1, some id =>
    match s.node? id with
    | none => some ⟨[], .type (.scalar .string)⟩
    | some n =>
      match n.form settings with
      | .type t => some ⟨[], .type t⟩
      | .choices literals => some ⟨[], .choices id literals⟩
      | .object => some ⟨[], .object id⟩
      | .unrecognized => some ⟨[], .unrecognized n.kind⟩
      | .array unique items =>
        (outlineFrom s settings fuel items).map fun o => { o with arrays := unique :: o.arrays }

/-- What a place says, unless its arrays contain themselves. -/
def outline? (s : Schema) (settings : Settings) (place : Option NodeId) : Option Outline :=
  s.outlineFrom settings (s.nodes.size + 1) place

end Schema
end SchemaModel
