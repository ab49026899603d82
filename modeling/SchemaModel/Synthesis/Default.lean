import SchemaModel.OrderedSet.Basic
import SchemaModel.Synthesis.Conversion

/-!
Default values. A declared literal becomes a value of the property's type. Without a literal, or
with null, a collection is empty and anything else is null; a reference is null whatever is
declared.
-/
namespace SchemaModel

/-- A literal that cannot become a value of its type. -/
structure ConversionError where
  property : String
  target : TargetType
  literal : Option Literal
  reason : String
  deriving Repr

/-- Property names as messages show them. -/
def propertyLabel (name : String) : String := if name.isEmpty then "<anonymous>" else name

def ConversionError.message (e : ConversionError) : String :=
  let head := "Cannot convert default " ++ Literal.sourceOf e.literal ++ " of property '" ++
    propertyLabel e.property ++ "' to " ++ e.target.text
  if e.reason.isEmpty then head else head ++ ": " ++ e.reason

/-- Why no default value is found. Besides literals that do not fit, a date may lie a day past the
end of the calendar, a pattern may name a field twice, and a literal that does not fit may hold an
integer with too many digits for the message about it. -/
inductive SynthesisError
  | conversion (e : ConversionError)
  | overflow
  | repeatedField
  | digits
  deriving Repr

namespace Synthesis

/-- The error of a literal that does not fit. It shows the literal, which must be possible. -/
def unfit (property : String) (target : TargetType) (l : Literal) (cause : ConversionFault) :
    SynthesisError :=
  if l.hasLong then .digits
  else .conversion { property, target, literal := some l, reason := cause.message }

/-- Lifts a failed conversion. -/
def lift {α : Type} (property : String) (target : TargetType) (l : Literal)
    (x : Except ConversionFault α) : Except SynthesisError α :=
  x.mapError (unfit property target l)

/-- Lifts a failed reading of a date. -/
def liftDate {α : Type} (property : String) (target : TargetType) (l : Literal)
    (x : Except DateError α) : Except SynthesisError α :=
  x.mapError fun
    | .fault cause => unfit property target l (.date cause)
    | .overflow => .overflow
    | .repeatedField => .repeatedField

/-- The value of a date type that a literal declares. -/
def date (property : String) (kind : DateKind) (format : Option String) (l : Literal) :
    Except SynthesisError Value :=
  let target := TargetType.date kind format
  match kind with
  | .epochMillisAsLong => (lift property target l (l.toSigned 64)).map .int
  | .epochMillis => do
    let millis ← lift property target l (l.toSigned 64)
    let m ← lift property target l ((Moment.ofEpochMillis millis).mapError .date)
    return .moment m
  | .formatted =>
    match l with
    | .text s => (liftDate property target l (Moment.ofText s format)).map .moment
    | _ => .error (unfit property target l (.notDateText format))

/-- The items of a declared collection; null declares none. -/
def items (property : String) (target : TargetType) (l : Option Literal) :
    Except SynthesisError (List Literal) :=
  match l with
  | none | some .null => .ok []
  | some l =>
    match l.items? with
    | some ls => .ok ls
    | none => .error (unfit property target l .notSequence)

end Synthesis

/-- The default value of a property of the given type. -/
def synthesize (property : String) : TargetType → Option Literal → Except SynthesisError Value
  | .reference _, _ => .ok .null
  | .list element, l =>
    if element.isReference then .ok (.list [])
    else do
      let ls ← Synthesis.items property (.list element) l
      return .list (← ls.mapM fun item => synthesize property element (some item))
  | .set element, l =>
    if element.isReference then .ok (.set [])
    else do
      let ls ← Synthesis.items property (.set element) l
      let xs ← ls.mapM fun item => synthesize property element (some item)
      return (OrderedSet.ofList xs).toValue
  | _, none | _, some .null => .ok .null
  | .scalar kind, some l => Synthesis.lift property (.scalar kind) l (l.toScalar kind)
  | .date kind format, some l => Synthesis.date property kind format l
  | .enum type, some l => Synthesis.lift property (.enum type) l (l.toMember type)

end SchemaModel
