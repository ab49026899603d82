import SchemaModel.TargetType
import SchemaModel.Value.Basic

/-!
Default values as expressions of the generated module. An expression evaluates to a value equal to
the one that it is written for.
-/
namespace SchemaModel.Emission

/-- Why a value has no expression under a type. -/
inductive ExpressionError
  | unwritable (value : Value) (target : TargetType)
  /-- A moment that universal time places outside the calendar. -/
  | overflow
  /-- An integer with too many digits was to be written. -/
  | digits
  deriving Repr

def ExpressionError.message : ExpressionError → String
  | .unwritable value target => "Cannot render " ++ value.source ++ " as " ++ target.text
  | .overflow => ""
  | .digits => Numeral.limitMessage none

/-- The error about a value that has no expression. It shows the value, which must be possible. -/
def unwritable (value : Value) (target : TargetType) : ExpressionError :=
  if value.hasLong then .digits else .unwritable value target

/-- The fields of a moment in universal time; a moment without a known clock is in it already. -/
def momentExpression (m : Moment) : String :=
  "_dt.datetime(" ++ ", ".intercalate
    (([m.date.year, m.date.month, m.date.day, m.hour, m.minute, m.second, m.microsecond].map
      toString) ++ ["tzinfo=_dt.timezone.utc"]) ++ ")"

/-- A number; those that are not finite are read from their name. -/
def doubleExpression (x : Double) : String :=
  if x.isFinite then x.text else "float('" ++ x.text ++ "')"

mutual

/-- The expression of a value of the given type. -/
def expression (target : TargetType) : Value → Except ExpressionError String
  | .null => .ok "None"
  | .bool b => .ok (Value.boolSource b)
  | .int i => if Numeral.isLong i then .error .digits else .ok (toString i)
  | .double x => .ok (doubleExpression x)
  | .text s => .ok (Text.quoted s)
  | .moment m =>
    match m.offset with
    | none => .ok (momentExpression m)
    | some _ =>
      match m.toUtc? with
      | some u => .ok (momentExpression u)
      | none => .error .overflow
  | .member m =>
    match target with
    | .enum type => .ok (type.name ++ "." ++ m.name)
    | _ => .error (unwritable (.member m) target)
  | .set xs =>
    match target with
    | .set element => do
      return "_OrderedSet([" ++ ", ".intercalate (← expressions element xs) ++ "])"
    | _ => .error (unwritable (.set xs) target)
  | .list xs =>
    match target with
    | .list element => do return "[" ++ ", ".intercalate (← expressions element xs) ++ "]"
    | _ => .error (unwritable (.list xs) target)
  | .bytes bs => .error (unwritable (.bytes bs) target)
  | .date d => .error (unwritable (.date d) target)
  | .tuple xs => .error (unwritable (.tuple xs) target)
  | .unordered xs => .error (unwritable (.unordered xs) target)
  | .frozen xs => .error (unwritable (.frozen xs) target)
  | .mapping es => .error (unwritable (.mapping es) target)
  | .marked m v => .error (unwritable (.marked m v) target)
  | .again m isMapping => .error (unwritable (.again m isMapping) target)

def expressions (target : TargetType) : List Value → Except ExpressionError (List String)
  | [] => .ok []
  | x :: xs => do return (← expression target x) :: (← expressions target xs)

end

end SchemaModel.Emission
