import DeltaView.Error
import DeltaView.Expr.Basic
import DeltaView.Expr.Function

/-!
# Evaluation of expressions

An expression is checked once and evaluated on many rows. `check` refuses the first aggregate,
unknown expression or unknown function, a call's name before its arguments; `eval` gives every
expression a value, and null to what `check` refuses.
-/

namespace DeltaView

namespace Expr

mutual

/-- Refuses an expression that has no value on a row. -/
def check : Expr → Except Error Unit
  | .literal _ => .ok ()
  | .ref _ => .ok ()
  | .call name args =>
    match Function.ofName? name with
    | none => .error (.unsupportedFunction name)
    | some _ => checkAll args
  | .aggregate name _ => .error (.misplacedAggregate name)
  | .unknown => .error .unknownExpression

def checkAll : List Expr → Except Error Unit
  | [] => .ok ()
  | e :: es =>
    match check e with
    | .error err => .error err
    | .ok _ => checkAll es

end

/-- The field at a path of a row; a missing field and the empty path are null. -/
def field (path : List String) (row : Value) : Value :=
  if path.isEmpty then .null else (row.path? path).getD .null

mutual

/-- The value of an expression on a row. -/
def eval (row : Value) : Expr → Value
  | .literal v => v
  | .ref path => field path row
  | .call name args =>
    match Function.ofName? name with
    | none => .null
    | some f => f.apply (evalAll row args)
  | .aggregate _ _ => .null
  | .unknown => .null

def evalAll (row : Value) : List Expr → List Value
  | [] => []
  | e :: es => eval row e :: evalAll row es

end

/-- Does a row satisfy an expression? -/
def holds (e : Expr) (row : Value) : Bool := (e.eval row).isTruthy

/-- Is the expression a call of a known function? -/
def isSupported : Expr → Bool
  | .call name _ => (Function.ofName? name).isSome
  | _ => false

end Expr

end DeltaView
