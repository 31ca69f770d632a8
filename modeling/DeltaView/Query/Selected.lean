import DeltaView.Error
import DeltaView.Query.Basic

/-!
# Selected fields

SELECT puts what it makes of a row into one field of the row. Once rows are grouped that field is
all that is left of them, so later clauses read aggregates and grouped expressions there:
`Expr.throughSelect` replaces those by references to the fields that hold them, and refuses an
aggregate that SELECT does not make.
-/

namespace DeltaView

/-- The field of a row that holds what SELECT makes of it. -/
def selectedField : String := "$selected"

/-- What SELECT made of a row. -/
def Value.selected (row : Value) : Value := (row.field? selectedField).getD .null

/-- A row that is left with what SELECT made of it. -/
def Value.ofSelected (v : Value) : Value := .object [(selectedField, v)]

/-- A row together with what SELECT made of it. -/
def Value.withSelected (row selected : Value) : Value :=
  match row with
  | .object fields => .object (setField selectedField selected fields)
  | _ => ofSelected selected

namespace Expr

/-- The reference to the first field of SELECT with this expression. -/
def selectedAs? (fields : List SelectField) (e : Expr) : Option Expr :=
  (fields.find? (·.expr == e)).map fun f => .ref [selectedField, f.label]

mutual

/-- The expression with every part that SELECT makes read from its field. -/
def throughSelect (fields : List SelectField) : Expr → Except Error Expr
  | .literal v => .ok ((selectedAs? fields (.literal v)).getD (.literal v))
  | .ref path => .ok ((selectedAs? fields (.ref path)).getD (.ref path))
  | .call name args =>
    match selectedAs? fields (.call name args) with
    | some e => .ok e
    | none => (throughSelectAll fields args).map (.call name)
  | .aggregate name args =>
    match selectedAs? fields (.aggregate name args) with
    | some e => .ok e
    | none => .error (.aggregateNotSelected name)
  | .unknown => .ok ((selectedAs? fields .unknown).getD .unknown)

def throughSelectAll (fields : List SelectField) : List Expr → Except Error (List Expr)
  | [] => .ok []
  | e :: es => do return (← throughSelect fields e) :: (← throughSelectAll fields es)

end

mutual

/-- The name of the first aggregate outside the arguments of other aggregates. -/
def firstAggregate? : Expr → Option String
  | .aggregate name _ => some name
  | .call _ args => firstAggregateOf? args
  | _ => none

def firstAggregateOf? : List Expr → Option String
  | [] => none
  | e :: es => (firstAggregate? e).or (firstAggregateOf? es)

end

end Expr

end DeltaView
