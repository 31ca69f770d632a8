import DeltaView.Expr.Eval
import DeltaView.Group.Operator
import DeltaView.Join.Operator
import DeltaView.Query.Selected
import DeltaView.Window.Range

/-!
# Plans

A plan is a query made ready to run: what is done to rows, one step on top of the other, with
every expression in it known to have a value. It is plain data, so that equal plans can be told.

* Under `named` steps a row is an object with one field for every source it is joined from.
* `project`, `group` and `distinct` put what SELECT makes of a row into its selected field, and
  `output` leaves only that.
-/

namespace DeltaView

/-- What the row functions of a query compute. -/
abbrev RowFunctions := RowFunction → Value → Value

/-- An aggregate of a group, over an argument evaluated on each member. -/
structure AggregateTerm where
  label : String
  kind : AggregateKind
  arg : Expr
deriving DecidableEq

/-- Where a selected field of a group's row comes from. -/
inductive GroupField where
  | aggregate (label : String)
  | keyPart (position : Nat)
deriving DecidableEq

/-- How rows are grouped and what is selected of a group. -/
structure GroupTerms where
  keys : List Expr
  aggregates : List AggregateTerm
  fields : List (String × GroupField)
deriving DecidableEq

/-- What SELECT makes of a row that is not grouped. -/
inductive Projection where
  | function (f : RowFunction)
  | fields (terms : List SelectField)
  /-- The row of one source. -/
  | source (label : String)
  | whole
deriving DecidableEq

inductive Plan where
  | scan (collection : String)
  | named (label : String) (input : Plan)
  | join (kind : JoinKind) (mainKey joinedKey : Expr) (main joined : Plan)
  | filter (condition : Expr) (input : Plan)
  | filterBy (test : RowFunction) (input : Plan)
  | project (projection : Projection) (input : Plan)
  | group (terms : GroupTerms) (input : Plan)
  | distinct (input : Plan)
  | rank (terms : List OrderTerm) (window : Window) (input : Plan)
  | output (input : Plan)
deriving DecidableEq

/-- Is the last step a ranking? -/
def Plan.isRank : Plan → Bool
  | .rank _ _ _ => true
  | _ => false

namespace Row

/-! ## Steps on a row -/

/-- A row of a source under a label. -/
def named (label : String) (r : Row) : Row := (r.withValue (.object [(label, r.value)])).unordered

/-- A row that is left with its value as what SELECT made of it. -/
def asSelected (r : Row) : Row := r.withValue (.ofSelected r.value)

/-- A row that is left with what SELECT made of it. -/
def selected (r : Row) : Row := r.withValue r.value.selected

end Row

namespace Projection

/-- What SELECT makes of a row. -/
def apply (functions : RowFunctions) (p : Projection) (row : Value) : Value :=
  match p with
  | .function f => functions f row
  | .fields terms => .ofFields (terms.map fun t => (t.label, t.expr.eval row))
  | .source label => (row.field? label).getD .null
  | .whole => row

end Projection

/-! ## Groups -/

namespace GroupTerms

/-- The key of the one group there is without GROUP BY. -/
def singleKey : Value := .string "single_group"

/-- The key of the group that a row belongs to. -/
def groupKey (keys : List Expr) (row : Value) : Value :=
  match keys with
  | [] => singleKey
  | [e] => e.eval row
  | es => .array (es.map fun e => e.eval row)

def rule (g : GroupTerms) : GroupRule where
  key := fun r => groupKey g.keys r.value
  aggregates := g.aggregates.map fun a => ⟨a.label, a.kind, fun row => a.arg.eval row⟩

/-- One part of a key made of `count` parts. -/
def keyPart (count : Nat) (key : Value) (position : Nat) : Value :=
  if count = 1 then key
  else match key with
    | .array parts => (parts[position]?).getD .null
    | _ => .null

/-- A selected field, from the row of a group. -/
def read (g : GroupTerms) (row : Value) : GroupField → Value
  | .aggregate label => (row.field? label).getD .null
  | .keyPart position =>
    keyPart g.keys.length ((row.field? GroupState.keyField).getD .null) position

/-- What SELECT makes of the row of a group. -/
def select (g : GroupTerms) (row : Value) : Value :=
  .ofFields (g.fields.map fun (label, field) => (label, g.read row field))

end GroupTerms

/-! ## Order -/

/-- Compares rows by the terms of ORDER BY. -/
def OrderTerm.compareRows (terms : List OrderTerm) (a b : Value) : Ordering :=
  SortRule.compareTuples (terms.map (·.rule)) (terms.map fun t => t.expr.eval a)
    (terms.map fun t => t.expr.eval b)

end DeltaView
