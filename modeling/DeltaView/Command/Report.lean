import DeltaView.Command.Arguments
import DeltaView.Command.Scenario
import DeltaView.Text.Table

/-!
# Reports

What the command prints: the steps of a scenario, or an optimized query with the conditions that
can be tested on its collections. As text a report is meant for a reader, with rows in a table; as
an interchange text the members of its objects stand in the order of their names.
-/

namespace DeltaView

/-- A key or a value in a table. -/
def Value.cell : Value → String
  | .null => "NULL"
  | v => v.display

/-- A tree with the members of objects in the order of their names. -/
def Json.inOrder (j : Json) : Json := (Value.ofJson j).toJson

namespace ScenarioStep

/-! ## Steps -/

def changeLine (c : Change) : String :=
  let sign := match c.kind with
    | .insert => "+"
    | .update => "~"
    | .delete => "-"
  "  " ++ sign ++ " " ++ c.key.cell ++ "\n"

/-- The rows as a table, with a column for order keys where a row has one. -/
def rowTable (rows : List (Value × ViewRow)) : TextTable :=
  if rows.any fun (_, r) => r.order.isSome then
    ⟨["key", "order", "value"], rows.map fun (k, r) => [k.cell, r.order.getD "", r.value.cell]⟩
  else ⟨["key", "value"], rows.map fun (k, r) => [k.cell, r.value.cell]⟩

def text (s : ScenarioStep) : String :=
  s!"{s.label}: {s.changes.length} change(s)\n" ++ String.join (s.changes.map changeLine) ++
    (rowTable s.rows).render ++ s!"\n{s.rows.length} row(s)"

def rowJson : Value × ViewRow → Json
  | (k, r) =>
    .object ([("key", k.toJson), ("value", r.value.toJson)] ++
      (r.order.map fun o => ("order", .string o)).toList)

def json (s : ScenarioStep) : Json :=
  .object [("step", .string s.label), ("changes", .array (s.changes.map Change.toJson)),
    ("results", .array (s.rows.map rowJson))]

def report (s : ScenarioStep) : OutputFormat → String
  | .text => s.text
  | .json => s.json.inOrder.compact

end ScenarioStep

/-! ## Optimized queries -/

namespace Query

/-- Source filters in the order of their sources. -/
def sortFilters (filters : List (String × Expr)) : List (String × Expr) :=
  filters.mergeSort fun a b => (compare a.1 b.1).isLE

def filterTable (filters : List (String × Expr)) : TextTable :=
  ⟨["alias", "filter"], filters.map fun (a, e) => [a, e.toJson.compact]⟩

/-- The text of an optimized query and the source filters of the query it was made from. -/
def optimizedText (q : Query) (filters : List (String × Expr)) : String :=
  "optimized query:\n" ++ q.text ++
    if filters.isEmpty then "\n\nno source filters"
    else "\n\nsource filters:\n" ++ (filterTable (sortFilters filters)).render

def optimizedJson (q : Query) (filters : List (String × Expr)) : Json :=
  .object [("optimizedQuery", q.toJson),
    ("sourceFilters", .object (filters.map fun (a, e) => (a, e.toJson)))]

def optimizedReport (q : Query) (filters : List (String × Expr)) : OutputFormat → String
  | .text => optimizedText q filters
  | .json => (optimizedJson q filters).inOrder.pretty

end Query

end DeltaView
