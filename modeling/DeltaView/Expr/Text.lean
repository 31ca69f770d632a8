import DeltaView.Expr.Basic
import DeltaView.Value.Text

/-!
# Expressions as interchange trees

An expression is a node whose kind is `val`, `ref`, `func` or `agg`. A kind that this library does
not know gives the unknown expression, whatever its other members.
-/

namespace DeltaView

namespace Expr

/-- The kinds of expressions, in the order of their numbers. -/
def kinds : List String := ["val", "ref", "func", "agg"]

mutual

/-- The expression that a tree denotes; `below` says that it is part of another node. -/
def ofJson? (below : Bool) (j : Json) : Option Expr :=
  match j.kind? below kinds with
  | none => none
  | some "val" => do
    let value ← Json.need? "value" (← j.asRecord? ["type", "value"])
    some (.literal (Value.ofJson value))
  | some "ref" => do
    let path ← Json.need? "path" (← j.asRecord? ["type", "path"])
    let path ← Json.readList Json.asString? path
    some (.ref path)
  | some "func" => do
    let (name, args) ← callOfJson? j
    some (.call name args)
  | some "agg" => do
    let (name, args) ← callOfJson? j
    some (.aggregate name args)
  | some _ => (j.asRecord? ["type"]).map fun _ => .unknown
termination_by (sizeOf j, 1)

/-- The name and the arguments of a call or an aggregate. -/
def callOfJson? (j : Json) : Option (String × List Expr) :=
  match hj : j.asRecord? ["type", "name", "args"] with
  | none => none
  | some members => do
    let name ← (← Json.need? "name" members).asString?
    match h : Json.need? "args" members with
    | some (.array items) =>
      have := Json.sizeOf_need_lt hj h
      let args ← ofItems? items
      some (name, args)
    | _ => none
termination_by (sizeOf j, 0)
decreasing_by all_goals (simp only [Json.array.sizeOf_spec] at *; decreasing_tactic)

def ofItems? : List Json → Option (List Expr)
  | [] => some []
  | j :: js => do
    let e ← ofJson? true j
    let es ← ofItems? js
    some (e :: es)
termination_by items => (sizeOf items, 0)

end

mutual

def toJson : Expr → Json
  | .literal v => .object [("type", .string "val"), ("value", v.toJson)]
  | .ref path => .object [("type", .string "ref"), ("path", .array (path.map .string))]
  | .call name args =>
    .object [("type", .string "func"), ("name", .string name), ("args", .array (toItems args))]
  | .aggregate name args =>
    .object [("type", .string "agg"), ("name", .string name), ("args", .array (toItems args))]
  | .unknown => .object [("type", .string "unknown")]

def toItems : List Expr → List Json
  | [] => []
  | e :: es => toJson e :: toItems es

end

end Expr

end DeltaView
