import DeltaView.Query.Collapse
import DeltaView.Query.Pushdown

/-!
# Optimization

A query is optimized by passes that push conditions down at every level, inner levels first, until
a pass changes nothing; then subqueries that only forward are collapsed. The number of passes and
the depth to which they go are bounded.

* `pass` is one pass, `passes` runs them, `Optimizer.optimize` is the whole.
-/

namespace DeltaView

/-- How far optimization goes. -/
structure Optimizer where
  isEnabled : Bool := true
  maxPasses : Nat := 10
  maxDepth : Nat := 32

namespace Source

mutual

/-- Pushes conditions down in the levels of a source, `depth` levels deep. -/
def pushDown : Source → Nat → Source
  | .collection name label, _ => .collection name label
  | .subquery q label, 0 => .subquery q label
  | .subquery q label, depth + 1 => .subquery (pushDownLevel q depth) label

/-- Pushes conditions down in the sources of a level, then in the level itself. -/
def pushDownLevel : Query → Nat → Query
  | ⟨source, select, joins, filters, groupBy, having, orderBy, limit, offset, isDistinct, rowSelect,
      rowFilters, rowHaving⟩, depth =>
    Level.pushDown ⟨pushDown source depth, select, pushDownJoins joins depth, filters, groupBy,
      having, orderBy, limit, offset, isDistinct, rowSelect, rowFilters, rowHaving⟩

def pushDownJoins : List (Join Source) → Nat → List (Join Source)
  | [], _ => []
  | ⟨kind, source, left, right⟩ :: joins, depth =>
    ⟨kind, pushDown source depth, left, right⟩ :: pushDownJoins joins depth

end

end Source

namespace Query

/-- One pass over a query and its subqueries, `depth` levels below the query. -/
def pass (depth : Nat) (q : Query) : Query := Source.pushDownLevel q depth

/-- Up to `n` passes, until one changes nothing. -/
def passes (depth : Nat) : Nat → Query → Query
  | 0, q => q
  | n + 1, q =>
    let next := pass depth q
    if next = q then q else passes depth n next

end Query

/-- An equivalent query that tests conditions as early as it can. -/
def Optimizer.optimize (o : Optimizer) (q : Query) : Query :=
  if o.isEnabled then (Query.passes o.maxDepth o.maxPasses q).collapse else q

end DeltaView
