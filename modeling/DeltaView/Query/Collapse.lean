import DeltaView.Query.Build

/-!
# Collapse

A subquery forwards its source if it does nothing but read it. `Source.collapse` replaces such
subqueries, from the inside out, by what they read, seen under the subquery's own label.
-/

namespace DeltaView

/-- Does a query do nothing but read its source? -/
def Level.isForwarding (q : Query) : Bool := q == .ofSource q.source

namespace Source

/-- The source under another label. -/
def withLabel (label : String) : Source → Source
  | .collection name _ => .collection name label
  | .subquery q _ => .subquery q label

mutual

/-- The source without subqueries that only forward. -/
def collapse : Source → Source
  | .collection name label => .collection name label
  | .subquery q label =>
    let inner := collapseLevel q
    if inner.isForwarding then inner.source.withLabel label else .subquery inner label

def collapseLevel : Query → Query
  | ⟨source, select, joins, filters, groupBy, having, orderBy, limit, offset, isDistinct, rowSelect,
      rowFilters, rowHaving⟩ =>
    ⟨collapse source, select, collapseJoins joins, filters, groupBy, having, orderBy, limit, offset,
      isDistinct, rowSelect, rowFilters, rowHaving⟩

def collapseJoins : List (Join Source) → List (Join Source)
  | [] => []
  | ⟨kind, source, left, right⟩ :: joins =>
    ⟨kind, collapse source, left, right⟩ :: collapseJoins joins

end

end Source

/-- The query without subqueries that only forward; its own level stays. -/
def Query.collapse (q : Query) : Query := Source.collapseLevel q

end DeltaView
