import DeltaView.Row

/-!
# Joined rows

The row that a join makes of its two sides, one of which may be absent. Sides that are objects, or
absent, give the object of all their fields, those of the right side going before; other values
are put side by side.
-/

namespace DeltaView

namespace Row

/-- The fields that a side adds: those of an object, none for an absent side. -/
def sideFields? : Option Value → Option (List (String × Value))
  | none => some []
  | some (.object fields) => some fields
  | some _ => none

/-- The value of a joined row. -/
def mergeValues (left right : Option Value) : Value :=
  match sideFields? left, sideFields? right with
  | some l, some r => .object (Value.setFields r (Value.setFields l []))
  | _, _ => .array [left.getD .null, right.getD .null]

/-- The row joined from two sides. -/
def merge (left right : Option Row) : Row where
  key := .joined (left.map (·.key)) (right.map (·.key))
  value := mergeValues (left.map (·.value)) (right.map (·.value))

end Row

end DeltaView
