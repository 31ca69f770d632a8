import DeltaView.Delta
import DeltaView.Value.Order
import DeltaView.Value.Text

/-!
# Rows

What flows through a view: a row is a value under a key, and where it is ranked it has an order
key too. The key of a joined row is the pair of its sides' keys, one of which may be absent.

* `RowKey.cmp` is a total order: plain keys first, then pairs by their left and right sides, an
  absent side before any other.
* **`RowKey.cmp_eq_iff`**: only identical keys compare equal.
-/

namespace DeltaView

/-! ## Keys -/

inductive RowKey where
  | plain (v : Value)
  | joined (left right : Option RowKey)
deriving Inhabited

namespace RowKey

mutual

def cmp : RowKey → RowKey → Ordering
  | .plain v, .plain w => Value.cmp v w
  | .plain _, .joined _ _ => .lt
  | .joined _ _, .plain _ => .gt
  | .joined l r, .joined l' r' => (cmpSide l l').then (cmpSide r r')

def cmpSide : Option RowKey → Option RowKey → Ordering
  | none, none => .eq
  | none, some _ => .lt
  | some _, none => .gt
  | some a, some b => cmp a b

end

mutual

theorem cmp_eq_iff : ∀ a b : RowKey, cmp a b = .eq ↔ a = b
  | .plain v, b => by cases b <;> simp [cmp, Value.cmp_eq_iff]
  | .joined l r, b => by
    cases b with
    | plain w => simp [cmp]
    | joined l' r' => simp [cmp, cmpSide_eq_iff l l', cmpSide_eq_iff r r']

theorem cmpSide_eq_iff : ∀ a b : Option RowKey, cmpSide a b = .eq ↔ a = b
  | none, b => by cases b <;> simp [cmpSide]
  | some a, b => by
    cases b with
    | none => simp [cmpSide]
    | some b => simp [cmpSide, cmp_eq_iff a b]

end

instance : Ord RowKey where
  compare := cmp

instance : DecidableEq RowKey := fun a b => decidable_of_iff (cmp a b = .eq) (cmp_eq_iff a b)

/-! ### Keys as values -/

mutual

/-- The value of a key; an absent side is null. -/
def toValue : RowKey → Value
  | .plain v => v
  | .joined l r => .array [sideToValue l, sideToValue r]

def sideToValue : Option RowKey → Value
  | none => .null
  | some k => toValue k

end

mutual

/-- The text shown to a reader. -/
def display : RowKey → String
  | .plain v => v.display
  | .joined l r => "[" ++ displaySide l ++ "," ++ displaySide r ++ "]"

def displaySide : Option RowKey → String
  | none => "undefined"
  | some k => display k

end

end RowKey

/-! ## Rows -/

structure Row where
  key : RowKey
  value : Value
  order : Option String := none
deriving DecidableEq, Inhabited

namespace Row

/-- The row with another value. -/
def withValue (r : Row) (v : Value) : Row := { r with value := v }

/-- The row without its order key. -/
def unordered (r : Row) : Row := { r with order := none }

/-- Compares order keys, an absent one first. -/
def cmpOrder : Option String → Option String → Ordering
  | none, none => .eq
  | none, some _ => .lt
  | some _, none => .gt
  | some a, some b => compare a b

/-- The total order of rows: by key, value and order key. -/
def cmp (a b : Row) : Ordering :=
  (RowKey.cmp a.key b.key).then ((Value.cmp a.value b.value).then (cmpOrder a.order b.order))

end Row

end DeltaView
