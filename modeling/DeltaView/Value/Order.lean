import DeltaView.Value.Basic

/-!
# The order of values

`Value.cmp` compares any two values. Numbers compare by size with an integer before the float of
the same size; texts, arrays and objects compare lexicographically, objects by name and then by
value; values of other different kinds compare by kind.

* **`cmp_eq_iff`**: only identical values compare equal, so equality of values is decided by the
  order.
-/

namespace DeltaView

namespace Value

/-- Compares two numbers by size; other values do not compare. -/
def numericCompare? (a b : Value) : Option Ordering :=
  match a, b with
  | .int m, .int n => some (compare m.toInt n.toInt)
  | a, b => do
    let x ← a.asDouble?
    let y ← b.asDouble?
    some (compare x y)

mutual

/-- The total order of values. -/
def cmp : Value → Value → Ordering
  | .bool a, .bool b => compare a b
  | .int a, .int b => compare a.toInt b.toInt
  | .float a, .float b => compare a b
  | .int a, .float b => (compare (Double.ofInt a.toInt) b).then .lt
  | .float a, .int b => (compare a (Double.ofInt b.toInt)).then .gt
  | .string a, .string b => compare a b
  | .array as, .array bs => cmpItems as bs
  | .object as, .object bs => cmpFields as bs
  | a, b => compare a.kind.rank b.kind.rank

/-- Item by item; of two lists that agree as far as both go, the shorter is first. -/
def cmpItems : List Value → List Value → Ordering
  | [], [] => .eq
  | [], _ :: _ => .lt
  | _ :: _, [] => .gt
  | a :: as, b :: bs => (cmp a b).then (cmpItems as bs)

/-- Field by field, name before value. -/
def cmpFields : List (String × Value) → List (String × Value) → Ordering
  | [], [] => .eq
  | [], _ :: _ => .lt
  | _ :: _, [] => .gt
  | (m, a) :: as, (n, b) :: bs => (compare m n).then ((cmp a b).then (cmpFields as bs))

end

instance : Ord Value where
  compare := cmp

/-! ## Equality -/

mutual

/-- Only identical values compare equal. -/
theorem cmp_eq_iff : ∀ a b : Value, cmp a b = .eq ↔ a = b
  | .array as, b => by
    cases b with
    | array bs => simpa [cmp] using cmpItems_eq_iff as bs
    | _ => simp [cmp, kind, Kind.rank]
  | .object as, b => by
    cases b with
    | object bs => simpa [cmp] using cmpFields_eq_iff as bs
    | _ => simp [cmp, kind, Kind.rank]
  | .null, b => by cases b <;> simp [cmp, kind, Kind.rank]
  | .bool a, b => by
    cases b with
    | bool b => simp [cmp]
    | _ => simp [cmp, kind, Kind.rank]
  | .int a, b => by
    cases b with
    | int b => simp [cmp, Int64.toInt_inj]
    | float b => simp [cmp]
    | _ => simp [cmp, kind, Kind.rank]
  | .float a, b => by
    cases b with
    | float b => simp [cmp, Double.compare_eq_iff]
    | int b => simp [cmp]
    | _ => simp [cmp, kind, Kind.rank]
  | .string a, b => by
    cases b with
    | string b => simp [cmp]
    | _ => simp [cmp, kind, Kind.rank]

theorem cmpItems_eq_iff : ∀ as bs : List Value, cmpItems as bs = .eq ↔ as = bs
  | [], [] => by simp [cmpItems]
  | [], _ :: _ => by simp [cmpItems]
  | _ :: _, [] => by simp [cmpItems]
  | a :: as, b :: bs => by
    simp [cmpItems, Ordering.then_eq_eq, cmp_eq_iff a b, cmpItems_eq_iff as bs]

theorem cmpFields_eq_iff : ∀ as bs : List (String × Value), cmpFields as bs = .eq ↔ as = bs
  | [], [] => by simp [cmpFields]
  | [], _ :: _ => by simp [cmpFields]
  | _ :: _, [] => by simp [cmpFields]
  | (m, a) :: as, (n, b) :: bs => by
    simp [cmpFields, Ordering.then_eq_eq, cmp_eq_iff a b,
      cmpFields_eq_iff as bs, and_assoc]

end

/-- Equality is decided by the order. -/
instance : DecidableEq Value := fun a b => decidable_of_iff (cmp a b = .eq) (cmp_eq_iff a b)

end Value

end DeltaView
