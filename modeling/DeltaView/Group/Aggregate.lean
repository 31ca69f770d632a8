import DeltaView.Expr.Function
import DeltaView.Row

/-!
# Aggregates

An aggregate is one value for the members of a group: it evaluates its argument on every member
and summarises the results other than null with their multiplicities.

* A sum stays an integer as long as all its terms are integers and the running total fits 64 bits.
  A term that is no number adds nothing but makes the sum a float.
* An average divides the sum by the number of members with a value, numbers or not.
* The least and greatest value are those of the order of numbers across both kinds, and of the
  order of values otherwise; of even ones the first least and the last greatest member counts.
-/

namespace DeltaView

inductive AggregateKind where
  | count | sum | avg | min | max
deriving DecidableEq

namespace AggregateKind

/-- Names are compared without regard to the case of ASCII letters. -/
def ofName? (name : String) : Option AggregateKind :=
  match String.ofList (name.toList.map Char.toLower) with
  | "count" => some .count
  | "sum" => some .sum
  | "avg" => some .avg
  | "min" => some .min
  | "max" => some .max
  | _ => none

end AggregateKind

structure Aggregate where
  label : String
  kind : AggregateKind
  arg : Value → Value

/-! ## Multiplicities as numbers -/

/-- Multiplicities that can be calculated with as the integers that they stand for. -/
class ToInt (M : Type) where
  toInt : M → Int

instance : ToInt Int := ⟨id⟩

instance : ToInt Int64 := ⟨Int64.toInt⟩

/-! ## Sums -/

/-- A running sum: the exact total as long as it fits, the rounded one, whether all terms were
integers, and the number of terms. -/
structure RunningSum (M : Type := Int) where
  exact : Option Int64
  rounded : Double
  allInts : Bool
  count : M

namespace RunningSum

variable {M : Type} [Add M] [OfNat M 0] [LT M] [DecidableLT M] [ToInt M]

def start : RunningSum M := ⟨some 0, .zero, true, 0⟩

/-- The exact total with `m` times a term added, where product and total fit. -/
def addExact (total : Option Int64) (n : Int64) (m : Int) : Option Int64 := do
  let t ← total
  let product ← Value.int64? (n.toInt * m)
  Value.int64? (t.toInt + product.toInt)

/-- Adds `m` times a term. -/
def add (s : RunningSum M) (v : Value) (m : M) : RunningSum M :=
  let term := ((v.asDouble?).getD .zero).mul (Double.ofInt (ToInt.toInt m))
  match v with
  | .int n => ⟨addExact s.exact n (ToInt.toInt m), s.rounded.add term, s.allInts, s.count + m⟩
  | _ => ⟨s.exact, s.rounded.add term, false, s.count + m⟩

def ofTerms (terms : Delta Value M) : RunningSum M := terms.foldl (fun s (v, m) => s.add v m) start

def total (s : RunningSum M) : Value :=
  match s.exact, s.allInts with
  | some t, true => .int t
  | _, _ => .float s.rounded

def average (s : RunningSum M) : Value :=
  match s.total.asDouble? with
  | some t => if 0 < s.count then .float (t.div (Double.ofInt (ToInt.toInt s.count))) else .null
  | none => .null

end RunningSum

/-! ## Extremes -/

namespace Value

/-- Numbers by size, other values by the order of values. -/
def compareExtremes (a b : Value) : Ordering := (numericCompare? a b).getD (cmp a b)

/-- The first least value of a list. -/
def least? : List Value → Option Value
  | [] => none
  | v :: vs => some (vs.foldl (fun best w => if (compareExtremes w best).isLT then w else best) v)

/-- The last greatest value of a list. -/
def greatest? : List Value → Option Value
  | [] => none
  | v :: vs => some (vs.foldl (fun best w => if (compareExtremes w best).isGE then w else best) v)

end Value

namespace Aggregate

variable {M : Type} [Add M] [OfNat M 0] [LT M] [DecidableLT M] [ToInt M]

/-- The argument's values other than null, with their multiplicities. -/
def terms (a : Aggregate) (members : Delta Row M) : Delta Value M :=
  Delta.filterItems (!·.isNull) (Delta.mapItems (fun r => a.arg r.value) members)

/-- The value of an aggregate on the members of a group. -/
def compute (a : Aggregate) (members : Delta Row M) : Value :=
  let terms := a.terms members
  match a.kind with
  | .count => .int (Int64.ofInt (ToInt.toInt (Delta.mass terms)))
  | .sum => (RunningSum.ofTerms terms).total
  | .avg => (RunningSum.ofTerms terms).average
  | .min => (Value.least? (terms.map (·.1))).getD .null
  | .max => (Value.greatest? (terms.map (·.1))).getD .null

end Aggregate

end DeltaView
