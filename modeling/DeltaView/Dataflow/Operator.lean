import DeltaView.Distinct
import DeltaView.Group.Operator
import DeltaView.Join.Operator
import DeltaView.Window.Operator

/-!
# Operators

What stands at a node of a dataflow graph: a rule together with the state that it has reached. A
step takes the changes that wait at the inlets and gives the change that goes to the consumers.

* `NodeOperator`: what a graph asks of any operators, whatever they do and keep.
* `Operator`: those that there are.
-/

namespace DeltaView

/-- What a graph asks of the operators at its nodes, which exchange changes with entries in `E`. -/
class NodeOperator (O : Type) (E : outParam Type) where
  name : O → String
  /-- The number of inlets. -/
  arity : O → Nat
  /-- Does the operator have something to do without input? -/
  hasPending : O → Bool
  /-- The operator of an input. -/
  input : O
  /-- One step: the operator after it, and the change that it emits. -/
  step : List (List E) → O → Except Error (O × List E)

inductive Operator (M : Type := Int) where
  | input
  | map (f : Row → Row)
  | filter (p : Row → Bool)
  | consolidate
  /-- A sink, which keeps the batches that reach it. -/
  | output (batches : List (Delta Row M))
  | join (rule : JoinRule) (state : JoinState M)
  | group (rule : GroupRule) (state : GroupState M)
  | distinct (extract : Row → Value) (state : DistinctState M)
  | window (compare : Value → Value → Ordering) (state : WindowState M)

namespace Operator

variable {M : Type}

def name : Operator M → String
  | .input => "input"
  | .map _ => "map"
  | .filter _ => "filter"
  | .consolidate => "consolidate"
  | .output _ => "output"
  | .join _ _ => "join"
  | .group _ _ => "reduce"
  | .distinct _ _ => "distinct"
  | .window _ _ => "topk"

/-- The number of inlets. -/
def arity : Operator M → Nat
  | .join _ _ => 2
  | _ => 1

/-- Does the operator have something to do without input? -/
def hasPending : Operator M → Bool
  | .window _ s => s.hasPending
  | _ => false

/-- The window in force, if the operator has one. -/
def window? : Operator M → Option Window
  | .window _ s => some s.window
  | _ => none

variable [Add M] [Mul M] [Neg M] [OfNat M 0] [OfNat M 1] [LT M] [LE M] [DecidableEq M]
  [DecidableLT M] [DecidableLE M] [ToInt M]

/-- One step: the operator after it, and the change that it emits. -/
def step (inputs : List (Delta Row M)) : Operator M → Except Error (Operator M × Delta Row M)
  | .input => .ok (.input, inputs.headD [])
  | .map f => .ok (.map f, Delta.mapItems f (inputs.headD []))
  | .filter p => .ok (.filter p, Delta.filterItems p (inputs.headD []))
  | .consolidate => .ok (.consolidate, Delta.consolidate (inputs.headD []))
  | .output batches =>
    let batch := inputs.headD []
    .ok (.output (if batch.isEmpty then batches else batches ++ [batch]), [])
  | .join rule s =>
    let (s, out) := s.step rule (inputs.headD []) (inputs.tail.headD [])
    .ok (.join rule s, out)
  | .group rule s =>
    let (s, out) := s.step rule inputs.flatten
    .ok (.group rule s, out)
  | .distinct extract s =>
    let (s, out) := s.step extract inputs.flatten
    .ok (.distinct extract s, out)
  | .window compare s =>
    match s.step compare inputs.flatten with
    | .error e => .error e
    | .ok (s, out) => .ok (.window compare s, out)

instance : NodeOperator (Operator M) (Row × M) where
  name := name
  arity := arity
  hasPending := hasPending
  input := .input
  step := step

end Operator

end DeltaView
