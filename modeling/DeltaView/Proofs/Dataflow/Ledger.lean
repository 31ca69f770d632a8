import DeltaView.Proofs.Dataflow.Operator
import DeltaView.Proofs.Dataflow.Wired

/-!
# Ledgers

What has happened in a graph is told by a ledger: what was sent to every input, what every node
has consumed at each of its inlets, and what it has emitted. `Ledger.Tells` ties it to a node: its
operator has computed its function of what it consumed, and what waits at an inlet is what its
producer has emitted and it has not consumed yet. `Accounts`: it does for all nodes.

* **`consumed_of_idle`**: with nothing left to do, every node has consumed what its producers
  emitted.
-/

namespace DeltaView

/-- Of an operator steps leave alone what it is at its beginning. -/
instance {M : Type} [CommRing M] [LinearOrder M] [ToInt M] :
    NodeOperator.Settling (Operator M) (Operator M) where
  kind := Operator.reset
  kind_step h := (Operator.step_reset h).1
  settled_step h := (Operator.step_reset h).2

namespace Graph

variable {ins : Nat → List Nat} {i : Nat}

structure Ledger where
  sent : Nat → Delta Row
  consumed : Nat → Nat → Delta Row
  emitted : Nat → Delta Row
  /-- The values of the rows that a node had consumed after any of its steps. -/
  seen : Nat → Value → Prop

/-- The ledger tells what a node has done, and what waits at its inlets. -/
structure Ledger.Tells (l : Ledger) (ins : Nat → List Nat) (i : Nat) (n : Node) : Prop where
  inlets : n.inbox.length = n.operator.arity
  reached : n.operator.Reached (l.consumed i) (l.emitted i) (l.seen i)
  flow : ∀ j p, (ins i)[j]? = some p →
    Delta.Same (l.consumed i j ++ waitingAt n j) (l.emitted p)
  sent : n.isInput = true → Delta.Same (l.consumed i 0 ++ waitingAt n 0) (l.sent i)

/-- The ledger tells what the nodes have done. -/
def Accounts (nodes : List Node) (ins : Nat → List Nat) (l : Ledger) : Prop :=
  ∀ (i : Nat) (n : Node), nodes[i]? = some n → l.Tells ins i n

/-- **With nothing left to do, every node has consumed what its producers emitted.** -/
theorem consumed_of_idle {g : Graph} {l : Ledger} (ha : Accounts g.nodes ins l) (hidle : g.Idle)
    {n : Node} (hn : g.nodes[i]? = some n) {j p : Nat} (hp : (ins i)[j]? = some p) :
    Delta.Same (l.consumed i j) (l.emitted p) := by
  have := (ha i n hn).flow j p hp
  rwa [waitingAt_of_idle (hidle i n hn), List.append_nil] at this

/-- With nothing left to do, an input has consumed what was sent to it. -/
theorem sent_of_idle {g : Graph} {l : Ledger} (ha : Accounts g.nodes ins l) (hidle : g.Idle)
    {n : Node} (hn : g.nodes[i]? = some n) (hin : n.isInput = true) :
    Delta.Same (l.consumed i 0) (l.sent i) := by
  have := (ha i n hn).sent hin
  rwa [waitingAt_of_idle (hidle i n hn), List.append_nil] at this

end Graph

end DeltaView
