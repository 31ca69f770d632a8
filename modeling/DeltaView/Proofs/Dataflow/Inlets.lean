import DeltaView.Proofs.Dataflow.Send
import DeltaView.Proofs.Dataflow.Turn
import Mathlib.Data.List.Basic

/-!
# The inlets of a graph

Runs fail when an operator does. Whether they fail or not, and whatever else is done to a graph that
is finished, its inputs stay inputs, and every node keeps its inlets.

* `Graph.inlets`: what kind of node each one is, and how many inlets it has.
* **`inlets_run`**: a run changes nothing of this, wherever it ends.
-/

namespace DeltaView

variable {O E : Type}

/-- Is a node an input, and how many inlets has it? -/
def Node.inlets (n : Node O E) : Bool × Nat := (n.isInput, n.inbox.length)

theorem Node.inlets_receive (n : Node O E) (inlet : Nat) (d : List E) :
    (n.receive inlet d).inlets = n.inlets := congrArg (n.isInput, ·) (List.length_modify ..)

theorem Node.inlets_emptied (n : Node O E) (operator : O) :
    (n.emptied operator).inlets = n.inlets := congrArg (n.isInput, ·) List.length_replicate

namespace Graph

/-- Which nodes are inputs, and how many inlets each node has. -/
def inlets (g : Graph O E) : List (Bool × Nat) := g.nodes.map Node.inlets

variable {g g' : Graph O E} {i : Nat}

theorem inlets_set {n m : Node O E} (hn : g.nodes[i]? = some n) (h : m.inlets = n.inlets) :
    (g.nodes.set i m).map Node.inlets = g.inlets := by
  obtain ⟨hi, rfl⟩ := List.getElem?_eq_some_iff.mp hn
  rw [List.map_set, h, ← List.getElem_map (f := Node.inlets) (h := by simpa using hi)]
  exact List.set_getElem_self _

theorem inlets_modify (f : Node O E → Node O E) (h : ∀ n, (f n).inlets = n.inlets) (i : Nat) :
    (g.nodes.modify i f).map Node.inlets = g.inlets := by
  refine List.ext_getElem? fun k => ?_
  rw [inlets, List.getElem?_map, List.getElem?_map, List.getElem?_modify]
  cases g.nodes[k]? with
  | none => rfl
  | some n =>
    by_cases hk : i = k
    · simp [hk, h]
    · simp [hk]

theorem inlets_deliver (d : List E) (targets : List (Nat × Nat)) (g : Graph O E) :
    (deliver d targets g).inlets = g.inlets := by
  induction targets generalizing g with
  | nil => rfl
  | cons e targets ih =>
    exact (ih _).trans (inlets_modify _ (fun n => n.inlets_receive e.2 d) e.1)

theorem inlets_send {d : List E} (h : g.send i d = .ok g') : g'.inlets = g.inlets := by
  obtain ⟨-, -, -, rfl⟩ := send_eq_ok.mp h
  exact inlets_modify _ (fun n => n.inlets_receive 0 d) i

theorem inlets_sendAll {sends : List (Nat × List E)} (h : g.sendAll sends = .ok g') :
    g'.inlets = g.inlets :=
  sendAll_keeps (P := (·.inlets = g.inlets)) (fun hg hsend => (inlets_send hsend).trans hg) rfl h

variable [NodeOperator O E]

theorem inlets_stepNode (g : Graph O E) (i : Nat) : (g.stepNode i).1.inlets = g.inlets := by
  cases g.turnCases i with
  | idle _ hstep _ => rw [hstep]
  | fails n e hn _ _ hstep _ =>
    rw [hstep]
    exact inlets_set hn (n.inlets_emptied n.operator)
  | steps n operator out hn _ _ hstep _ =>
    have hset := inlets_set hn (n.inlets_emptied operator)
    rw [hstep, stepTo]
    split
    · exact hset
    · exact (inlets_deliver out n.consumers _).trans hset

/-- **A run leaves the inlets alone**, whether it fails or not. -/
theorem inlets_run (g : Graph O E) : g.run.1.inlets = g.inlets :=
  run_keeps (P := (·.inlets = g.inlets)) (fun g' i h => (inlets_stepNode g' i).trans h) rfl

theorem inlets_drain {M : Type} (g : Graph (Operator M) (Row × M)) (i : Nat) :
    (g.drain i).1.inlets = g.inlets := by
  unfold drain
  split
  · rename_i n hn
    split
    · exact inlets_set hn rfl
    · rfl
  · rfl

end Graph

end DeltaView
