import DeltaView.Dataflow.Graph

/-!
# What comes out at nodes

What a node hands to its consumers, in one turn and over whole passes and runs. These read along
with `stepNode`, `runPass` and `run`, and stop where those stop.
-/

namespace DeltaView

namespace Graph

variable {O E : Type} [NodeOperator O E]

/-- What a node emits in its turn. -/
def turnOut (g : Graph O E) (i : Nat) : List E :=
  match g.nodes[i]? with
  | none => []
  | some n =>
    if n.hasWork then
      match NodeOperator.step n.inbox n.operator with
      | .error _ => []
      | .ok (_, out) => out
    else []

/-- What comes out at node `k` while nodes are visited in order, up to the first error. -/
def passOut (k : Nat) : List Nat → Graph O E → List E
  | [], _ => []
  | i :: rest, g =>
    (if i = k then g.turnOut i else []) ++
      match g.stepNode i with
      | (_, some _) => []
      | (g, none) => passOut k rest g

/-- What comes out at node `k` in at most `fuel` passes. -/
def passesOut (k : Nat) : Nat → Graph O E → List E
  | 0, _ => []
  | fuel + 1, g =>
    if g.hasWork then
      passOut k g.order g ++
        match runPass g.order g with
        | (_, some _) => []
        | (g, none) => passesOut k fuel g
    else []

/-- What comes out at node `k` in a run. -/
def runOut (g : Graph O E) (k : Nat) : List E :=
  if g.isFinal then passesOut k (g.nodes.length + 1) g else []

end Graph

end DeltaView
