import DeltaView.Dataflow.Graph
import DeltaView.Plan.Basic

/-!
# Wiring of plans

A plan is wired into a dataflow graph, a node or two for every step. Each reference to a collection
gets an input of its own. A subquery is an object that several references can name: its steps are
wired where it is met first, and every other reference to the same object reads the node of these.

* `Wiring.wire` adds a plan to a graph. Which object a subquery is, is told by `objects`, reference
  by reference in the order in which they are met.
* `Circuit.ofPlan?` makes a running graph of one plan.
-/

namespace DeltaView

/-! ## Inputs -/

/-- The inputs of every collection, one for each reference to it. -/
abbrev Inputs := Table String (List Nat)

namespace Inputs

/-- The inputs of one collection. -/
def of (i : Inputs) (collection : String) : List Nat := (i.get? collection).getD []

/-- Adds an input of a collection. -/
def add (i : Inputs) (collection : String) (n : Nat) : Inputs :=
  i.put collection (i.of collection ++ [n])

end Inputs

/-! ## Wirings -/

/-- A graph in the making. -/
structure Wiring where
  graph : Graph
  inputs : Inputs
  /-- The nodes of subqueries, by object and plan. -/
  subqueries : Table (Nat × Plan) Nat
  /-- How many references to subqueries have been met. -/
  references : Nat

namespace Wiring

def empty : Wiring := ⟨.empty, [], [], 0⟩

/-- Adds an operator that reads the given nodes. -/
def add (w : Wiring) (operator : Operator) (inputs : List Nat) : Except Error (Wiring × Nat) := do
  let (graph, n) ← w.graph.addOperator operator inputs
  return ({ w with graph }, n)

/-- Adds an input of a collection. -/
def addInput (w : Wiring) (collection : String) : Except Error (Wiring × Nat) := do
  let (graph, n) ← w.graph.addInput
  return ({ w with graph, inputs := w.inputs.add collection n }, n)

/-- Follows the next reference to a subquery: gives the node of the object that it names, which is
built where there is none yet. -/
def follow (w : Wiring) (objects : Nat → Nat) (p : Plan)
    (build : Wiring → Except Error (Wiring × Nat)) : Except Error (Wiring × Nat) :=
  let object := (objects w.references, p)
  match w.subqueries.get? object with
  | some n => .ok ({ w with references := w.references + 1 }, n)
  | none => do
    let (w, n) ← build { w with references := w.references + 1 }
    return ({ w with subqueries := w.subqueries.put object n }, n)

/-- The operator of a join. -/
def joinOperator (kind : JoinKind) (mainKey joinedKey : Expr) : Operator :=
  let key (e : Expr) (r : Row) : JoinKey := (e.eval r.value).toJoinKey
  .join ⟨kind, key mainKey, key joinedKey⟩ .empty

/-- The operator that adds what SELECT makes of a row. -/
def projectOperator (functions : RowFunctions) (p : Projection) : Operator :=
  .map fun r => r.withValue (r.value.withSelected (p.apply functions r.value))

/-- Adds a plan, and gives the node where its rows come out. -/
def wire (functions : RowFunctions) (objects : Nat → Nat) :
    Plan → Wiring → Except Error (Wiring × Nat)
  | .scan name, w => w.addInput name
  | .named label p, w => do
    let (w, n) ← wire functions objects p w
    w.add (.map (Row.named label)) [n]
  | .join kind mainKey joinedKey p q, w => do
    let (w, n) ← wire functions objects p w
    let (w, m) ← wire functions objects q w
    w.add (joinOperator kind mainKey joinedKey) [n, m]
  | .filter condition p, w => do
    let (w, n) ← wire functions objects p w
    w.add (.filter fun r => condition.holds r.value) [n]
  | .filterBy test p, w => do
    let (w, n) ← wire functions objects p w
    w.add (.filter fun r => (functions test r.value).isTruthy) [n]
  | .project projection p, w => do
    let (w, n) ← wire functions objects p w
    w.add (projectOperator functions projection) [n]
  | .group terms p, w => do
    let (w, n) ← wire functions objects p w
    let (w, n) ← w.add (.group terms.rule .empty) [n]
    w.add (.map fun r => r.withValue (.ofSelected (terms.select r.value))) [n]
  | .distinct p, w => do
    let (w, n) ← wire functions objects p w
    let (w, n) ← w.add (.distinct (fun r => r.value.selected) .empty) [n]
    w.add (.map Row.asSelected) [n]
  | .rank terms window p, w => do
    let (w, n) ← wire functions objects p w
    w.add (.window (OrderTerm.compareRows terms) (.start window)) [n]
  | .output p, w => w.follow objects (.output p) fun w => do
    let (w, n) ← wire functions objects p w
    w.add (.map Row.selected) [n]

/-- Wires the plan of a query, to which nothing refers. If it ends with a ranking, its node is given
as well. -/
def wireQuery (functions : RowFunctions) (objects : Nat → Nat) :
    Plan → Except Error (Wiring × Nat × Option Nat)
  | .output p => do
    let (w, top) ← wire functions objects p empty
    let (w, n) ← w.add (.map Row.selected) [top]
    return (w, n, if p.isRank then some top else none)
  | p => do
    let (w, n) ← wire functions objects p empty
    return (w, n, none)

end Wiring

/-! ## Circuits -/

/-- A graph that is ready to run, with its ends: the inputs of all collections, a sink, and the node
of the outermost window. -/
structure Circuit where
  graph : Graph
  inputs : Inputs
  sink : Nat
  windowNode : Option Nat

namespace Circuit

/-- A graph that computes one plan. -/
def ofPlan? (functions : RowFunctions) (objects : Nat → Nat) (p : Plan) :
    Except Error Circuit := do
  let (w, n, windowNode) ← Wiring.wireQuery functions objects p
  let (w, sink) ← w.add (.output []) [n]
  let graph ← w.graph.finalize
  return ⟨graph, w.inputs, sink, windowNode⟩

/-- The window in force. -/
def window? (c : Circuit) : Option Window := c.windowNode.bind c.graph.window?

end Circuit

end DeltaView
