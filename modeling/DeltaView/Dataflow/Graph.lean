import DeltaView.Dataflow.Operator

/-!
# Dataflow graphs

A graph of operators without cycles, whatever operators these are (`NodeOperator`). Nodes are added
one after the other, each reading nodes that are there already; then the graph is finalized, which
fixes an order in which every producer stands before its consumers; from then on it runs.

* `addInput` and `addOperator` build; `send` puts a change at an input.
* `runPass` visits all nodes in order and lets those step that have something to do, so that a
  change passes through the whole graph in one pass. `run` passes until nothing is left to do.
* An operator's error ends a run; what the nodes before it did stays done, and what waited at the
  failing node is gone.
-/

namespace DeltaView

/-- A node: its operator, what waits at its inlets, and the inlets that it feeds. -/
structure Node (O : Type := Operator) (E : Type := Row × Int) where
  operator : O
  isInput : Bool
  inbox : List (List E)
  /-- Consumers with the inlet that this node feeds. -/
  consumers : List (Nat × Nat)

namespace Node

variable {O E : Type}

def hasInput (n : Node O E) : Bool := n.inbox.any (!·.isEmpty)

/-- The node, feeding one more inlet. -/
def feed (n : Node O E) (target inlet : Nat) : Node O E :=
  { n with consumers := n.consumers ++ [(target, inlet)] }

/-- Adds a change to what waits at an inlet. -/
def receive (n : Node O E) (inlet : Nat) (d : List E) : Node O E :=
  { n with inbox := n.inbox.modify inlet (· ++ d) }

variable [NodeOperator O E]

def hasWork (n : Node O E) : Bool := n.hasInput || NodeOperator.hasPending n.operator

/-- A node with empty inlets that feeds nothing yet. An input has one inlet. -/
def new (operator : O) (isInput : Bool) : Node O E :=
  ⟨operator, isInput, List.replicate (if isInput then 1 else NodeOperator.arity operator) [], []⟩

end Node

structure Graph (O : Type := Operator) (E : Type := Row × Int) where
  nodes : List (Node O E)
  order : List Nat
  isFinal : Bool

namespace Graph

variable {O E : Type}

def empty : Graph O E := ⟨[], [], false⟩

/-! ## Building -/

def add (g : Graph O E) (n : Node O E) : Graph O E × Nat :=
  ({ g with nodes := g.nodes ++ [n] }, g.nodes.length)

/-- Lets node `i` feed an inlet of another node. -/
def connect (g : Graph O E) (i target inlet : Nat) : Graph O E :=
  { g with nodes := g.nodes.modify i (·.feed target inlet) }

/-- Lets nodes feed the inlets of another one, from an inlet on. -/
def connectAll (target : Nat) : Nat → List Nat → Graph O E → Graph O E
  | _, [], g => g
  | inlet, i :: rest, g => connectAll target (inlet + 1) rest (g.connect i target inlet)

def addInput [NodeOperator O E] (g : Graph O E) : Except Error (Graph O E × Nat) :=
  if g.isFinal then .error (.graph .finalized)
  else .ok (g.add (Node.new NodeOperator.input true))

/-- Adds an operator that reads the given nodes, one for each of its inlets. -/
def addOperator [NodeOperator O E] (g : Graph O E) (operator : O) (inputs : List Nat) :
    Except Error (Graph O E × Nat) :=
  if g.isFinal then .error (.graph .finalized)
  else if inputs.length ≠ NodeOperator.arity operator then
    .error (.graph (.arity (NodeOperator.name operator) (NodeOperator.arity operator)
      inputs.length))
  else match inputs.find? (g.nodes.length ≤ ·) with
    | some i => .error (.unknownNode i)
    | none => .ok ((connectAll g.nodes.length 0 inputs g).add (Node.new operator false))

/-! ## Order -/

/-- For every node the number of inlets that are fed. -/
def inDegrees (g : Graph O E) : List Nat :=
  g.nodes.foldl (fun ds n => n.consumers.foldl (fun ds (c, _) => ds.modify c (· + 1)) ds)
    (List.replicate g.nodes.length 0)

/-- Takes one producer away from each consumer; those without any other become ready. -/
def release : List (Nat × Nat) → List Nat → List Nat → List Nat × List Nat
  | [], ready, degrees => (ready, degrees)
  | (c, _) :: rest, ready, degrees =>
    let degrees := degrees.modify c (· - 1)
    release rest (if degrees[c]? = some 0 then ready ++ [c] else ready) degrees

/-- Orders nodes: again and again the first one that is ready, at most `fuel` of them. -/
def sortNodes (nodes : List (Node O E)) : Nat → List Nat → List Nat → List Nat
  | 0, _, _ => []
  | _, [], _ => []
  | fuel + 1, i :: ready, degrees =>
    let (ready, degrees) := release ((nodes[i]?).elim [] (·.consumers)) ready degrees
    i :: sortNodes nodes fuel ready degrees

/-- An order with every producer before its consumers. -/
def topologicalOrder (g : Graph O E) : List Nat :=
  let degrees := g.inDegrees
  let ready := (List.range g.nodes.length).filter fun i => degrees[i]? == some 0
  sortNodes g.nodes g.nodes.length ready degrees

/-- Fixes the order; a graph that is final stays as it is. -/
def finalize (g : Graph O E) : Except Error (Graph O E) :=
  if g.isFinal then .ok g
  else
    let order := g.topologicalOrder
    if order.length ≠ g.nodes.length then .error (.graph .cyclic)
    else .ok { g with order, isFinal := true }

/-! ## Running -/

/-- Puts a change at an input. -/
def send (g : Graph O E) (i : Nat) (d : List E) : Except Error (Graph O E) :=
  match g.nodes[i]? with
  | none => .error (.unknownNode i)
  | some n =>
    if n.isInput then .ok { g with nodes := g.nodes.modify i (·.receive 0 d) }
    else .error (.graph (.notInput i))

/-- Puts changes at inputs, one after the other. -/
def sendAll (g : Graph O E) : List (Nat × List E) → Except Error (Graph O E)
  | [] => .ok g
  | (i, d) :: sends =>
    match g.send i d with
    | .error e => .error e
    | .ok g => g.sendAll sends

/-- Puts a change at the inlets that a node feeds. -/
def deliver (d : List E) : List (Nat × Nat) → Graph O E → Graph O E
  | [], g => g
  | (c, inlet) :: rest, g => deliver d rest { g with nodes := g.nodes.modify c (·.receive inlet d) }

variable [NodeOperator O E]

def hasWork (g : Graph O E) : Bool := g.nodes.any (·.hasWork)

/-- Lets a node step if it has something to do. -/
def stepNode (g : Graph O E) (i : Nat) : Graph O E × Option Error :=
  match g.nodes[i]? with
  | none => (g, none)
  | some n =>
    if !n.hasWork then (g, none)
    else
      let emptied := { n with inbox := List.replicate n.inbox.length [] }
      match NodeOperator.step n.inbox n.operator with
      | .error e => ({ g with nodes := g.nodes.set i emptied }, some e)
      | .ok (operator, out) =>
        let g := { g with nodes := g.nodes.set i { emptied with operator } }
        (if out.isEmpty then g else deliver out n.consumers g, none)

/-- Visits nodes in order, up to the first error. -/
def runPass : List Nat → Graph O E → Graph O E × Option Error
  | [], g => (g, none)
  | i :: rest, g =>
    match g.stepNode i with
    | (g, some e) => (g, some e)
    | (g, none) => runPass rest g

/-- At most `fuel` passes, while there is something to do. -/
def runPasses : Nat → Graph O E → Graph O E × Option Error
  | 0, g => (g, none)
  | fuel + 1, g =>
    if g.hasWork then
      match runPass g.order g with
      | (g, some e) => (g, some e)
      | (g, none) => runPasses fuel g
    else (g, none)

/-- Runs until there is nothing to do. Where a step leaves nothing pending, every pass does at least
the work of the first node that has some, so as many passes as there are nodes suffice. -/
def run (g : Graph O E) : Graph O E × Option Error :=
  if g.isFinal then runPasses (g.nodes.length + 1) g else (g, some (.graph .notFinalized))

/-! ## Ends -/

variable {M : Type}

/-- Takes the batches out that reached a sink. -/
def drain (g : Graph (Operator M) (Row × M)) (i : Nat) :
    Graph (Operator M) (Row × M) × List (Delta Row M) :=
  match g.nodes[i]? with
  | some n =>
    match n.operator with
    | .output batches =>
      ({ g with nodes := g.nodes.set i { n with operator := .output [] } }, batches)
    | _ => (g, [])
  | none => (g, [])

/-- Takes all batches of a sink out as one. -/
def drainConsolidated [Add M] [OfNat M 0] [DecidableEq M] (g : Graph (Operator M) (Row × M))
    (i : Nat) : Graph (Operator M) (Row × M) × Delta Row M :=
  let (g, batches) := g.drain i
  (g, Delta.consolidate batches.flatten)

/-- Adds a request to move the window at a node. -/
def requestWindow (g : Graph (Operator M) (Row × M)) (i : Nat) (u : Window.Update) :
    Graph (Operator M) (Row × M) :=
  match g.nodes[i]? with
  | some n =>
    match n.operator with
    | .window compare s =>
      { g with nodes := g.nodes.set i { n with operator := .window compare (s.request u) } }
    | _ => g
  | none => g

/-- The window in force at a node. -/
def window? (g : Graph (Operator M) (Row × M)) (i : Nat) : Option Window :=
  (g.nodes[i]?).bind (·.operator.window?)

end Graph

end DeltaView
