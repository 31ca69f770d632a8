import DeltaView.Plan.OfQuery
import DeltaView.Plan.Wiring
import DeltaView.Query.Optimize
import DeltaView.View.Hub
import DeltaView.View.Rows

/-!
# Live views

A live view keeps the result of a query up to date while rows of the collections change. Changes
are compared with the tables as they are known, and queued; `flush` sends what is queued through
the circuit, folds what comes out into the rows of the view, and publishes the batch of changes.

* A change is flushed at once, unless a transaction is open or the view does not commit by itself.
* A call that is refused leaves the view as it was.
* Every call gives the view after it and its answer.
-/

namespace DeltaView

structure LiveView where
  /-- The query as it runs. -/
  query : Query
  /-- The conditions that the query, as it was given, sets on collections. -/
  sourceFilters : List (String × Expr)
  circuit : Circuit
  /-- Is a change flushed without being told? -/
  autocommit : Bool
  tables : Table String (Table Value Value)
  queued : Table String (Delta Row)
  inTransaction : Bool
  rows : ViewRows
  hub : Hub

/-- The change that a change record makes of the rows of a table, and the table after it. A
deletion of a row that is not there changes nothing, nor does a row put in its own place. -/
def Change.applyTo (c : Change) (table : Table Value Value) : Table Value Value × Delta Row :=
  let row (v : Value) : Row := { key := .plain c.key, value := v }
  let old := table.get? c.key
  match c.kind with
  | .delete => (table.erase c.key, old.toList.map fun v => (row v, -1))
  | _ =>
    (table.put c.key c.value,
      if old = some c.value then []
      else (old.toList.map fun v => (row v, -1)) ++ [(row c.value, 1)])

namespace LiveView

/-! ## Making a view -/

/-- A view of a query over empty collections. Which subqueries of it are one object is told by
`objects`. -/
def ofQuery? (functions : RowFunctions) (objects : Nat → Nat) (optimizer : Optimizer)
    (autocommit : Bool) (q : Query) : Except Error LiveView := do
  let query := optimizer.optimize q
  let circuit ← Circuit.ofPlan? functions objects (← Plan.ofQuery? query)
  return {
    query, circuit, autocommit, sourceFilters := q.sourceFilters
    tables := [], queued := [], inTransaction := false, rows := [], hub := .empty
  }

/-- The collections that the view reads. -/
def collections (v : LiveView) : List String := v.circuit.inputs.map (·.1)

def reads (v : LiveView) (collection : String) : Bool := (v.circuit.inputs.get? collection).isSome

/-! ## Flushing -/

/-- What is sent of the changes of a collection: a copy of what they come to for each of its inputs,
and nothing where they come to nothing. -/
def copies (inputs : Inputs) (collection : String) (d : Delta Row) : List (Nat × Delta Row) :=
  let net := Delta.consolidate d
  if net.isEmpty then [] else (inputs.of collection).map (·, net)

/-- What a flush sends, to which inputs. -/
def sends (v : LiveView) : List (Nat × Delta Row) :=
  v.queued.flatMap fun (collection, d) => copies v.circuit.inputs collection d

/-- The graph with all at its inputs that a flush sends. -/
def fed (v : LiveView) : Except Error Graph := v.circuit.graph.sendAll v.sends

/-- The view with another state of its graph. -/
def withGraph (v : LiveView) (graph : Graph) : LiveView :=
  { v with circuit := { v.circuit with graph } }

/-- Takes the output of the graph into the rows of the view, and publishes the batch. -/
def collect (v : LiveView) : LiveView × Batch :=
  let (graph, out) := v.circuit.graph.drainConsolidated v.circuit.sink
  let (rows, batch) := v.rows.fold out
  ({ v.withGraph graph with rows, hub := v.hub.publish batch }, batch)

/-- Sends what is queued through the graph. -/
def flush (v : LiveView) : LiveView × Except Error Batch :=
  let emptied := { v with queued := [] }
  match v.fed with
  | .error e => (emptied, .error e)
  | .ok graph =>
    if graph.hasWork then
      match graph.run with
      | (graph, some e) => (emptied.withGraph graph, .error e)
      | (graph, none) =>
        let (v, batch) := (emptied.withGraph graph).collect
        (v, .ok batch)
    else (emptied.withGraph graph, .ok [])

/-! ## Transactions -/

/-- Opens a transaction. -/
def begin (v : LiveView) : Except Error LiveView :=
  if v.inTransaction then .error .transactionOpen else .ok { v with inTransaction := true }

/-- Closes the transaction and flushes. -/
def commit (v : LiveView) : LiveView × Except Error Batch :=
  if v.inTransaction then { v with inTransaction := false }.flush else (v, .error .noTransaction)

/-! ## Changes -/

/-- Takes a change into the table of its collection, and queues what it makes of its rows. -/
def queue (collection : String) (v : LiveView) (c : Change) : LiveView :=
  let (table, d) := c.applyTo ((v.tables.get? collection).getD [])
  { v with
    tables := v.tables.put collection table
    queued := v.queued.put collection ((v.queued.get? collection).getD [] ++ d) }

/-- Applies a change of one row. -/
def apply (v : LiveView) (collection : String) (c : Change) : LiveView × Except Error Batch :=
  match c.fault? with
  | some fault => (v, .error (.change fault))
  | none =>
    if !v.reads collection then (v, .error (.unknownCollection collection))
    else
      let v := v.queue collection c
      if v.inTransaction || !v.autocommit then (v, .ok []) else v.flush

/-- Applies changes of one collection together: all of them, or none if one is not valid. -/
def applyAll (v : LiveView) (collection : String) (changes : List Change) :
    LiveView × Except Error Batch :=
  if !v.reads collection then (v, .error (.unknownCollection collection))
  else
    match changes.findSome? Change.fault? with
    | some fault => (v, .error (.change fault))
    | none =>
      let v := changes.foldl (queue collection) v
      if v.inTransaction then (v, .ok []) else v.flush

/-! ## Window -/

/-- The window in force, for a query with ORDER BY. -/
def window? (v : LiveView) : Option Window := v.circuit.window?

/-- Moves the window; inside a transaction it moves with the commit. -/
def setWindow (v : LiveView) (offset : Int) (limit : Option Int) :
    LiveView × Except Error Batch :=
  match v.circuit.windowNode with
  | none => (v, .error .noWindow)
  | some n =>
    let v := v.withGraph (v.circuit.graph.requestWindow n ⟨some offset, some limit⟩)
    if v.inTransaction then (v, .ok []) else v.flush

/-! ## Reading -/

/-- The rows in order. -/
def results (v : LiveView) : List (Value × ViewRow) := v.rows.results

/-- The row under a key. -/
def get? (v : LiveView) (key : Value) : Option Value := (v.rows.get? key).map (·.value)

/-! ## Subscriptions -/

def subscribe (v : LiveView) : LiveView × Nat :=
  let (hub, id) := v.hub.subscribe
  ({ v with hub }, id)

def unsubscribe (v : LiveView) (id : Nat) : Except Error LiveView :=
  (v.hub.unsubscribe id).map fun hub => { v with hub }

def drainEvents (v : LiveView) (id : Nat) : Except Error (LiveView × List Batch) :=
  (v.hub.drain id).map fun (hub, batches) => ({ v with hub }, batches)

end LiveView

end DeltaView
