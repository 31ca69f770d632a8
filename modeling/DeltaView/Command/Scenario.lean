import DeltaView.Query.Text
import DeltaView.View.Live

/-!
# Scenarios

A scenario is a query with transactions, each a list of changes, and perhaps a window to move to
at the end. `Scenario.replay` runs it on a view, and gives the changes and the rows after every
step, or the first error.
-/

namespace DeltaView

/-- Why a command fails. -/
inductive Failure where
  | unreadable (path reason : String)
  | notJson (path : String)
  | engine (e : Error)
  /-- A change of a transaction is refused; transactions are numbered from one. -/
  | transaction (number : Nat) (e : Error)

def Failure.message : Failure → String
  | .unreadable path reason => "failed to read " ++ path ++ ": " ++ reason
  | .notJson path => "invalid JSON in " ++ path ++ ": not of the expected form"
  | .engine e => e.message
  | .transaction number e => s!"transaction {number}: {e.message}"

structure Scenario where
  query : Query
  /-- The changes, each with its collection. -/
  transactions : List (List (String × Change))
  window : Option Window

/-- The state of the result after a step of a scenario. -/
structure ScenarioStep where
  label : String
  changes : Batch
  rows : List (Value × ViewRow)

namespace Scenario

/-! ## Reading -/

def changeOfJson? (j : Json) : Option (String × Change) := do
  let members ← j.asRecord? ("collection" :: Change.members)
  let collection ← (← Json.need? "collection" members).asString?
  let change ← Change.ofMembers? members
  some (collection, change)

def windowOfJson? (j : Json) : Option Window := do
  let members ← j.asRecord? ["offset", "limit"]
  let offset ← Json.readOr 0 Json.asInt64? "offset" members
  let limit ← Json.readOptional Json.asInt64? "limit" members
  some ⟨offset.toInt, limit.map Int64.toInt⟩

/-- The parts of a text that tell a scenario. -/
def shape : Json.Shape :=
  .record [("query", Query.shape),
    ("transactions", .list (.list (.plainRecord ("collection" :: Change.members)))),
    ("window", .plainRecord ["offset", "limit"])]

def ofJson? (j : Json) : Option Scenario := do
  let members ← j.asRecord? ["query", "transactions", "window"]
  let query ← Source.queryOfJson? false (← Json.need? "query" members)
  let transactions ←
    Json.readOr [] (Json.readList (Json.readList changeOfJson?)) "transactions" members
  let window ← Json.readOptional windowOfJson? "window" members
  some ⟨query, transactions, window⟩

/-- The scenario that a text denotes. -/
def read? (text : String) : Option Scenario := (Json.readShape? shape text).bind ofJson?

/-! ## Replaying -/

/-- The state of a view as a step. -/
def stepOf (label : String) (v : LiveView) (changes : Batch) : ScenarioStep :=
  ⟨label, changes, v.results⟩

/-- Applies changes one after the other, up to the first error. -/
def applyEach : List (String × Change) → LiveView → Except Error LiveView
  | [], v => .ok v
  | (collection, c) :: rest, v =>
    match v.apply collection c with
    | (_, .error e) => .error e
    | (v, .ok _) => applyEach rest v

/-- Applies the changes of one transaction. -/
def transact (changes : List (String × Change)) (v : LiveView) :
    Except Error (LiveView × Batch) := do
  let v ← v.begin
  let v ← applyEach changes v
  match v.commit with
  | (_, .error e) => .error e
  | (v, .ok batch) => .ok (v, batch)

/-- Replays transactions, the first of which has the given number. -/
def transactAll (number : Nat) : List (List (String × Change)) → LiveView →
    Except Failure (LiveView × List ScenarioStep)
  | [], v => .ok (v, [])
  | changes :: rest, v =>
    match transact changes v with
    | .error e => .error (.transaction number e)
    | .ok (v, batch) => do
      let step := stepOf s!"transaction {number}" v batch
      let (v, steps) ← transactAll (number + 1) rest v
      return (v, step :: steps)

/-- Moves the window at the end of a scenario. -/
def moveWindow (window : Option Window) (v : LiveView) : Except Failure (List ScenarioStep) :=
  match window with
  | none => .ok []
  | some w =>
    match v.setWindow w.offset w.limit with
    | (_, .error e) => .error (.engine e)
    | (v, .ok batch) => .ok [stepOf "window" v batch]

/-- All steps of a scenario; its query has no row functions, and every subquery in it is an object
of its own. -/
def replay (o : Optimizer) (s : Scenario) : Except Failure (List ScenarioStep) := do
  let v ← (LiveView.ofQuery? (fun _ _ => .null) id o true s.query).mapError .engine
  let (v, steps) ← transactAll 1 s.transactions v
  return steps ++ (← moveWindow s.window v)

end Scenario

end DeltaView
