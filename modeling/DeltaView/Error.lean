import DeltaView.Change
import DeltaView.OrderKey

/-!
# Errors

Why a query cannot be compiled, or why a call on a running view is refused. The causes are the
constructors of `Error`; their wording is in `Error.message` alone.
-/

namespace DeltaView

/-- Misuse of a dataflow graph. -/
inductive GraphFault where
  | finalized
  | notFinalized
  | cyclic
  | arity (operator : String) (expected actual : Nat)
  | notInput (node : Nat)
deriving DecidableEq

def GraphFault.message : GraphFault → String
  | .finalized => "graph is already finalized"
  | .notFinalized => "graph must be finalized before running"
  | .cyclic => "graph contains a cycle"
  | .arity operator expected actual =>
    s!"operator {operator} expects {expected} inputs, got {actual}"
  | .notInput node => s!"node {node} is not an input"

inductive Error where
  | change (fault : Change.Fault)
  /-- A join condition needs one source on each side. -/
  | conditionWithoutSource
  | conditionSameSource (label : String)
  /-- The main side of a join condition reads a source that is not there yet. -/
  | conditionUnavailable (label : String)
  /-- The other side does not read the source that is joined. -/
  | conditionNotJoined (label : String)
  | windowWithoutOrder
  | distinctWithoutSelect
  | notGrouped (label : String)
  | aggregateNotSelected (name : String)
  | unsupportedAggregate (name : String)
  | unsupportedFunction (name : String)
  | misplacedAggregate (name : String)
  | unknownCollection (name : String)
  | duplicateLabel (label : String)
  | unknownLabel (label : String)
  | noWindow
  | unknownExpression
  | graph (fault : GraphFault)
  | unknownNode (node : Nat)
  | orderKey (fault : OrderKey.Fault)
  | transactionOpen
  | noTransaction
  | unknownSubscription (id : Nat)
deriving DecidableEq

/-- A name in double quotes. -/
def inQuotes (s : String) : String := "\"" ++ s ++ "\""

def Error.message : Error → String
  | .change fault => "protocol error: " ++ fault.message
  | .conditionWithoutSource =>
    "Invalid join condition: expressions must reference source aliases"
  | .conditionSameSource label =>
    "Invalid join condition: both expressions refer to the same source " ++ inQuotes label
  | .conditionUnavailable label =>
    "Invalid join condition: left expression refers to an unavailable source " ++ inQuotes label
  | .conditionNotJoined label =>
    "Invalid join condition: right expression does not refer to the joined source " ++
      inQuotes label
  | .windowWithoutOrder =>
    "LIMIT and OFFSET require an ORDER BY clause to ensure deterministic results"
  | .distinctWithoutSelect => "DISTINCT requires a SELECT clause"
  | .notGrouped label =>
    "non-aggregate expression '" ++ label ++ "' in SELECT must also appear in GROUP BY"
  | .aggregateNotSelected name =>
    "aggregate function '" ++ name ++ "' in HAVING must also appear in SELECT"
  | .unsupportedAggregate name => "unsupported aggregate function: " ++ name
  | .unsupportedFunction name => "unsupported function: " ++ name
  | .misplacedAggregate name =>
    "aggregate '" ++ name ++ "' is not allowed outside SELECT and HAVING"
  | .unknownCollection name => "unknown collection: " ++ name
  | .duplicateLabel label => "duplicate source alias " ++ inQuotes label
  | .unknownLabel label => "reference to unknown source alias " ++ inQuotes label
  | .noWindow => "window changes require an ORDER BY clause"
  | .unknownExpression => "cannot compile unknown expression node"
  | .graph fault => "graph error: " ++ fault.message
  | .unknownNode node => s!"unknown graph node NodeId({node})"
  | .orderKey fault => "invalid fractional index bounds: " ++ fault.message
  | .transactionOpen => "a transaction is already open"
  | .noTransaction => "no transaction is open"
  | .unknownSubscription id => s!"subscription {id} not found"

end DeltaView
