import DeltaView.Delta
import DeltaView.Insertion
import DeltaView.Window.Ranking

/-!
# Incremental windows

A window over an ordered table: the operator ranks the rows whose multiplicity is positive, shows
those inside its window with their order keys, and emits what comes in and goes out.

* Requests to move the window wait in `pending` until the next step, which applies them first.
* `step` then takes the change of the rows in: rows that appear or disappear, deletions before
  insertions, both in the order of the ranking.
-/

namespace DeltaView

structure WindowState (M : Type := Int) where
  ranking : Ranking
  counts : Delta Row M
  pending : Option Window.Update
deriving DecidableEq

namespace WindowState

variable {M : Type} [Add M] [Neg M] [OfNat M 0] [OfNat M 1] [LT M] [DecidableEq M]
  [DecidableLT M]

def start (window : Window) : WindowState M := ⟨.empty window, [], none⟩

/-- The window in force. -/
def window (s : WindowState M) : Window := s.ranking.window

/-- Adds a request to move the window. -/
def request (s : WindowState M) (u : Window.Update) : WindowState M :=
  { s with pending := some (match s.pending with | some p => p.merge u | none => u) }

def hasPending (s : WindowState M) : Bool := s.pending.isSome

/-- The emission of a change of one row in the window. -/
def emitChange (c : WindowChange) : Delta Row M :=
  (c.moveOut.toList.map fun e => (e.toRow, -1)) ++ (c.moveIn.toList.map fun e => (e.toRow, 1))

/-- Applies the waiting requests. -/
def applyPending (s : WindowState M) : WindowState M × Delta Row M :=
  match s.pending with
  | none => (s, [])
  | some u =>
    let (ranking, moves) := s.ranking.moveWindow (u.apply s.window)
    ({ s with ranking, pending := none },
      (moves.moveOuts.map fun e => (e.toRow, -1)) ++ (moves.moveIns.map fun e => (e.toRow, 1)))

/-- The rows whose multiplicity becomes positive with a consolidated change. -/
def appearing (counts d : Delta Row M) : List Row :=
  (d.filter fun (r, m) =>
    !(0 < Delta.total r counts : Bool) && (0 < Delta.total r counts + m : Bool)).map (·.1)

/-- The rows whose multiplicity ceases to be positive with a consolidated change. -/
def disappearing (counts d : Delta Row M) : List Row :=
  (d.filter fun (r, m) =>
    (0 < Delta.total r counts : Bool) && !(0 < Delta.total r counts + m : Bool)).map (·.1)

/-- Rows in the order of the ranking. -/
def sortRows (compare : Value → Value → Ordering) (rows : List Row) : List Row :=
  insertionSort (Ranking.compareRows compare) rows

def deleteAll (compare : Value → Value → Ordering) : Ranking → List Row → Ranking × Delta Row M
  | r, [] => (r, [])
  | r, row :: rows =>
    let (r, change) := r.delete compare row
    let (r, rest) := deleteAll compare r rows
    (r, emitChange change ++ rest)

def insertAll (compare : Value → Value → Ordering) :
    Ranking → List Row → Except Error (Ranking × Delta Row M)
  | r, [] => .ok (r, [])
  | r, row :: rows =>
    match r.insert compare row with
    | .error e => .error e
    | .ok (r, change) =>
      match insertAll compare r rows with
      | .error e => .error e
      | .ok (r, rest) => .ok (r, emitChange change ++ rest)

/-- One batch: the change of the visible rows, and the state after it. -/
def step (s : WindowState M) (compare : Value → Value → Ordering) (d : Delta Row M) :
    Except Error (WindowState M × Delta Row M) :=
  let (s, moved) := s.applyPending
  let d := Delta.consolidate (Delta.mapItems Row.unordered d)
  let removals := sortRows compare (disappearing s.counts d)
  let insertions := sortRows compare (appearing s.counts d)
  let counts := d.foldl (fun counts (r, m) => Delta.adjust r m counts) s.counts
  let (ranking, out) := deleteAll compare s.ranking removals
  match insertAll compare ranking insertions with
  | .error e => .error e
  | .ok (ranking, ins) =>
    .ok ({ s with ranking, counts }, Delta.consolidate (moved ++ out ++ ins))

end WindowState

end DeltaView
