/-!
# Windows

The part of a ranking that shows: `limit` rows after the first `offset`, or all of them. A negative
offset or limit shows nothing.

* `start` and `stop?` are the bounds of the ranks that show; there is no upper bound without a
  limit.
* Requests to move a window may leave out a part; `Update.merge` lets the later one of two requests
  decide, and `Update.apply` fills the rest from the window in force.
-/

namespace DeltaView

structure Window where
  offset : Int
  limit : Option Int
deriving DecidableEq

namespace Window

def unbounded : Window := ⟨0, none⟩

/-- Does the window show nothing, whatever there is? -/
def isNegative (w : Window) : Bool := w.offset < 0 || w.limit.any (· < 0)

/-- The first rank that shows. -/
def start (w : Window) : Nat := if w.isNegative then 0 else w.offset.toNat

/-- The first rank that no longer shows, if there is one. -/
def stop? (w : Window) : Option Nat :=
  if w.isNegative then some 0
  else w.limit.map fun n => w.offset.toNat + n.toNat

/-- Is a rank before the end of the window? -/
def isBefore (w : Window) (rank : Nat) : Bool :=
  match w.stop? with
  | some stop => rank < stop
  | none => true

/-- Does a rank show? -/
def shows (w : Window) (rank : Nat) : Bool := w.start ≤ rank && w.isBefore rank

/-- A request to move a window: a new offset, a new limit or none, or both. -/
structure Update where
  offset : Option Int
  limit : Option (Option Int)
deriving DecidableEq

namespace Update

/-- An earlier and a later request as one. -/
def merge (earlier later : Update) : Update :=
  ⟨later.offset.or earlier.offset, later.limit.or earlier.limit⟩

/-- The window that a request asks for. -/
def apply (u : Update) (w : Window) : Window := ⟨u.offset.getD w.offset, u.limit.getD w.limit⟩

end Update

end Window

end DeltaView
