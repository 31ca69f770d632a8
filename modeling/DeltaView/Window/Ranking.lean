import DeltaView.Error
import DeltaView.Row
import DeltaView.Window.Range

/-!
# Rankings

A ranking keeps rows in order, each with an order key that it holds for as long as it stays, and
shows those inside a window.

* Rows are ordered by a comparison of their values, then by key, then by value.
* `insert` and `delete` report which row came into the window and which one left it; a row that is
  there already, or is not there, changes nothing.
* `moveWindow` reports all rows that came in or left.
-/

namespace DeltaView

/-- A row of a ranking with its order key. -/
structure Ranked where
  row : Row
  index : String
deriving DecidableEq

/-- The row with its order key. -/
def Ranked.toRow (e : Ranked) : Row := { e.row with order := some e.index }

/-- The rows that come into a window and leave it when one row comes or goes. -/
structure WindowChange where
  moveIn : Option Ranked := none
  moveOut : Option Ranked := none
deriving DecidableEq

/-- The rows that come into a window and leave it when it moves. -/
structure WindowMove where
  moveIns : List Ranked
  moveOuts : List Ranked
deriving DecidableEq

structure Ranking where
  elements : List Ranked
  window : Window
deriving DecidableEq

namespace Ranking

def empty (window : Window) : Ranking := ⟨[], window⟩

/-- Compares rows: by value under the comparison, by key, and by value itself. -/
def compareRows (compare : Value → Value → Ordering) (a b : Row) : Ordering :=
  (compare a.value b.value).then ((RowKey.cmp a.key b.key).then (Value.cmp a.value b.value))

/-- The rows inside the window. -/
def visible (r : Ranking) : List Ranked :=
  match r.window.stop? with
  | some stop => (r.elements.take stop).drop r.window.start
  | none => r.elements.drop r.window.start

/-! ## Search -/

/-- Halves a range of `size` elements from `base` on until one is left: the last one that is not
above what is sought, in an ordered list. -/
def narrow (isAbove : Ranked → Bool) (elements : List Ranked) (base size : Nat) : Nat :=
  if 1 < size then
    let half := size / 2
    let mid := base + half
    let base' := if (elements[mid]?).any isAbove then base else mid
    narrow isAbove elements base' (size - half)
  else base
termination_by size

/-- The place of a row: where it is, or where it would be inserted. -/
inductive Place where
  | found (position : Nat)
  | missing (position : Nat)
deriving DecidableEq

/-- Looks a row up in the order. -/
def search (compare : Value → Value → Ordering) (elements : List Ranked) (row : Row) : Place :=
  let cmp (e : Ranked) : Ordering := compareRows compare e.row row
  let base := narrow (fun e => cmp e == .gt) elements 0 elements.length
  match elements[base]? with
  | none => .missing 0
  | some e =>
    match cmp e with
    | .eq => .found base
    | .lt => .missing (base + 1)
    | .gt => .missing base

/-! ## Changes -/

/-- The order key of an element before a position. -/
def indexBefore (elements : List Ranked) (position : Nat) : Option String :=
  if position = 0 then none else (elements[position - 1]?).map (·.index)

/-- Inserts a row at its place, with an order key between its neighbours. -/
def insert (compare : Value → Value → Ordering) (r : Ranking) (row : Row) :
    Except Error (Ranking × WindowChange) :=
  match search compare r.elements row with
  | .found _ => .ok (r, {})
  | .missing position =>
    match OrderKey.keyBetween (indexBefore r.elements position)
        ((r.elements[position]?).map (·.index)) with
    | .error fault => .error (.orderKey fault)
    | .ok index =>
      let elements := r.elements.take position ++ ⟨row, index⟩ :: r.elements.drop position
      let change : WindowChange :=
        if r.window.isBefore position then
          { moveIn := elements[max position r.window.start]?
            moveOut := r.window.stop?.bind fun stop => elements[stop]? }
        else {}
      .ok ({ r with elements }, change)

/-- Deletes a row. -/
def delete (compare : Value → Value → Ordering) (r : Ranking) (row : Row) :
    Ranking × WindowChange :=
  match search compare r.elements row with
  | .missing _ => (r, {})
  | .found position =>
    let elements := r.elements.eraseIdx position
    let change : WindowChange :=
      if r.window.isBefore position then
        { moveOut :=
            if r.window.start ≤ position then r.elements[position]?
            else elements[r.window.start - 1]?
          moveIn := r.window.stop?.bind fun stop =>
            if stop = 0 then none else elements[stop - 1]? }
      else {}
    ({ r with elements }, change)

/-- The elements whose rank, counted from `rank` on, passes one test and fails another. -/
def newlyIn (was is : Nat → Bool) : Nat → List Ranked → List Ranked
  | _, [] => []
  | rank, e :: es =>
    if is rank && !was rank then e :: newlyIn was is (rank + 1) es
    else newlyIn was is (rank + 1) es

/-- Moves the window. -/
def moveWindow (r : Ranking) (window : Window) : Ranking × WindowMove :=
  ({ r with window },
    { moveIns := newlyIn r.window.shows window.shows 0 r.elements
      moveOuts := newlyIn window.shows r.window.shows 0 r.elements })

end Ranking

end DeltaView
