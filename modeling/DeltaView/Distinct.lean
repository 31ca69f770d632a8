import DeltaView.Row

/-!
# Incremental deduplication

A deduplication counts the values that it extracts from rows, and shows each of them once, under
itself, while its count is more than zero. Counts may be negative in between.
-/

namespace DeltaView

structure DistinctState (M : Type := Int) where
  counts : Delta Value M

namespace DistinctState

variable {M : Type} [Add M] [Neg M] [OfNat M 0] [OfNat M 1] [LT M] [LE M] [DecidableEq M]
  [DecidableLT M] [DecidableLE M]

def empty : DistinctState M := ⟨[]⟩

/-- The row of a value. -/
def rowOf (v : Value) : Row := { key := .plain v, value := v }

/-- The change of a value's row when its count goes from one number to another. -/
def crossing (v : Value) (before after : M) : Delta Row M :=
  if before ≤ 0 && 0 < after then [(rowOf v, 1)]
  else if 0 < before && after ≤ 0 then [(rowOf v, -1)]
  else []

/-- Takes in a change of a value's count. -/
def take (s : DistinctState M) (v : Value) (m : M) : DistinctState M × Delta Row M :=
  let before := Delta.total v s.counts
  (⟨Delta.adjust v m s.counts⟩, crossing v before (before + m))

def takeAll : DistinctState M → Delta Value M → DistinctState M × Delta Row M
  | s, [] => (s, [])
  | s, (v, m) :: d =>
    let (s, out) := take s v m
    let (s, rest) := takeAll s d
    (s, out ++ rest)

/-- One batch: the change of the rows of the values, and the state after it. -/
def step (s : DistinctState M) (extract : Row → Value) (d : Delta Row M) :
    DistinctState M × Delta Row M :=
  takeAll s (Delta.consolidate (Delta.mapItems extract d))

end DistinctState

end DeltaView
