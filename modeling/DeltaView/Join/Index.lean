import DeltaView.Grouping
import DeltaView.Row

/-!
# Join indexes

One side of a join: its rows grouped by join key, and the mass of every key, which is the sum of
its rows' multiplicities and decides whether the other side's rows have a partner.

* A join key is a value other than null, or absent; an absent key matches nothing.
* `add` changes rows and mass by one row; rows and masses of zero leave the index.
* `pairs` are the rows of two indexes with the same key.
-/

namespace DeltaView

/-- What a row is matched by; `none` matches nothing. -/
abbrev JoinKey := Option Value

/-- A value as a join key: null is no key. -/
def Value.toJoinKey (v : Value) : JoinKey := if v.isNull then none else some v

structure JoinIndex (M : Type := Int) where
  groups : Grouping JoinKey Row M
  masses : Delta JoinKey M

namespace JoinIndex

variable {M : Type} [Add M] [Mul M] [OfNat M 0] [DecidableEq M]

def empty : JoinIndex M := ⟨[], []⟩

def add (i : JoinIndex M) (k : JoinKey) (r : Row) (m : M) : JoinIndex M :=
  ⟨i.groups.adjust k r m, i.masses.adjust k m⟩

/-- Adds rows under the keys that a function gives them. -/
def addAll (key : Row → JoinKey) (d : Delta Row M) (i : JoinIndex M) : JoinIndex M :=
  d.foldl (fun i (r, m) => i.add (key r) r m) i

def ofDelta (key : Row → JoinKey) (d : Delta Row M) : JoinIndex M := addAll key d empty

/-- All rows with their keys. -/
def entries (i : JoinIndex M) : List (JoinKey × Row × M) :=
  i.groups.flatMap fun (k, d) => d.map fun (r, m) => (k, r, m)

/-- Adds all rows of another index. -/
def append (i other : JoinIndex M) : JoinIndex M :=
  other.entries.foldl (fun i (k, r, m) => i.add k r m) i

/-- The sum of the multiplicities under a key. -/
def mass (i : JoinIndex M) (k : JoinKey) : M := Delta.total k i.masses

def rows (i : JoinIndex M) (k : JoinKey) : Delta Row M := i.groups.members k

def keys (i : JoinIndex M) : List JoinKey := i.groups.map (·.1)

/-- All pairs of rows under one key, multiplicities multiplied. -/
def groupPairs (left right : Delta Row M) : List (Row × Row × M) :=
  left.flatMap fun (l, m) => right.map fun (r, n) => (l, r, m * n)

/-- All pairs of rows with the same key, found from the side with fewer keys. -/
def pairs (left right : JoinIndex M) : List (Row × Row × M) :=
  if left.groups.length ≤ right.groups.length then
    left.groups.flatMap fun (k, d) => if k.isSome then groupPairs d (right.rows k) else []
  else
    right.groups.flatMap fun (k, d) => if k.isSome then groupPairs (left.rows k) d else []

end JoinIndex

end DeltaView
