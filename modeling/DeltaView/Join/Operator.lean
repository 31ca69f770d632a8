import DeltaView.Join.Index
import DeltaView.Join.Pair
import DeltaView.Query.Basic

/-!
# Incremental joins

A join keeps an index of each side and turns a batch of changes of both sides into the change of
the joined rows.

* `matchedDelta`: the pairs with at least one new row, against the indexes before the batch.
* `paddedDelta`: for a side that keeps rows without partner, the new rows that have none after the
  batch, and the old rows whose key gains its first partner or loses its last.
* `step` consolidates both and adds the batch to the indexes. Both sides of a batch are handled
  together, so no row is padded only to be matched in the same batch.
-/

namespace DeltaView

structure JoinRule where
  kind : JoinKind
  leftKey : Row → JoinKey
  rightKey : Row → JoinKey

structure JoinState (M : Type := Int) where
  left : JoinIndex M
  right : JoinIndex M

namespace JoinState

variable {M : Type} [Add M] [Neg M] [Mul M] [OfNat M 0] [DecidableEq M]

def empty : JoinState M := ⟨.empty, .empty⟩

/-- Pairs of rows as joined rows. -/
def joined (pairs : List (Row × Row × M)) : Delta Row M :=
  pairs.map fun (l, r, m) => (Row.merge (some l) (some r), m)

/-- The change of the pairs: `ΔL ⋈ R + L ⋈ ΔR + ΔL ⋈ ΔR`. -/
def matchedDelta (s : JoinState M) (left right : JoinIndex M) : Delta Row M :=
  joined (left.pairs s.right ++ s.left.pairs right ++ left.pairs right)

/-- The new rows of one side that have no partner after the batch. -/
def paddedNew (pad : Row → Row) (delta partner partnerDelta : JoinIndex M) : Delta Row M :=
  (delta.entries.filter fun (k, _, _) =>
    !k.isSome || partner.mass k + partnerDelta.mass k == 0).map fun (_, r, m) => (pad r, m)

/-- The old rows under a key whose partners come or go with the batch: taken out of the padded
rows or put among them. -/
def paddedFlip (pad : Row → Row) (state partner partnerDelta : JoinIndex M) (k : JoinKey) :
    Delta Row M :=
  let before := partner.mass k
  let after := before + partnerDelta.mass k
  if !k.isSome || (before == 0) == (after == 0) then []
  else (state.rows k).map fun (r, m) => (pad r, if before == 0 then -m else m)

/-- The change of the padded rows of one side. -/
def paddedDelta (pad : Row → Row) (delta state partner partnerDelta : JoinIndex M) :
    Delta Row M :=
  paddedNew pad delta partner partnerDelta ++
    partnerDelta.keys.flatMap (paddedFlip pad state partner partnerDelta)

def padLeft (r : Row) : Row := Row.merge (some r) none
def padRight (r : Row) : Row := Row.merge none (some r)

/-- One batch: the change of the joined rows, and the state after it. -/
def process (rule : JoinRule) (s : JoinState M) (left right : Delta Row M) :
    JoinState M × Delta Row M :=
  let dl := JoinIndex.ofDelta rule.leftKey left
  let dr := JoinIndex.ofDelta rule.rightKey right
  let lefts := if rule.kind.keepsLeft then paddedDelta padLeft dl s.left s.right dr else []
  let rights := if rule.kind.keepsRight then paddedDelta padRight dr s.right s.left dl else []
  (⟨s.left.append dl, s.right.append dr⟩,
    Delta.consolidate (s.matchedDelta dl dr ++ lefts ++ rights))

/-- A step of a graph, which does nothing without input. -/
def step (s : JoinState M) (rule : JoinRule) (left right : Delta Row M) :
    JoinState M × Delta Row M :=
  if left.isEmpty && right.isEmpty then (s, []) else process rule s left right

end JoinState

end DeltaView
