import DeltaView.Group.Aggregate
import DeltaView.Grouping
import DeltaView.Table

/-!
# Incremental grouping

A grouping keeps the members of every group and the row it last emitted for it. A group has a row
while its members' multiplicities add up to more than zero: the object of its key and its
aggregates, under the key itself.

* `groupRow?` is the row of a key, from its members alone.
* `step` takes a batch in and then looks at every group that it touched, in the order of first
  touch; a row that does not change is not emitted again.
-/

namespace DeltaView

structure GroupRule where
  key : Row → Value
  aggregates : List Aggregate

structure GroupState (M : Type := Int) where
  groups : Grouping Value Row M
  emitted : Table Value Row

namespace GroupState

variable {M : Type} [Add M] [Neg M] [OfNat M 0] [OfNat M 1] [LT M] [DecidableEq M]
  [DecidableLT M] [ToInt M]

def empty : GroupState M := ⟨[], []⟩

/-- The field that holds a group's key. -/
def keyField : String := "__key"

/-- The fields of a group's row; an aggregate of the same name as another field replaces it. -/
def groupFields (rule : GroupRule) (key : Value) (members : Delta Row M) : List (String × Value) :=
  Value.setFields (rule.aggregates.map fun a => (a.label, a.compute members)) [(keyField, key)]

/-- The row of a group with these members. -/
def rowOf? (rule : GroupRule) (key : Value) (members : Delta Row M) : Option Row :=
  if 0 < Delta.mass members then
    some { key := .plain key, value := .object (groupFields rule key members) }
  else none

/-- The row of a key. -/
def groupRow? (rule : GroupRule) (s : GroupState M) (key : Value) : Option Row :=
  rowOf? rule key (s.groups.members key)

/-- Takes one change of a row in. -/
def take (rule : GroupRule) (s : GroupState M) (r : Row) (m : M) : GroupState M :=
  { s with groups := s.groups.adjust (rule.key r) r m }

/-- The keys of a batch, each once, in the order of first occurrence. -/
def touched (rule : GroupRule) (d : Delta Row M) : List Value :=
  (d.foldl (fun acc (r, _) => let k := rule.key r; if acc.contains k then acc else k :: acc)
    []).reverse

/-- Replaces the emitted row of a key by the row it has now. -/
def refresh (rule : GroupRule) (s : GroupState M) (key : Value) : GroupState M × Delta Row M :=
  let old := s.emitted.get? key
  let new := groupRow? rule s key
  if old = new then (s, [])
  else
    ({ s with emitted := s.emitted.set key new },
      (old.toList.map fun r => (r, -1)) ++ (new.toList.map fun r => (r, 1)))

/-- Replaces the emitted rows of several keys, one after the other. -/
def refreshAll (rule : GroupRule) : GroupState M → List Value → GroupState M × Delta Row M
  | s, [] => (s, [])
  | s, key :: keys =>
    let (s, out) := refresh rule s key
    let (s, rest) := refreshAll rule s keys
    (s, out ++ rest)

/-- One batch: the change of the groups' rows, and the state after it. -/
def step (s : GroupState M) (rule : GroupRule) (d : Delta Row M) : GroupState M × Delta Row M :=
  refreshAll rule (d.foldl (fun s (r, m) => take rule s r m) s) (touched rule d)

end GroupState

end DeltaView
