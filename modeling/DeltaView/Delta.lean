import DeltaView.Table

/-!
# Deltas

A delta is a multiset with signed multiplicities, kept as a list in which an item may stand several
times. It is the change of a table as well as the table itself, the sum of all its changes.
Multiplicities are integers, or machine integers whose sums and products wrap around: operators and
graphs are made for both, plans and views count in integers.

* `total` is the multiplicity of an item: the sum over the list.
* `consolidate` keeps one entry for every item whose total is not zero, in the order of first
  occurrence. `Slots` is what it goes by on its way through the list.
* `adjust` adds to one item of a table that is kept so: entries of zero leave it.
-/

namespace DeltaView

abbrev Delta (α : Type) (M : Type := Int) := List (α × M)

/-! ## Consolidation -/

/-- What a consolidation goes by. Every item that has occurred has a slot, and a slot has the total
of its item so far and the place where the item first stood. -/
structure Slots (α M : Type) where
  positions : Table α Nat := []
  totals : List M := []
  firsts : List Nat := []

namespace Slots

variable {α M : Type} [DecidableEq α] [Add M] [OfNat M 0] [DecidableEq M]

/-- Reads the entry at a place. -/
def read (s : Slots α M) (place : Nat) (a : α) (m : M) : Slots α M :=
  match s.positions.get? a with
  | some slot => { s with totals := s.totals.modify slot (· + m) }
  | none =>
    { positions := s.positions.put a s.totals.length
      totals := s.totals ++ [m]
      firsts := s.firsts ++ [place] }

/-- Reads all entries, one after the other. -/
def ofEntries (d : List (α × M)) : Slots α M :=
  d.zipIdx.foldl (fun s ((a, m), place) => s.read place a m) {}

/-- What each of the first `size` places keeps: where an item first stood, its total, if that is not
zero. -/
def kept (s : Slots α M) (size : Nat) : List (Option M) :=
  (s.firsts.zip s.totals).foldl
    (fun kept (place, m) => if m = 0 then kept else kept.set place (some m))
    (List.replicate size none)

/-- The entries at the places that keep a total, with that total. -/
def consolidate (d : List (α × M)) : List (α × M) :=
  (d.zip ((ofEntries d).kept d.length)).filterMap fun ((a, _), m) => m.map (a, ·)

end Slots

/-! ## Operations -/

namespace Delta

variable {α β M : Type} [Add M] [Neg M] [OfNat M 0] [DecidableEq M]

/-- The multiplicity of an item. -/
def total [DecidableEq α] (a : α) : Delta α M → M
  | [] => 0
  | (b, m) :: d => (if b = a then m else 0) + total a d

/-- Every multiplicity with the other sign. -/
def negate (d : Delta α M) : Delta α M := d.map fun (a, m) => (a, -m)

/-- Every item mapped, multiplicities as they are. -/
def mapItems (f : α → β) (d : Delta α M) : Delta β M := d.map fun (a, m) => (f a, m)

/-- The entries whose item passes a test. -/
def filterItems (p : α → Bool) (d : Delta α M) : Delta α M := d.filter fun (a, _) => p a

/-- One entry for every item whose total is not zero, in the order of first occurrence. -/
def consolidate [DecidableEq α] (d : Delta α M) : Delta α M := Slots.consolidate d

/-- Adds to the multiplicity of an item and drops its entry where that becomes zero. -/
def adjust [DecidableEq α] (a : α) (m : M) : Delta α M → Delta α M
  | [] => if m = 0 then [] else [(a, m)]
  | (b, k) :: d =>
    if b = a then (if k + m = 0 then d else (b, k + m) :: d) else (b, k) :: adjust a m d

/-- The sum of all multiplicities. -/
def mass : Delta α M → M
  | [] => 0
  | (_, m) :: d => m + mass d

end Delta

end DeltaView
