import DeltaView.Proofs.Join.Table

/-!
# Filters on joins

A test of joined rows can be made on the sides before they are joined, if it is a test of one side
and a test of the other. What is left to tell is what becomes of rows without a partner: where a
side's test refuses its absence, they are refused, and the join no longer keeps them.

* `SideTests`, `SideTests.Splits`: a test of joined rows made of tests of the sides.
* **`filter_table`**: a filter on a join is the join of the filtered sides, of a kind that keeps
  fewer rows.
-/

namespace DeltaView

/-- The kind of a join by the sides whose rows stay without a partner. -/
def JoinKind.ofKeeps : Bool → Bool → JoinKind
  | false, false => .inner
  | true, false => .left
  | false, true => .right
  | true, true => .full

@[simp] theorem JoinKind.keepsLeft_ofKeeps (l r : Bool) : (ofKeeps l r).keepsLeft = l := by
  cases l <;> cases r <;> rfl

@[simp] theorem JoinKind.keepsRight_ofKeeps (l r : Bool) : (ofKeeps l r).keepsRight = r := by
  cases l <;> cases r <;> rfl

namespace JoinRule

/-! ## Tests by side -/

/-- A test of joined rows with tests of the sides, each with its answer where its side is absent. -/
structure SideTests where
  joined : Row → Bool
  left : Row → Bool
  right : Row → Bool
  noLeft : Bool
  noRight : Bool

/-- A test of joined rows is a test of one side and a test of the other. A side that may be absent
and whose test passes where it is absent is not tested at all. -/
structure SideTests.Splits (t : SideTests) (kind : JoinKind) (left right : Delta Row) : Prop where
  pair : ∀ l ∈ left, ∀ r ∈ right,
    t.joined (Row.merge (some l.1) (some r.1)) = (t.left l.1 && t.right r.1)
  padLeft : ∀ l ∈ left, t.joined (JoinState.padLeft l.1) = (t.left l.1 && t.noRight)
  padRight : ∀ r ∈ right, t.joined (JoinState.padRight r.1) = (t.right r.1 && t.noLeft)
  untestedLeft : kind.keepsRight = true → t.noLeft = true → ∀ l, t.left l = true
  untestedRight : kind.keepsLeft = true → t.noRight = true → ∀ r, t.right r = true

/-- The join that keeps rows without a partner only where the absent side passes. -/
def tested (rule : JoinRule) (t : SideTests) : JoinRule :=
  { rule with
    kind := .ofKeeps (rule.kind.keepsLeft && t.noRight) (rule.kind.keepsRight && t.noLeft) }

variable {left right : Delta Row} {t : SideTests}

theorem filter_matched (rule : JoinRule) (h : t.Splits rule.kind left right) :
    Delta.Same (Delta.filterItems t.joined (rule.matched left right))
      (rule.matched (Delta.filterItems t.left left) (Delta.filterItems t.right right)) := by
  intro x
  rw [Delta.total_eq_weigh, Delta.total_eq_weigh, Delta.weigh_filterItems, weigh_matched,
    weigh_matched, Delta.weigh_filterItems]
  refine Delta.weigh_congr fun l hl => ?_
  rw [Delta.weigh_filterItems]
  by_cases hp : t.left l.1
  · rw [if_pos hp]
    refine Delta.weigh_congr fun r hr => ?_
    rw [h.pair l hl r hr, hp, Bool.true_and]
    split <;> split <;> rfl
  · rw [if_neg hp]
    refine Eq.trans (Delta.weigh_congr fun r hr => ?_) (Delta.weigh_zero right)
    rw [h.pair l hl r hr, eq_false_of_ne_true hp]
    split <;> rfl

/-- The padded rows of one side that pass a test: those of the rows that pass, or none. -/
theorem filter_padded {joined test : Row → Bool} {absent : Bool} {pad : Row → Row}
    {rows partners partners' : Delta Row} (key partnerKey : Row → JoinKey)
    (hpad : ∀ r ∈ rows, joined (pad r.1) = (test r.1 && absent))
    (hpartners : absent = true → partners' = partners) :
    Delta.filterItems joined (padded pad key partnerKey rows partners) =
      if absent then padded pad key partnerKey (Delta.filterItems test rows) partners' else [] := by
  unfold padded
  rw [Delta.filterItems_mapItems, Delta.filterItems_filterItems]
  cases absent with
  | true =>
    rw [if_pos rfl, hpartners rfl, Delta.filterItems_filterItems]
    refine congrArg _ (Delta.filterItems_congr fun r hr => ?_)
    rw [hpad r hr, Bool.and_true, Bool.and_comm]
  | false =>
    rw [if_neg Bool.false_ne_true]
    refine List.map_eq_nil_iff.mpr (Delta.filterItems_eq_nil fun r hr => ?_)
    rw [hpad r hr, Bool.and_false, Bool.and_false]

/-- **A filter on a join is the join of the filtered sides**, which keeps fewer rows without a
partner. -/
theorem filter_table (rule : JoinRule) (h : t.Splits rule.kind left right) :
    Delta.Same (Delta.filterItems t.joined (rule.table left right))
      ((rule.tested t).table (Delta.filterItems t.left left)
        (Delta.filterItems t.right right)) := by
  have hleft := fun hk => filter_padded rule.leftKey rule.rightKey h.padLeft fun ha =>
    Delta.filterItems_eq_self fun r (_ : r ∈ right) => h.untestedRight hk ha r.1
  have hright := fun hk => filter_padded rule.rightKey rule.leftKey h.padRight fun ha =>
    Delta.filterItems_eq_self fun l (_ : l ∈ left) => h.untestedLeft hk ha l.1
  unfold table tested
  rw [Delta.filterItems_append, Delta.filterItems_append, JoinKind.keepsLeft_ofKeeps,
    JoinKind.keepsRight_ofKeeps]
  refine Delta.Same.append (Delta.Same.append (filter_matched rule h) (.of_eq ?_)) (.of_eq ?_)
  · cases hk : rule.kind.keepsLeft with
    | true => exact hleft hk
    | false => rfl
  · cases hk : rule.kind.keepsRight with
    | true => exact hright hk
    | false => rfl

end JoinRule

end DeltaView
