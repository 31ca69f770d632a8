import DeltaView.Proofs.Query.Pushdown
import DeltaView.Query.Optimize

/-!
# Optimization keeps rows

Passes over all levels, and the collapse of subqueries that only forward, are steps that leave the
rows of every source as they are, and leave no source without a plan or with one that had none.

* `pushDown_optimizesTo`, `collapse_matches`: pushdown in a source and its collapse, level by level.
* `passes_optimizesTo`: any number of passes.
* **`optimize_matches`**: an optimized query has a plan exactly where the query has one, with the
  same rows.
-/

namespace DeltaView

namespace Source

/-! ## Pushdown at all levels -/

mutual

/-- **Pushdown in a source** optimizes it. -/
theorem pushDown_optimizesTo : ∀ (s : Source) (depth : Nat), s.Optimizable →
    s.OptimizesTo (s.pushDown depth)
  | .collection _ _, _, h => .refl h
  | .subquery _ _, 0, h => .refl h
  | .subquery q label, depth + 1, h => (pushDownLevel_optimizesTo q depth h).subquery label

theorem pushDownLevel_optimizesTo : ∀ (q : Query) (depth : Nat), Query.Optimizable q →
    q.OptimizesTo (pushDownLevel q depth)
  | ⟨source, _, joins, _, _, _, _, _, _, _, _, _, _⟩, depth, h => by
    have hover := Level.revise_optimizesTo h (pushDown_optimizesTo source depth h.2.1)
      (pushDownJoins_optimizesTo joins depth h.2.2) rfl fun _ => List.Subset.refl _
    exact hover.trans (Level.pushDown_optimizesTo hover.optimizable)

theorem pushDownJoins_optimizesTo : ∀ (joins : List (Join Source)) (depth : Nat),
    EveryLevelOfJoins Level.OptimizableHere joins →
    List.Forall₂ (Join.Over OptimizesTo) joins (pushDownJoins joins depth)
  | [], _, _ => .nil
  | ⟨kind, source, left, right⟩ :: joins, depth, h =>
    .cons (.intro kind left right (pushDown_optimizesTo source depth h.1))
      (pushDownJoins_optimizesTo joins depth h.2)

end

/-! ## Collapse -/

theorem withLabel_withLabel (s : Source) (label : String) :
    (s.withLabel label).withLabel s.label = s := by
  cases s with
  | collection name a => rfl
  | subquery q a => rfl

/-- A subquery that only forwards its source may be replaced by it. -/
theorem forwarding_matches (s : Source) (label : String) :
    (subquery (.ofSource s) label).Matches (s.withLabel label) := by
  refine ⟨forwarding_applies (fun _ => rfl) s label, (s.label_withLabel label).symm, ?_⟩
  intro p hp
  obtain ⟨rows, -, hs⟩ := Plan.ofSource?_withLabel hp s.label
  rw [withLabel_withLabel] at hs
  have hquery : Plan.ofQuery? (.ofSource s) =
      .ok (.output (.project (.source s.label) (.named s.label rows))) := by
    rw [Plan.ofQuery?_ofSource, hs]
    rfl
  exact ⟨_, map_eq_ok.mpr ⟨_, hquery, rfl⟩, trivial⟩

mutual

/-- **The collapse of a source** leaves its rows as they are. -/
theorem collapse_matches : ∀ s : Source, s.Matches s.collapse
  | .collection _ _ => .refl _
  | .subquery q label => by
    have hinner := (collapseLevel_matches q).subquery label
    unfold collapse
    dsimp only
    split
    · rename_i hforwards
      have heq : collapseLevel q = .ofSource (collapseLevel q).source := eq_of_beq hforwards
      have hforward : (subquery (collapseLevel q) label).Matches
          ((collapseLevel q).source.withLabel label) := by
        rw [heq]
        exact forwarding_matches _ label
      exact hinner.trans hforward
    · exact hinner

theorem collapseLevel_matches : ∀ q : Query, q.Matches (collapseLevel q)
  | ⟨source, _, joins, _, _, _, _, _, _, _, _, _, _⟩ =>
    Level.revise_matches (collapse_matches source) (collapseJoins_matches joins) rfl

theorem collapseJoins_matches : ∀ joins : List (Join Source),
    List.Forall₂ (Join.Over Matches) joins (collapseJoins joins)
  | [] => .nil
  | ⟨kind, source, left, right⟩ :: joins =>
    .cons (.intro kind left right (collapse_matches source)) (collapseJoins_matches joins)

end

end Source

/-! ## The whole -/

theorem Query.passes_optimizesTo (depth : Nat) {q : Query} (h : Query.Optimizable q) (n : Nat) :
    q.OptimizesTo (passes depth n q) := by
  induction n generalizing q with
  | zero => exact .refl h
  | succ n ih =>
    unfold passes
    dsimp only
    split
    · exact .refl h
    · have hpass := Source.pushDownLevel_optimizesTo q depth h
      exact hpass.trans (ih hpass.optimizable)

theorem Optimizer.optimize_of_disabled {o : Optimizer} (h : o.isEnabled = false) (q : Query) :
    o.optimize q = q := by
  unfold optimize
  rw [h]
  rfl

/-- **An optimized query matches the query**: it has a plan exactly where the query has one, with the
same rows. -/
theorem Optimizer.optimize_matches (o : Optimizer) {q : Query} (h : Query.Optimizable q) :
    q.Matches (o.optimize q) := by
  unfold optimize
  split
  · exact (Query.passes_optimizesTo o.maxDepth h o.maxPasses).toMatches.trans
      (Source.collapseLevel_matches _)
  · exact .refl q

/-- An optimized query agrees with the query, if its conditions can be moved. -/
theorem Optimizer.optimize_agrees (o : Optimizer) {q : Query} (h : Query.Pushable q) :
    q.Agrees (o.optimize q) :=
  (o.optimize_matches (Query.optimizable_of_pushable h)).agrees

end DeltaView
