import DeltaView.Proofs.Dataflow.Run

/-!
# Failures of runs

A ranking may find no order key for a row. This is the only way in which a run of a graph that is
ready can fail.

* `Operator.step_error`: one operator. **`run_error`**: a run.
* `run_error_cases`: a run of any graph.
-/

namespace DeltaView

/-- No order key was found. -/
def Error.IsOrderKey (e : Error) : Prop := ∃ fault, e = .orderKey fault

namespace WindowState

variable {compare : Value → Value → Ordering} {e : Error}

theorem insert_error {r : Ranking} {row : Row} (h : r.insert compare row = .error e) :
    e.IsOrderKey := by
  unfold Ranking.insert at h
  split at h
  · exact absurd h (by simp)
  · split at h
    · rename_i fault _
      exact ⟨fault, (Except.error.inj h).symm⟩
    · exact absurd h (by simp)

theorem insertAll_error {r : Ranking} {rows : List Row}
    (h : insertAll compare r rows = .error e) : e.IsOrderKey := by
  induction rows generalizing r with
  | nil => exact absurd h (by simp [insertAll])
  | cons row rows ih =>
    unfold insertAll at h
    split at h
    · rename_i hinsert
      obtain rfl := Except.error.inj h
      exact insert_error hinsert
    · split at h
      · rename_i hrest
        obtain rfl := Except.error.inj h
        exact ih hrest
      · exact absurd h (by simp)

theorem step_error {s : WindowState} {d : Delta Row} (h : s.step compare d = .error e) :
    e.IsOrderKey := by
  unfold step at h
  dsimp only at h
  split at h
  · rename_i hinsert
    obtain rfl := Except.error.inj h
    exact insertAll_error hinsert
  · exact absurd h (by simp)

end WindowState

/-- Only a ranking fails, and only for want of an order key. -/
theorem Operator.step_error {op : Operator} {inputs : List (Delta Row)} {e : Error}
    (h : op.step inputs = .error e) : e.IsOrderKey ∧ ∃ compare s, op = .window compare s := by
  cases op with
  | window compare s =>
    dsimp only [step] at h
    split at h
    · rename_i hstep
      obtain rfl := Except.error.inj h
      exact ⟨WindowState.step_error hstep, compare, s, rfl⟩
    · exact absurd h (by simp)
  | _ => exact absurd h (by simp [step])

namespace Graph

variable {g g' : Graph} {ins : Nat → List Nat} {e : Error}

/-- A ranking of the graph finds no order key. -/
structure RankingFails (g : Graph) (e : Error) : Prop where
  isOrderKey : e.IsOrderKey
  ranking : ∃ (i : Nat) (n : Node) (compare : Value → Value → Ordering) (s : WindowState),
    g.nodes[i]? = some n ∧ n.operator = .window compare s

/-- Runs leave rankings what they are. -/
theorem RankingFails.of_kept (h : g'.RankingFails e) (hk : Kept g g') : g.RankingFails e := by
  obtain ⟨horder, i, n', compare, s, hn', hop⟩ := h
  have hframe := frame_of_node hn'
  rw [hk.frames, frames_getElem?, Option.map_eq_some_iff] at hframe
  obtain ⟨n, hn, heq⟩ := hframe
  have hreset : n.operator.reset = n'.operator.reset := congrArg Frame.operator heq
  rw [hop] at hreset
  refine ⟨horder, i, n, ?_⟩
  cases hnop : n.operator with
  | window compare s => exact ⟨compare, s, hn, rfl⟩
  | _ =>
    rw [hnop] at hreset
    cases hreset

theorem stepNode_error {i : Nat} (h : (g.stepNode i).2 = some e) : g.RankingFails e := by
  cases g.turnCases i with
  | idle _ hstep _ =>
    rw [hstep] at h
    cases h
  | fails n e' hn _ hs hstep _ =>
    rw [hstep] at h
    obtain rfl := Option.some.inj h
    obtain ⟨horder, compare, s, hop⟩ := Operator.step_error hs
    exact ⟨horder, i, n, compare, s, hn, hop⟩
  | steps n operator out _ _ _ hstep _ =>
    rw [hstep] at h
    cases h

/-- **A run of a graph that is ready fails only in a ranking**, for want of an order key. -/
theorem run_error (hr : Ready g ins) (h : g.run = (g', some e)) : g.RankingFails e := by
  obtain ⟨g1, i, hkept, hturn⟩ := run_fails (P := Kept g)
    (fun _ i hk => hk.trans (kept_stepNode (hk.frames ▸ hr.wired) i)) hr.isFinal (.refl g) h
  exact (stepNode_error hturn).of_kept hkept

/-- A run of any graph fails because the graph is not ready, or for want of an order key. -/
theorem run_error_cases (h : g.run = (g', some e)) : e = .graph .notFinalized ∨ e.IsOrderKey := by
  by_cases hfinal : g.isFinal = true
  · obtain ⟨g1, i, -, hturn⟩ := run_fails (P := fun _ => True) (fun _ _ h => h) hfinal trivial h
    exact Or.inr (stepNode_error hturn).isOrderKey
  · rw [run, if_neg hfinal] at h
    exact Or.inl (Option.some.inj (Prod.mk.inj h).2).symm

end Graph

end DeltaView
