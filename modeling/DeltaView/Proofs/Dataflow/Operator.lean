import DeltaView.Dataflow.Operator
import DeltaView.Proofs.Distinct
import DeltaView.Proofs.Group.Operator
import DeltaView.Proofs.Join.Process
import DeltaView.Proofs.Window.Step

/-!
# What operators have computed

An operator's state is tied to its history by `Reached consumed emitted seen`: what it has emitted
so far is its function of what it has consumed so far. A sink has emitted what was drained from
it. A window keeps its promise only where its comparison is an order on the values it has `seen`.

* **`step_reached`**: one step of any operator keeps this.
* `reset` is an operator at its beginning, with the window that it is going to; `step_reset` says
  that steps leave it alone.
-/

namespace DeltaView

/-- The values of the rows that a delta has. -/
def Delta.HasValue (d : Delta Row) (v : Value) : Prop :=
  ∃ r, Delta.total r (Delta.mapItems Row.unordered d) ≠ 0 ∧ r.value = v

theorem Delta.HasValue.congr {d e : Delta Row} (h : Delta.Same d e) {v : Value}
    (hv : Delta.HasValue d v) : Delta.HasValue e v := by
  obtain ⟨r, hr, rfl⟩ := hv
  exact ⟨r, by rwa [← h.mapItems Row.unordered r], rfl⟩

namespace WindowState

variable {compare : Value → Value → Ordering} {S T : Value → Prop}

theorem Holds.mono {s : WindowState} {d : Delta Row} (h : Holds compare S s d)
    (hst : ∀ v, S v → T v) : Holds compare T s d :=
  ⟨⟨fun e he => ⟨(h.ordered.rankable e he).1, hst _ (h.ordered.rankable e he).2⟩,
    h.ordered.sorted⟩, h.counts, h.total, h.present⟩

end WindowState

namespace Operator

/-- What an operator has emitted is its function of what it has consumed, inlet by inlet. -/
def Reached (consumed : Nat → Delta Row) (emitted : Delta Row) (seen : Value → Prop) :
    Operator → Prop
  | .input => Delta.Same emitted (consumed 0)
  | .map f => Delta.Same emitted (Delta.mapItems f (consumed 0))
  | .filter p => Delta.Same emitted (Delta.filterItems p (consumed 0))
  | .consolidate => Delta.Same emitted (consumed 0)
  | .output batches => Delta.Same (emitted ++ batches.flatten) (consumed 0)
  | .join rule s => s.Holds rule (consumed 0) (consumed 1) ∧
      Delta.Same emitted (rule.table (consumed 0) (consumed 1))
  | .group rule s => s.Holds rule (consumed 0) ∧ Delta.Same emitted s.emittedRows
  | .distinct extract s => s.Holds (Delta.mapItems extract (consumed 0)) ∧
      Delta.Same emitted (DistinctState.table (Delta.mapItems extract (consumed 0)))
  | .window compare s => (∀ v, Delta.HasValue (consumed 0) v → seen v) ∧
      (PreorderOn compare seen →
        s.Holds compare seen (Delta.mapItems Row.unordered (consumed 0)) ∧
          Delta.Same emitted (Ranking.shown s.ranking.visible))

/-- The values seen after one more batch. -/
def seenAfter (seen : Value → Prop) (consumed : Delta Row) (v : Value) : Prop :=
  seen v ∨ Delta.HasValue consumed v

/-- An output that is the change of a table, after one more batch. -/
theorem same_append_of_change {emitted out before after : Delta Row}
    (h : Delta.Same emitted before)
    (ho : ∀ r, Delta.total r out = Delta.total r after - Delta.total r before) :
    Delta.Same (emitted ++ out) after := fun r => by
  rw [Delta.total_append, ho, h r]
  omega

theorem length_one {inputs : List (Delta Row)} (h : inputs.length = 1) : ∃ d, inputs = [d] :=
  List.length_eq_one_iff.mp h

/-- A sink does not list empty batches. -/
theorem flatten_collect (batches : List (Delta Row)) (d : Delta Row) :
    (if d.isEmpty then batches else batches ++ [d]).flatten = batches.flatten ++ d := by
  cases d with
  | nil => simp
  | cons => simp

/-- A step of a window: if the comparison is an order on what has been seen, what was emitted is
what shows. -/
theorem window_step_reached {compare : Value → Value → Ordering} {s s' : WindowState}
    {consumed emitted d out : Delta Row} {seen : Value → Prop}
    (hseen : ∀ v, Delta.HasValue consumed v → seen v)
    (h : PreorderOn compare seen →
      s.Holds compare seen (Delta.mapItems Row.unordered consumed) ∧
        Delta.Same emitted (Ranking.shown s.ranking.visible))
    (hs : s.step compare d = .ok (s', out))
    (hc : PreorderOn compare (seenAfter seen (consumed ++ d))) :
    s'.Holds compare (seenAfter seen (consumed ++ d))
        (Delta.mapItems Row.unordered (consumed ++ d)) ∧
      Delta.Same (emitted ++ out) (Ranking.shown s'.ranking.visible) := by
  have hold : ∀ v, seen v → seenAfter seen (consumed ++ d) v := fun v => Or.inl
  obtain ⟨hholds, hem⟩ := h (hc.mono hold)
  -- A row that changes is there before the step or after it.
  have hvalues : ∀ r, Delta.total r (Delta.mapItems Row.unordered d) ≠ 0 →
      seenAfter seen (consumed ++ d) r.value := fun r hr => by
    by_cases hb : Delta.total r (Delta.mapItems Row.unordered consumed) = 0
    · refine Or.inr ⟨r, ?_, rfl⟩
      rw [Delta.mapItems_append, Delta.total_append, hb, zero_add]
      exact hr
    · exact Or.inl (hseen _ ⟨r, hb, rfl⟩)
  have hstep := WindowState.step_exact hc (hholds.mono hold) hs hvalues
  refine ⟨?_, same_append_of_change hem fun r => ?_⟩
  · rw [Delta.mapItems_append]
    exact hstep.holds
  · rw [Delta.total_eq_weigh, hstep.change, Delta.total_eq_weigh, Delta.total_eq_weigh]

/-- **One step of any operator keeps what it has computed so far**, now of one batch more. -/
theorem step_reached {op op' : Operator} {inputs : List (Delta Row)} {out : Delta Row}
    {consumed : Nat → Delta Row} {emitted : Delta Row} {seen : Value → Prop}
    (h : op.Reached consumed emitted seen) (hlen : inputs.length = op.arity)
    (hs : op.step inputs = .ok (op', out)) :
    op'.Reached (fun j => consumed j ++ inputs.getD j []) (emitted ++ out)
      (seenAfter seen (consumed 0 ++ inputs.getD 0 [])) := by
  cases op with
  | input =>
    obtain ⟨d, rfl⟩ := length_one hlen
    obtain ⟨rfl, rfl⟩ := Prod.mk.inj (Except.ok.inj hs)
    exact Delta.Same.append h (.refl d)
  | map f =>
    obtain ⟨d, rfl⟩ := length_one hlen
    obtain ⟨rfl, rfl⟩ := Prod.mk.inj (Except.ok.inj hs)
    show Delta.Same _ (Delta.mapItems f (consumed 0 ++ d))
    rw [Delta.mapItems_append]
    exact Delta.Same.append h (.refl _)
  | filter p =>
    obtain ⟨d, rfl⟩ := length_one hlen
    obtain ⟨rfl, rfl⟩ := Prod.mk.inj (Except.ok.inj hs)
    show Delta.Same _ (Delta.filterItems p (consumed 0 ++ d))
    rw [Delta.filterItems_append]
    exact Delta.Same.append h (.refl _)
  | consolidate =>
    obtain ⟨d, rfl⟩ := length_one hlen
    obtain ⟨rfl, rfl⟩ := Prod.mk.inj (Except.ok.inj hs)
    exact Delta.Same.append h (Delta.same_consolidate d)
  | output batches =>
    obtain ⟨d, rfl⟩ := length_one hlen
    obtain ⟨rfl, rfl⟩ := Prod.mk.inj (Except.ok.inj hs)
    show Delta.Same ((emitted ++ []) ++ (if d.isEmpty then batches else batches ++ [d]).flatten)
      (consumed 0 ++ d)
    rw [flatten_collect, List.append_nil, ← List.append_assoc]
    exact Delta.Same.append h (.refl d)
  | join rule s =>
    obtain ⟨l, r, rfl⟩ : ∃ l r, inputs = [l, r] := List.length_eq_two.mp hlen
    obtain ⟨hstate, hem⟩ := h
    obtain ⟨rfl, rfl⟩ := Prod.mk.inj (Except.ok.inj hs)
    obtain ⟨h1, -, h2⟩ := JoinState.step_exact hstate l r
    exact ⟨h1, same_append_of_change hem h2⟩
  | group rule s =>
    obtain ⟨d, rfl⟩ := length_one hlen
    obtain ⟨hstate, hem⟩ := h
    simp only [Operator.step, List.flatten_singleton] at hs
    obtain ⟨rfl, rfl⟩ := Prod.mk.inj (Except.ok.inj hs)
    obtain ⟨h1, h2⟩ := GroupState.step_exact hstate d
    exact ⟨h1, same_append_of_change hem h2⟩
  | distinct extract s =>
    obtain ⟨d, rfl⟩ := length_one hlen
    obtain ⟨hstate, hem⟩ := h
    simp only [Operator.step, List.flatten_singleton] at hs
    obtain ⟨rfl, rfl⟩ := Prod.mk.inj (Except.ok.inj hs)
    obtain ⟨h1, h2⟩ := DistinctState.step_exact hstate d
    exact ⟨h1, same_append_of_change hem h2⟩
  | window compare s =>
    obtain ⟨d, rfl⟩ := length_one hlen
    obtain ⟨hseen, hstate⟩ := h
    simp only [Operator.step, List.flatten_singleton] at hs
    split at hs
    · exact absurd hs (by simp)
    · rename_i s' out' hwin
      obtain ⟨rfl, rfl⟩ := Prod.mk.inj (Except.ok.inj hs)
      exact ⟨fun v hv => Or.inr hv, window_step_reached hseen hstate hwin⟩

/-! ## What steps leave alone -/

section Kinds

variable {M : Type}

/-- The operator at its beginning, with the window that it is going to. -/
def reset : Operator M → Operator M
  | .output _ => .output []
  | .join rule _ => .join rule .empty
  | .group rule _ => .group rule .empty
  | .distinct extract _ => .distinct extract .empty
  | .window compare s => .window compare (.start s.target)
  | op => op

theorem reset_arity (op : Operator M) : op.reset.arity = op.arity := by cases op <;> rfl

variable [CommRing M] [LinearOrder M]

/-- A window's step moves it to where it is going. -/
theorem window_step_target {compare : Value → Value → Ordering} {s s' : WindowState M}
    {d out : Delta Row M} (h : s.step compare d = .ok (s', out)) :
    s'.pending = none ∧ s'.target = s.target := by
  obtain ⟨-, -, hpending, hwindow, -⟩ := WindowState.applyPending_spec s
  obtain ⟨ranking, ins, hins, rfl, -⟩ := WindowState.step_cases h
  have hw : ranking.window = s.target := by
    rw [← hwindow]
    exact (WindowState.insertAll_window hins).trans (WindowState.deleteAll_window ..)
  refine ⟨hpending, ?_⟩
  unfold WindowState.target
  dsimp only
  rw [hpending]
  exact hw

variable [ToInt M] {op op' : Operator M} {inputs : List (Delta Row M)} {out : Delta Row M}

/-- **A step leaves an operator what it is**, and with nothing pending. -/
theorem step_reset
    (hs : op.step inputs = .ok (op', out)) : op'.reset = op.reset ∧ op'.hasPending = false := by
  cases op with
  | window compare s =>
    simp only [Operator.step] at hs
    split at hs
    · exact absurd hs (by simp)
    · rename_i s' out' hwin
      obtain ⟨rfl, rfl⟩ := Prod.mk.inj (Except.ok.inj hs)
      obtain ⟨hp, ht⟩ := window_step_target hwin
      refine ⟨?_, ?_⟩
      · rw [reset, reset, ht]
      · rw [hasPending, WindowState.hasPending, hp]
        rfl
  | _ =>
    obtain ⟨rfl, -⟩ := Prod.mk.inj (Except.ok.inj hs)
    exact ⟨rfl, rfl⟩

theorem step_arity (hs : op.step inputs = .ok (op', out)) : op'.arity = op.arity := by
  rw [← reset_arity, (step_reset hs).1, reset_arity]

end Kinds

/-- An operator at its beginning has nothing to do, and has computed its function of nothing. -/
theorem reached_reset (op : Operator) : op.reset.hasPending = false ∧
    op.reset.Reached (fun _ => []) [] (fun _ => False) := by
  cases op with
  | join rule s => exact ⟨rfl, .empty rule, .of_eq (JoinState.table_nil rule).symm⟩
  | group rule s => exact ⟨rfl, .empty rule, .refl _⟩
  | distinct extract s =>
    refine ⟨rfl, .empty, fun r => ?_⟩
    rw [DistinctState.total_table]
    split <;> rfl
  | window compare s =>
    refine ⟨rfl, fun v hv => ?_, fun _ => ⟨.start compare _ _, ?_⟩⟩
    · obtain ⟨_, hr, -⟩ := hv
      exact hr rfl
    · rw [WindowState.visible_start]
      rfl
  | _ => exact ⟨rfl, .refl _⟩

end Operator

end DeltaView
