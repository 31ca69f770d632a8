import DeltaView.Proofs.Dataflow.Trace

/-!
# Turns

What a node's turn can be, and what turns keep all along a run.

* **`turnCases`**: a node has nothing to do, or it fails, or it steps and delivers what it emits.
* **`run_keeps`**: what every turn keeps, a run keeps, wherever it ends. `runOut_forall`: what is so
  of all that a node emits in a turn is so of all that comes out at it in a run. `run_fails`: a run
  fails in one of its turns.
-/

namespace DeltaView

variable {O E : Type}

/-- The node after its turn: nothing waits at it, and its operator is what it has become. -/
def Node.emptied (n : Node O E) (operator : O) : Node O E :=
  { n with inbox := List.replicate n.inbox.length [], operator }

theorem Node.inbox_emptied (n : Node O E) (operator : O) :
    ∀ d ∈ (n.emptied operator).inbox, d = [] := fun _ hd => (List.mem_replicate.mp hd).2

@[simp] theorem Node.length_emptied (n : Node O E) (operator : O) :
    (n.emptied operator).inbox.length = n.inbox.length := List.length_replicate

namespace Graph

/-! ## One turn -/

/-- The graph after a node has stepped and has delivered what it emitted. -/
def stepTo (g : Graph O E) (i : Nat) (n : Node O E) (operator : O) (out : List E) : Graph O E :=
  let g' : Graph O E := { g with nodes := g.nodes.set i (n.emptied operator) }
  if out.isEmpty then g' else deliver out n.consumers g'

variable [NodeOperator O E]

/-- What a turn of node `i` can be. -/
inductive TurnCases (g : Graph O E) (i : Nat) : Prop
  | idle (hidle : ∀ n, g.nodes[i]? = some n → n.hasWork = false)
      (hstep : g.stepNode i = (g, none)) (hout : g.turnOut i = [])
  | fails (n : Node O E) (e : Error) (hn : g.nodes[i]? = some n) (hwork : n.hasWork = true)
      (hs : NodeOperator.step n.inbox n.operator = .error e)
      (hstep : g.stepNode i = ({ g with nodes := g.nodes.set i (n.emptied n.operator) }, some e))
      (hout : g.turnOut i = [])
  | steps (n : Node O E) (operator : O) (out : List E) (hn : g.nodes[i]? = some n)
      (hwork : n.hasWork = true) (hs : NodeOperator.step n.inbox n.operator = .ok (operator, out))
      (hstep : g.stepNode i = (g.stepTo i n operator out, none)) (hout : g.turnOut i = out)

theorem turnCases (g : Graph O E) (i : Nat) : g.TurnCases i := by
  cases hn : g.nodes[i]? with
  | none =>
    refine .idle (fun n h => ?_) (by rw [stepNode, hn]) (by rw [turnOut, hn])
    cases hn.symm.trans h
  | some n =>
    cases hwork : n.hasWork with
    | false =>
      refine .idle (fun m h => ?_) (by simp [stepNode, hn, hwork]) (by simp [turnOut, hn, hwork])
      obtain rfl := Option.some.inj (hn.symm.trans h)
      exact hwork
    | true =>
      cases hs : NodeOperator.step n.inbox n.operator with
      | error e =>
        exact .fails n e hn hwork hs (by simp [stepNode, hn, hwork, hs, Node.emptied])
          (by simp [turnOut, hn, hwork, hs])
      | ok result =>
        obtain ⟨operator, out⟩ := result
        exact .steps n operator out hn hwork hs
          (by simp [stepNode, hn, hwork, hs, stepTo, Node.emptied])
          (by simp [turnOut, hn, hwork, hs])

/-! ## All turns of a run -/

section Run

variable {P : Graph O E → Prop} (hP : ∀ g i, P g → P (g.stepNode i).1) {g : Graph O E}
include hP

theorem runPass_keeps (order : List Nat) (h : P g) : P (runPass order g).1 := by
  induction order generalizing g with
  | nil => exact h
  | cons i order ih =>
    have hturn := hP g i h
    unfold runPass
    generalize g.stepNode i = result at hturn ⊢
    obtain ⟨g1, error⟩ := result
    cases error with
    | some e => exact hturn
    | none => exact ih hturn

theorem runPasses_keeps (fuel : Nat) (h : P g) : P (runPasses fuel g).1 := by
  induction fuel generalizing g with
  | zero => exact h
  | succ fuel ih =>
    have hpass := runPass_keeps hP g.order h
    unfold runPasses
    split
    · generalize runPass g.order g = result at hpass ⊢
      obtain ⟨g1, error⟩ := result
      cases error with
      | some e => exact hpass
      | none => exact ih hpass
    · exact h

/-- **What every turn keeps, a run keeps**, wherever it ends. -/
theorem run_keeps (h : P g) : P g.run.1 := by
  unfold run
  split
  · exact runPasses_keeps hP _ h
  · exact h

/-! ### What comes out -/

section Out

variable {k : Nat} {Q : E → Prop} (hQ : ∀ g, P g → ∀ e ∈ g.turnOut k, Q e)
include hQ

theorem passOut_forall (order : List Nat) (h : P g) : ∀ e ∈ passOut k order g, Q e := by
  induction order generalizing g with
  | nil => exact List.forall_mem_nil _
  | cons i order ih =>
    have hturn : ∀ e ∈ (if i = k then g.turnOut i else []), Q e := by
      split
      · rename_i hik
        exact hik ▸ hQ g h
      · exact List.forall_mem_nil _
    have hnext := hP g i h
    unfold passOut
    generalize g.stepNode i = result at hnext ⊢
    obtain ⟨g1, error⟩ := result
    cases error with
    | some e => exact List.forall_mem_append.mpr ⟨hturn, List.forall_mem_nil _⟩
    | none => exact List.forall_mem_append.mpr ⟨hturn, ih hnext⟩

theorem passesOut_forall (fuel : Nat) (h : P g) : ∀ e ∈ passesOut k fuel g, Q e := by
  induction fuel generalizing g with
  | zero => exact List.forall_mem_nil _
  | succ fuel ih =>
    have hpass := passOut_forall hP hQ g.order h
    have hnext := runPass_keeps hP g.order h
    unfold passesOut
    split
    · generalize runPass g.order g = result at hnext ⊢
      obtain ⟨g1, error⟩ := result
      cases error with
      | some e => exact List.forall_mem_append.mpr ⟨hpass, List.forall_mem_nil _⟩
      | none => exact List.forall_mem_append.mpr ⟨hpass, ih hnext⟩
    · exact List.forall_mem_nil _

/-- What is so of all that a node emits in a turn is so of all that comes out at it in a run. -/
theorem runOut_forall (h : P g) : ∀ e ∈ g.runOut k, Q e := by
  unfold runOut
  split
  · exact passesOut_forall hP hQ _ h
  · exact List.forall_mem_nil _

end Out

/-! ### Failures -/

variable {g' : Graph O E} {e : Error}

theorem runPass_fails (order : List Nat) (h : P g) (hr : runPass order g = (g', some e)) :
    ∃ g1 i, P g1 ∧ (g1.stepNode i).2 = some e := by
  induction order generalizing g with
  | nil => exact nomatch hr
  | cons i order ih =>
    have hnext := hP g i h
    unfold runPass at hr
    split at hr
    · rename_i hturn
      exact ⟨g, i, h, by rw [hturn, (Prod.mk.inj hr).2]⟩
    · rename_i hturn
      rw [hturn] at hnext
      exact ih hnext hr

theorem runPasses_fails (fuel : Nat) (h : P g) (hr : runPasses fuel g = (g', some e)) :
    ∃ g1 i, P g1 ∧ (g1.stepNode i).2 = some e := by
  induction fuel generalizing g with
  | zero => exact nomatch hr
  | succ fuel ih =>
    have hnext := runPass_keeps hP g.order h
    unfold runPasses at hr
    split at hr
    · split at hr
      · rename_i hpass
        exact runPass_fails hP g.order h (hpass.trans hr)
      · rename_i hpass
        rw [hpass] at hnext
        exact ih hnext hr
    · exact nomatch hr

/-- A run of a graph that is final fails in one of its turns. -/
theorem run_fails (hfinal : g.isFinal = true) (h : P g) (hr : g.run = (g', some e)) :
    ∃ g1 i, P g1 ∧ (g1.stepNode i).2 = some e := by
  rw [run, if_pos hfinal] at hr
  exact runPasses_fails hP _ h hr

end Run

end Graph

end DeltaView
