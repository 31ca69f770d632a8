import DeltaView.Proofs.Dataflow.Build
import DeltaView.Proofs.Dataflow.Ready
import DeltaView.Proofs.Dataflow.Send
import Mathlib.Logic.Relation

/-!
# The life of a graph

A graph is assembled node by node, made final once, and used from then on. Whatever operators stand
at its nodes, in whatever state, and however runs of it end, it stays ready for the next one.

* `Assembled g ins`: what `addInput` and `addOperator` build, with the producers of every node.
* **`finalize_order`**: an assembled graph can always be made final; its order has every node once,
  and each after its producers.
* `Handled g g'`: one change is sent, a run is made, or an operator is replaced. **`Ready.of_life`**:
  a graph to which this is done stays ready to run.
* `Used g g'`: what is done to a graph of the operators that there are, where a sink is drained or a
  window is asked to move. It is a case of `Handled`.
-/

namespace DeltaView

namespace Graph

variable {O E : Type} [NodeOperator O E] {g g' : Graph O E} {ins : Nat → List Nat} {i : Nat}

/-! ## Assembling -/

/-- A graph that is built node by node, with the producers of every node. -/
inductive Assembled : Graph O E → (Nat → List Nat) → Prop
  | empty : Assembled .empty fun _ => []
  | input {g g' : Graph O E} {ins : Nat → List Nat} {i : Nat} (h : Assembled g ins)
      (hadd : g.addInput = .ok (g', i)) : Assembled g' (insWith ins i [])
  | operator {g g' : Graph O E} {ins : Nat → List Nat} {i : Nat} {operator : O}
      {inputs : List Nat} (h : Assembled g ins)
      (hadd : g.addOperator operator inputs = .ok (g', i)) : Assembled g' (insWith ins i inputs)

theorem addInput_eq_ok (h : g.addInput = .ok (g', i)) :
    g.isFinal = false ∧ i = g.nodes.length ∧ g' = g.extend NodeOperator.input true [] := by
  cases hfin : g.isFinal with
  | true => simp [addInput, hfin] at h
  | false =>
    rw [addInput_eq hfin] at h
    obtain ⟨rfl, rfl⟩ := Prod.mk.inj (Except.ok.inj h)
    exact ⟨rfl, rfl, rfl⟩

theorem addOperator_eq_ok {operator : O} {inputs : List Nat}
    (h : g.addOperator operator inputs = .ok (g', i)) :
    g.isFinal = false ∧ inputs.length = NodeOperator.arity operator ∧
      (∀ p ∈ inputs, p < g.nodes.length) ∧ i = g.nodes.length ∧
      g' = g.extend operator false inputs := by
  cases hfin : g.isFinal with
  | true => simp [addOperator, hfin] at h
  | false =>
    by_cases hlen : inputs.length = NodeOperator.arity operator
    · cases hfind : inputs.find? (g.nodes.length ≤ ·) with
      | some p => simp [addOperator, hfin, hlen, hfind] at h
      | none =>
        have hin : ∀ p ∈ inputs, p < g.nodes.length := by
          simpa using List.find?_eq_none.mp hfind
        rw [addOperator_eq hfin hlen hin] at h
        obtain ⟨rfl, rfl⟩ := Prod.mk.inj (Except.ok.inj h)
        exact ⟨rfl, hlen, hin, rfl, rfl⟩
    · simp [addOperator, hfin, hlen] at h

variable {K : Type} [NodeOperator.Settling O K]

theorem Assembled.spec (h : Assembled g ins) :
    Wired g.frames ins ∧ g.isFinal = false ∧ ∀ k, g.nodes.length ≤ k → ins k = [] := by
  induction h with
  | empty => exact ⟨.empty, rfl, fun _ _ => rfl⟩
  | @input g g' ins i h hadd ih =>
    obtain ⟨hw, hfin, hbeyond⟩ := ih
    obtain ⟨-, rfl, rfl⟩ := addInput_eq_ok hadd
    refine ⟨hw.extend (fun _ hp => absurd hp List.not_mem_nil) rfl,
      (connectAll_final ..).trans hfin, fun k hk => ?_⟩
    rw [extend_length] at hk
    rw [insWith, if_neg (by omega)]
    exact hbeyond k (by omega)
  | @operator g g' ins i operator inputs h hadd ih =>
    obtain ⟨hw, hfin, hbeyond⟩ := ih
    obtain ⟨-, hlen, hin, rfl, rfl⟩ := addOperator_eq_ok hadd
    refine ⟨hw.extend hin hlen, (connectAll_final ..).trans hfin, fun k hk => ?_⟩
    rw [extend_length] at hk
    rw [insWith, if_neg (by omega)]
    exact hbeyond k (by omega)

/-! ## Making final -/

/-- Along an order, producers stand before their consumers. -/
theorem InOrder.idxOf_lt {done order : List Nat} (h : InOrder ins done order) {c p : Nat}
    (hc : c ∈ order) (hp : p ∈ ins c) (hd : p ∉ done) : order.idxOf p < order.idxOf c := by
  induction order generalizing done with
  | nil => exact absurd hc List.not_mem_nil
  | cons i order ih =>
    obtain ⟨hi, h⟩ := h
    by_cases hci : c = i
    · subst hci
      exact absurd (hi p hp) hd
    · have hc := (List.mem_cons.mp hc).resolve_left hci
      by_cases hpi : p = i
      · subst hpi
        rw [List.idxOf_cons_self, List.idxOf_cons_ne _ (Ne.symm hci)]
        exact Nat.succ_pos _
      · rw [List.idxOf_cons_ne _ (Ne.symm hpi), List.idxOf_cons_ne _ (Ne.symm hci)]
        refine Nat.succ_lt_succ (ih h hc ?_)
        rw [List.mem_cons, not_or]
        exact ⟨hpi, hd⟩

/-- **An assembled graph can be made final**, with every node once in its order and every producer
before its consumers. -/
theorem finalize_order (h : Assembled g ins) :
    ∃ g', g.finalize = .ok g' ∧ g'.nodes = g.nodes ∧ Ready g' ins ∧
      g'.order.Perm (List.range g.nodes.length) ∧
      ∀ c, ∀ p ∈ ins c, g'.order.idxOf p < g'.order.idxOf c := by
  obtain ⟨hw, hfin, hbeyond⟩ := h.spec
  obtain ⟨g', hg, hnodes, hr⟩ := finalize_ready hw hfin
  have hlen : g'.order.length = g.nodes.length := by
    have heq : g'.order = g.topologicalOrder := by
      unfold finalize at hg
      rw [if_neg (by simp [hfin])] at hg
      dsimp only at hg
      split at hg
      · cases hg
      · rw [← Except.ok.inj hg]
    rw [heq]
    exact topologicalOrder_complete g (fun i e he => (hw.feeds_consumersOf he).1) fun i e he =>
      hw.below e.1 i (List.mem_of_getElem? (hw.feeds_consumersOf he).2)
  have hsub : List.range g.nodes.length ⊆ g'.order := fun k hk =>
    hr.complete k (hnodes ▸ List.mem_range.mp hk)
  refine ⟨g', hg, hnodes, hr, ?_, ?_⟩
  · exact ((List.subperm_of_subset List.nodup_range hsub).perm_of_length_le (by simp [hlen])).symm
  · intro c p hp
    have hc : c < g.nodes.length := by
      by_contra hc
      rw [hbeyond c (Nat.le_of_not_lt hc)] at hp
      exact absurd hp List.not_mem_nil
    exact hr.inOrder.idxOf_lt (hsub (List.mem_range.mpr hc)) hp List.not_mem_nil

/-! ## Handling -/

/-- What is done to a graph that is final. Between runs any operator may be replaced: what else is
done to an operator than let it step comes to that. -/
inductive Handled : Graph O E → Graph O E → Prop
  | send {g g' : Graph O E} {i : Nat} {d : List E} (h : g.send i d = .ok g') : Handled g g'
  | run (g : Graph O E) : Handled g g.run.1
  | replace {g : Graph O E} {i : Nat} {n : Node O E} (hn : g.nodes[i]? = some n) (operator : O) :
    Handled g { g with nodes := g.nodes.set i { n with operator } }

theorem Ready.of_handled (hr : Ready g ins) (h : Handled g g') : Ready g' ins := by
  cases h with
  | send h => exact hr.kept (kept_send h)
  | run => exact hr.kept (kept_run hr.wired)
  | replace hn operator =>
    refine hr.of_wired ?_ (List.length_set ..) rfl rfl
    rw [frames_set]
    exact hr.wired.set_operator (frame_of_node hn) _

/-- **A graph stays ready to run**, whatever is done to it. -/
theorem Ready.of_life (hr : Ready g ins) (h : Relation.ReflTransGen Handled g g') :
    Ready g' ins := by
  induction h with
  | refl => exact hr
  | tail _ h ih => exact ih.of_handled h

/-! ## Using -/

section Using

variable {g g' : Graph} {ins : Nat → List Nat}

/-- What is done to a graph of the operators that there are. -/
inductive Used : Graph → Graph → Prop
  | send {g g' : Graph} {i : Nat} {d : Delta Row} (h : g.send i d = .ok g') : Used g g'
  | run (g : Graph) : Used g g.run.1
  | drain (g : Graph) (i : Nat) : Used g (g.drain i).1
  | requestWindow (g : Graph) (i : Nat) (u : Window.Update) : Used g (g.requestWindow i u)

/-- A sink that is drained and a window that is asked to move are operators that are replaced. -/
theorem Used.handled (h : Used g g') : Relation.ReflTransGen Handled g g' := by
  cases h with
  | send h => exact .single (.send h)
  | run => exact .single (.run g)
  | drain i =>
    unfold Graph.drain
    split
    · rename_i n hn
      split
      · exact .single (.replace hn _)
      · exact .refl
    · exact .refl
  | requestWindow i u =>
    unfold Graph.requestWindow
    split
    · rename_i n hn
      split
      · exact .single (.replace hn _)
      · exact .refl
    · exact .refl

theorem Ready.of_used (hr : Ready g ins) (h : Used g g') : Ready g' ins := hr.of_life h.handled

theorem handled_of_used (h : Relation.ReflTransGen Used g g') :
    Relation.ReflTransGen Handled g g' := by
  induction h with
  | refl => exact .refl
  | tail _ h ih => exact ih.trans h.handled

end Using

end Graph

end DeltaView
