import DeltaView.Proofs.Dataflow.Run

/-!
# The ends of a graph

Between runs sinks are drained and windows are asked to move. Neither runs an operator, so the
ledger changes in what was taken out alone.

* `drain_spec`, `requestWindow_spec`: what each of them does to the ledger.
-/

namespace DeltaView

namespace Graph

variable {g g' : Graph} {ins : Nat → List Nat} {l : Ledger} {i : Nat}

/-- An operator that is replaced by another one with the same history. -/
theorem Accounts.set_operator {n : Node} (ha : Accounts g.nodes ins l) (hn : g.nodes[i]? = some n)
    {op : Operator} {emitted : Delta Row} (harity : op.arity = n.operator.arity)
    (hop : op.Reached (l.consumed i) emitted (l.seen i))
    (hem : emitted = l.emitted i ∨ ∀ k, i ∉ ins k) :
    Accounts (g.nodes.set i { n with operator := op }) ins
      { l with emitted := fun k => if k = i then emitted else l.emitted k } := by
  obtain ⟨hi, -⟩ := List.getElem?_eq_some_iff.mp hn
  have hself : (g.nodes.set i { n with operator := op })[i]? = some { n with operator := op } := by
    rw [List.getElem?_set_self hi]
  have hk : ∀ k, k ≠ i → (g.nodes.set i { n with operator := op })[k]? = g.nodes[k]? :=
    fun k hk => List.getElem?_set_ne (Ne.symm hk)
  have hflow : ∀ k p, p ∈ ins k → (if p = i then emitted else l.emitted p) = l.emitted p := by
    intro k p hp
    by_cases hpi : p = i
    · subst hpi
      rw [if_pos rfl]
      exact hem.resolve_right fun h => h k hp
    · rw [if_neg hpi]
  intro k m hm
  by_cases hki : k = i
  · subst hki
    obtain rfl := Option.some.inj (hself.symm.trans hm)
    have htells := ha k n hn
    refine ⟨htells.inlets.trans harity.symm, ?_, fun j p hp => ?_, htells.sent⟩
    · dsimp only
      rw [if_pos rfl]
      exact hop
    · dsimp only
      rw [hflow k p (List.mem_of_getElem? hp)]
      exact htells.flow j p hp
  · have htells := ha k m ((hk k hki).symm.trans hm)
    refine ⟨htells.inlets, ?_, fun j p hp => ?_, htells.sent⟩
    · dsimp only
      rw [if_neg hki]
      exact htells.reached
    · dsimp only
      rw [hflow k p (List.mem_of_getElem? hp)]
      exact htells.flow j p hp

theorem kept_drain (g : Graph) (i : Nat) : Kept g (g.drain i).1 := by
  unfold drain
  split
  · rename_i n hn
    split
    · rename_i batches hop
      refine kept_set hn ?_
      rw [Node.frame, Node.frame, hop]
      rfl
    · exact .refl g
  · exact .refl g

/-- Draining a sink hands out what it kept. -/
theorem drain_spec (ha : Accounts g.nodes ins l) {n : Node} {batches : List (Delta Row)}
    (hn : g.nodes[i]? = some n) (hop : n.operator = .output batches) (hsink : ∀ k, i ∉ ins k) :
    g.drain i = ({ g with nodes := g.nodes.set i { n with operator := .output [] } }, batches) ∧
      Accounts (g.drain i).1.nodes ins
        { l with emitted := fun k =>
            if k = i then l.emitted i ++ batches.flatten else l.emitted k } ∧
      Kept g (g.drain i).1 := by
  have hdrain : g.drain i =
      ({ g with nodes := g.nodes.set i { n with operator := .output [] } }, batches) := by
    unfold drain
    rw [hn]
    dsimp only
    rw [hop]
  have hreached := (ha i n hn).reached
  rw [hop] at hreached
  have hout : (Operator.output []).Reached (l.consumed i) (l.emitted i ++ batches.flatten)
      (l.seen i) := by
    show Delta.Same ((l.emitted i ++ batches.flatten) ++ [].flatten) (l.consumed i 0)
    rw [List.flatten_nil, List.append_nil]
    exact hreached
  refine ⟨hdrain, ?_, kept_drain g i⟩
  rw [hdrain]
  exact ha.set_operator hn (congrArg Operator.arity hop).symm hout (Or.inr hsink)

/-- A graph has nothing more to do when a sink is drained. -/
theorem drain_idle (hidle : g.Idle) (i : Nat) : (g.drain i).1.Idle := by
  unfold drain
  split
  · rename_i n hn
    split
    · rename_i batches hop
      intro k m hm
      have hm : (g.nodes.set i { n with operator := .output [] })[k]? = some m := hm
      by_cases hk : k = i
      · subst hk
        obtain ⟨hi, -⟩ := List.getElem?_eq_some_iff.mp hn
        rw [List.getElem?_set_self hi] at hm
        obtain rfl := Option.some.inj hm
        have := hidle k n hn
        rw [Node.hasWork, Bool.or_eq_false_iff] at this ⊢
        exact ⟨this.1, rfl⟩
      · rw [List.getElem?_set_ne (Ne.symm hk)] at hm
        exact hidle k m hm
    · exact hidle
  · exact hidle

/-- A request to move a window waits at its node. -/
theorem requestWindow_spec (ha : Accounts g.nodes ins l) {n : Node}
    {compare : Value → Value → Ordering} {s : WindowState} (u : Window.Update)
    (hn : g.nodes[i]? = some n) (hop : n.operator = .window compare s) :
    Accounts (g.requestWindow i u).nodes ins l ∧
      (g.requestWindow i u).frames =
        g.frames.set i { n.frame with operator := .window compare (.start (u.apply s.target)) } ∧
      (g.requestWindow i u).order = g.order ∧ (g.requestWindow i u).isFinal = g.isFinal := by
  have hreq : g.requestWindow i u =
      { g with nodes := g.nodes.set i { n with operator := .window compare (s.request u) } } := by
    unfold requestWindow
    rw [hn]
    dsimp only
    rw [hop]
  have hreached := (ha i n hn).reached
  rw [hop] at hreached
  have hout : (Operator.window compare (s.request u)).Reached (l.consumed i) (l.emitted i)
      (l.seen i) := by
    obtain ⟨h1, h2⟩ := hreached
    refine ⟨h1, fun hc => ?_⟩
    obtain ⟨⟨h3, h4, h5, h6⟩, h7⟩ := h2 hc
    exact ⟨⟨h3, h4, h5, h6⟩, h7⟩
  have hsame : { l with emitted := fun k => if k = i then l.emitted i else l.emitted k } = l := by
    have : (fun k => if k = i then l.emitted i else l.emitted k) = l.emitted := by
      funext k
      split
      · rename_i hk
        rw [hk]
      · rfl
    rw [this]
  rw [hreq]
  refine ⟨?_, ?_, rfl, rfl⟩
  · have := ha.set_operator hn (by rw [hop]; rfl) hout (Or.inl rfl)
    rwa [hsame] at this
  · rw [frames_set]
    exact congrArg (fun w => g.frames.set i { n.frame with operator := .window compare (.start w) })
      (s.request_target u)

end Graph

end DeltaView
