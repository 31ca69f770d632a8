import DeltaView.Proofs.Dataflow.Lifetime

/-!
# What rows come out

Where it is told what rows reach an operator, something can be told of the rows that it puts out. If
that fits together at every node of a graph, it is so of all rows that ever come out, one by one:
also of those that others cancel, and of those of a run that fails.

* `Operator.Yields S T`: the operator puts out rows of `T`, if at inlet `j` there arrive rows of
  `S j`. **`Yields.step`**: one step keeps this.
* `Graph.Yields`: every operator does, for rows that come from the producers of its inlets.
* **`Yields.of_life`**, **`Yields.run`**: this stays so whatever is done to a graph, and is so of
  what comes out in a run.
-/

namespace DeltaView

/-! ## Joins -/

/-- A join makes rows of `T` of rows of `S` on the main side and of `S'` on the joined one. -/
structure JoinRule.Yields (rule : JoinRule) (S S' T : Row → Prop) : Prop where
  pair : ∀ l r, S l → S' r → T (Row.merge (some l) (some r))
  left : rule.kind.keepsLeft = true → ∀ l, S l → T (JoinState.padLeft l)
  right : rule.kind.keepsRight = true → ∀ r, S' r → T (JoinState.padRight r)

/-- The indexes of a join hold rows of `S` and of `S'`. -/
def JoinState.HoldsOnly (rule : JoinRule) (S S' : Row → Prop) (s : JoinState) : Prop :=
  ∃ L R, Holds rule s L R ∧ (∀ e ∈ L, S e.1) ∧ ∀ e ∈ R, S' e.1

section Join

variable {rule : JoinRule} {S S' T : Row → Prop} {s : JoinState} {L R l r : Delta Row}

theorem JoinRule.Yields.table (h : rule.Yields S S' T) (hL : ∀ e ∈ L, S e.1) (hR : ∀ e ∈ R, S' e.1)
    {a : Row} (ha : Delta.total a (rule.table L R) ≠ 0) : T a := by
  obtain ⟨m, hm⟩ := Delta.exists_mem_of_total_ne_zero ha
  rcases JoinRule.mem_table_cases hm with ⟨x, hx, y, hy, rfl⟩ | ⟨hk, x, hx, rfl⟩ | ⟨hk, y, hy, rfl⟩
  · exact h.pair _ _ (hL x hx) (hR y hy)
  · exact h.left hk _ (hL x hx)
  · exact h.right hk _ (hR y hy)

/-- A row of the output is in the table before the batch or after it. -/
theorem JoinState.step_yields (h : rule.Yields S S' T) (hs : s.HoldsOnly rule S S')
    (hl : ∀ e ∈ l, S e.1) (hr : ∀ e ∈ r, S' e.1) :
    (s.step rule l r).1.HoldsOnly rule S S' ∧ ∀ e ∈ (s.step rule l r).2, T e.1 := by
  obtain ⟨L, R, hholds, hL, hR⟩ := hs
  obtain ⟨hstate, hcons, htotal⟩ := step_exact hholds l r
  have hL' : ∀ e ∈ L ++ l, S e.1 := List.forall_mem_append.mpr ⟨hL, hl⟩
  have hR' : ∀ e ∈ R ++ r, S' e.1 := List.forall_mem_append.mpr ⟨hR, hr⟩
  refine ⟨⟨_, _, hstate, hL', hR'⟩, fun e he => ?_⟩
  have hne : Delta.total e.1 (s.step rule l r).2 ≠ 0 := by
    rw [(hcons.mem_iff.mp he).2]
    exact (hcons.mem_iff.mp he).1
  rw [htotal] at hne
  by_cases hafter : Delta.total e.1 (rule.table (L ++ l) (R ++ r)) = 0
  · exact h.table hL hR fun hbefore => hne (by rw [hafter, hbefore, sub_zero])
  · exact h.table hL' hR' hafter

end Join

/-! ## Operators -/

namespace Operator

/-- **The operator puts out rows of `T`**, if at inlet `j` there arrive rows of `S j`. Of what
groups, distinct values and rankings put out nothing is told. -/
def Yields (S : Nat → Row → Prop) (T : Row → Prop) : Operator → Prop
  | .input => ∀ r, S 0 r → T r
  | .map f => ∀ r, S 0 r → T (f r)
  | .filter p => ∀ r, S 0 r → p r = true → T r
  | .consolidate => ∀ r, S 0 r → T r
  | .output _ => True
  | .join rule s => rule.Yields (S 0) (S 1) T ∧ s.HoldsOnly rule (S 0) (S 1)
  | .group _ _ => ∀ r, T r
  | .distinct _ _ => ∀ r, T r
  | .window _ _ => ∀ r, T r

variable {S : Nat → Row → Prop} {T : Row → Prop}

/-- Where any row may come out, nothing is asked but of the indexes of a join. -/
theorem Yields.of_forall {op : Operator} (h : ∀ r, T r) (hop : ∀ rule s, op ≠ .join rule s) :
    op.Yields S T := by
  cases op with
  | input => exact fun r _ => h r
  | map f => exact fun r _ => h (f r)
  | filter p => exact fun r _ _ => h r
  | consolidate => exact fun r _ => h r
  | output batches => trivial
  | join rule s => exact absurd rfl (hop rule s)
  | _ => exact h

/-- **One step of any operator** puts such rows out, and leaves it to go on so. -/
theorem Yields.step {op op' : Operator} {inputs : List (Delta Row)} {out : Delta Row}
    (h : op.Yields S T) (hin : ∀ j, ∀ e ∈ inputs.getD j [], S j e.1)
    (hs : op.step inputs = .ok (op', out)) : op'.Yields S T ∧ ∀ e ∈ out, T e.1 := by
  have hfirst : inputs.getD 0 [] = inputs.headD [] := by cases inputs <;> rfl
  have hsecond : inputs.getD 1 [] = inputs.tail.headD [] := by
    rcases inputs with _ | ⟨_, _ | _⟩ <;> rfl
  have hin0 : ∀ e ∈ inputs.headD [], S 0 e.1 := hfirst ▸ hin 0
  cases op with
  | input =>
    obtain ⟨rfl, rfl⟩ := Prod.mk.inj (Except.ok.inj hs)
    exact ⟨h, fun e he => h _ (hin0 e he)⟩
  | map f =>
    obtain ⟨rfl, rfl⟩ := Prod.mk.inj (Except.ok.inj hs)
    refine ⟨h, fun e he => ?_⟩
    obtain ⟨e', he', rfl⟩ := List.mem_map.mp he
    exact h _ (hin0 e' he')
  | filter p =>
    obtain ⟨rfl, rfl⟩ := Prod.mk.inj (Except.ok.inj hs)
    refine ⟨h, fun e he => ?_⟩
    obtain ⟨he', hp⟩ := List.mem_filter.mp he
    exact h _ (hin0 e he') hp
  | consolidate =>
    obtain ⟨rfl, rfl⟩ := Prod.mk.inj (Except.ok.inj hs)
    refine ⟨h, fun e he => ?_⟩
    obtain ⟨hne, htotal⟩ := (Delta.consolidated_consolidate _).mem_iff.mp he
    rw [← htotal, Delta.total_consolidate] at hne
    obtain ⟨m, hm⟩ := Delta.exists_mem_of_total_ne_zero hne
    exact h _ (hin0 (e.1, m) hm)
  | output batches =>
    obtain ⟨rfl, rfl⟩ := Prod.mk.inj (Except.ok.inj hs)
    exact ⟨trivial, List.forall_mem_nil _⟩
  | join rule s =>
    obtain ⟨rfl, rfl⟩ := Prod.mk.inj (Except.ok.inj hs)
    obtain ⟨hstate, hout⟩ := JoinState.step_yields h.1 h.2 hin0 (hsecond ▸ hin 1)
    exact ⟨⟨h.1, hstate⟩, hout⟩
  | group rule s =>
    obtain ⟨rfl, rfl⟩ := Prod.mk.inj (Except.ok.inj hs)
    exact ⟨h, fun e _ => h e.1⟩
  | distinct extract s =>
    obtain ⟨rfl, rfl⟩ := Prod.mk.inj (Except.ok.inj hs)
    exact ⟨h, fun e _ => h e.1⟩
  | window compare s =>
    rw [Operator.step] at hs
    split at hs
    · cases hs
    · obtain ⟨rfl, rfl⟩ := Prod.mk.inj (Except.ok.inj hs)
      exact ⟨h, fun e _ => h e.1⟩

end Operator

namespace Graph

variable {g g' : Graph} {ins : Nat → List Nat} {T : Nat → Row → Prop} {i k : Nat}

/-! ## Graphs -/

/-- What rows arrive at an inlet: those that its producer puts out. At an inlet without one, any. -/
def atInlet (ins : Nat → List Nat) (T : Nat → Row → Prop) (i j : Nat) (r : Row) : Prop :=
  ∀ p, (ins i)[j]? = some p → T p r

/-- **The nodes of a graph put out rows as told by `T`**, and such rows are on their way. -/
structure Yields (g : Graph) (ins : Nat → List Nat) (T : Nat → Row → Prop) : Prop where
  operators : ∀ (i : Nat) (n : Node), g.nodes[i]? = some n →
    n.operator.Yields (atInlet ins T i) (T i)
  waiting : ∀ (i : Nat) (n : Node), g.nodes[i]? = some n → ∀ j, ∀ e ∈ waitingAt n j,
    atInlet ins T i j e.1

/-- Another node in the place of one, of which the same is told. -/
theorem Yields.set {n : Node} (h : g.Yields ins T)
    (hop : n.operator.Yields (atInlet ins T i) (T i))
    (hwait : ∀ j, ∀ e ∈ waitingAt n j, atInlet ins T i j e.1) :
    Yields { g with nodes := g.nodes.set i n } ins T := by
  have hcases : ∀ (k : Nat) (m : Node), (g.nodes.set i n)[k]? = some m →
      (k = i ∧ m = n) ∨ g.nodes[k]? = some m := by
    intro k m hm
    rw [List.getElem?_set] at hm
    split at hm
    · rename_i hk
      split at hm
      · exact Or.inl ⟨hk.symm, (Option.some.inj hm).symm⟩
      · cases hm
    · exact Or.inr hm
  constructor
  · intro k m hm
    rcases hcases k m hm with ⟨rfl, rfl⟩ | hm
    · exact hop
    · exact h.operators k m hm
  · intro k m hm
    rcases hcases k m hm with ⟨rfl, rfl⟩ | hm
    · exact hwait
    · exact h.waiting k m hm

/-! ## Running -/

/-- What a node has put out waits where such rows are told of. -/
theorem Yields.stepped {n : Node} {operator : Operator} {out : Delta Row} (h : g.Yields ins T)
    (hw : Wired g.frames ins) (hn : g.nodes[i]? = some n)
    (hs : Stepped g g' ins i n (n.emptied operator) out)
    (hop : operator.Yields (atInlet ins T i) (T i)) (hout : ∀ e ∈ out, T i e.1) :
    g'.Yields ins T := by
  constructor
  · intro k m hm
    by_cases hk : k = i
    · subst hk
      obtain rfl := Option.some.inj (hs.self.symm.trans hm)
      exact hop
    · obtain ⟨m0, hm0, hop0, -, -⟩ := hs.fed k m hk hm
      rw [hop0]
      exact h.operators k m0 hm0
  · intro k m hm j e he
    by_cases hk : k = i
    · subst hk
      obtain rfl := Option.some.inj (hs.self.symm.trans hm)
      rw [waitingAt_emptied] at he
      cases he
    · obtain ⟨m0, hm0, -, hframe, hwait⟩ := hs.fed k m hk hm
      by_cases hj : j < m0.inbox.length
      · rw [hwait j hj] at he
        rcases List.mem_append.mp he with he | he
        · exact h.waiting k m0 hm0 j e he
        · split at he
          · rename_i hfed
            intro p hp
            obtain ⟨-, hi⟩ := (hw.feeds i _ (frame_of_node hn) k j).mp hfed
            obtain rfl := Option.some.inj (hi.symm.trans hp)
            exact hout e he
          · cases he
      · have hlen : m.inbox.length = m0.inbox.length := congrArg Frame.inlets hframe
        have hnone : m.inbox[j]? = none := List.getElem?_eq_none (by omega)
        rw [waitingAt, List.getD_eq_getElem?_getD, hnone] at he
        cases he

/-- **One node's turn.** What it puts out is as told, and goes where it is told of. -/
theorem Yields.stepNode (h : g.Yields ins T) (hw : Wired g.frames ins) (i : Nat) :
    (g.stepNode i).1.Yields ins T ∧ ∀ e ∈ g.turnOut i, T i e.1 := by
  cases g.turnCases i with
  | idle _ hstep hout =>
    rw [hstep, hout]
    exact ⟨h, List.forall_mem_nil _⟩
  | fails n e hn _ _ hstep hout =>
    rw [hstep, hout]
    refine ⟨h.set (h.operators i n hn) fun j e he => ?_, List.forall_mem_nil _⟩
    rw [waitingAt_emptied] at he
    cases he
  | steps n operator out hn _ hs hstep hout =>
    rw [hstep, hout]
    obtain ⟨hop, hyields⟩ := (h.operators i n hn).step (h.waiting i n hn) hs
    exact ⟨h.stepped hw hn (stepped_of_step hw hn hs) hop hyields, hyields⟩

/-- **What comes out in a run is as told**, also if the run fails. -/
theorem Yields.run (h : g.Yields ins T) (hw : Wired g.frames ins) :
    g.run.1.Yields ins T ∧ ∀ k, ∀ e ∈ g.runOut k, T k e.1 := by
  let P : Graph → Prop := fun g => g.Yields ins T ∧ Wired g.frames ins
  have hP : ∀ g i, P g → P (g.stepNode i).1 := fun g i ⟨h, hw⟩ =>
    ⟨(h.stepNode hw i).1, (kept_stepNode hw i).frames ▸ hw⟩
  exact ⟨(run_keeps hP ⟨h, hw⟩).1,
    fun k => runOut_forall hP (fun g ⟨h, hw⟩ => (h.stepNode hw k).2) ⟨h, hw⟩⟩

/-! ## Using -/

theorem Yields.send {d : Delta Row} (h : g.Yields ins T) (hw : Wired g.frames ins)
    (hs : g.send i d = .ok g') : g'.Yields ins T := by
  unfold Graph.send at hs
  split at hs
  · cases hs
  · rename_i n hn
    split at hs
    · rename_i hinput
      obtain rfl := Except.ok.inj hs
      have hset : g.nodes.modify i (·.receive 0 d) = g.nodes.set i (n.receive 0 d) := by
        rw [List.modify_eq_set_getElem?, hn]
        rfl
      rw [hset]
      -- Nothing is told of what arrives at an input, since no node feeds it.
      refine h.set (h.operators i n hn) fun j e _ p hp => ?_
      rw [hw.inputs i _ (frame_of_node hn) hinput] at hp
      cases hp
    · cases hs

/-- What is done to a graph leaves it to go on as told. -/
theorem Yields.of_used (h : g.Yields ins T) (hw : Wired g.frames ins) (hu : Used g g') :
    g'.Yields ins T := by
  cases hu with
  | send hs => exact h.send hw hs
  | run => exact (h.run hw).1
  | drain i =>
    unfold Graph.drain
    split
    · rename_i n hn
      split
      · exact h.set trivial (h.waiting i n hn)
      · exact h
    · exact h
  | requestWindow i u =>
    unfold Graph.requestWindow
    split
    · rename_i n hn
      split
      · rename_i compare s hop
        have hyields := h.operators i n hn
        rw [hop] at hyields
        exact h.set hyields (h.waiting i n hn)
      · exact h
    · exact h

/-- **All rows that come out of a graph in use are as told**, whatever was done to it before. -/
theorem Yields.of_life (h : g.Yields ins T) (hr : Ready g ins)
    (hl : Relation.ReflTransGen Used g g') : g'.Yields ins T := by
  induction hl with
  | refl => exact h
  | tail hlife hu ih => exact ih.of_used (hr.of_life (handled_of_used hlife)).wired hu

end Graph

end DeltaView
