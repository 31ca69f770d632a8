import DeltaView.Proofs.Dataflow.Ledger
import DeltaView.Proofs.Dataflow.Ready

/-!
# Runs in the ledger

Every step, pass and run of a graph keeps its ledger true.

* `Ledger.Tells.step`, `Stepped.tells_fed`: the node that has stepped, and the others.
* **`stepNode_accounts`**: one node's turn in the ledger. `runPass_accounts`: a pass in the ledger.
* **`run_spec`**: a run without error leaves no work, and every node has then seen no values but
  those of what it has consumed in the end.
-/

namespace DeltaView

/-- A sink emits nothing by itself. -/
theorem Operator.step_sink {op op' : Operator} {inputs : List (Delta Row)} {out : Delta Row}
    (hop : op.reset = .output []) (hs : op.step inputs = .ok (op', out)) : out = [] := by
  cases op with
  | output batches => exact (Prod.mk.inj (Except.ok.inj hs)).2.symm
  | _ => cases hop

namespace Graph

/-! ## One node -/

variable {g g' : Graph} {ins : Nat → List Nat} {l : Ledger} {i : Nat}

/-- The node is a sink. -/
def SinkAt (frames : List Frame) (i : Nat) : Prop :=
  ∃ f, frames[i]? = some f ∧ f.operator = .output []

/-- A node takes in what waits at its inlets, and emits a change. -/
def Ledger.step (l : Ledger) (i : Nat) (waiting : Nat → Delta Row) (out : Delta Row) : Ledger where
  sent := l.sent
  consumed k := if k = i then fun j => l.consumed i j ++ waiting j else l.consumed k
  emitted k := if k = i then l.emitted i ++ out else l.emitted k
  seen k := if k = i then Operator.seenAfter (l.seen i) (l.consumed i 0 ++ waiting 0) else l.seen k

/-- What turns of some nodes do: they emit `out`, and leave alone all that was sent, the other
nodes' accounts, and what was taken out of sinks; and nothing is seen that was not consumed. -/
structure Ledger.Turns (frames : List Frame) (l l' : Ledger) (nodes : List Nat)
    (out : Nat → Delta Row) : Prop where
  sent : l'.sent = l.sent
  emitted : ∀ k, l'.emitted k = l.emitted k ++ out k
  others : ∀ k, k ∉ nodes → l'.consumed k = l.consumed k ∧ l'.seen k = l.seen k
  sinks : ∀ k, SinkAt frames k → l'.emitted k = l.emitted k
  seen : ∀ k v, l'.seen k v → l.seen k v ∨ Delta.HasValue (l'.consumed k 0) v

theorem Ledger.Turns.refl (frames : List Frame) (l : Ledger) (nodes : List Nat)
    {out : Nat → Delta Row} (h : ∀ k, out k = []) : l.Turns frames l nodes out :=
  ⟨rfl, fun k => by rw [h, List.append_nil], fun _ _ => ⟨rfl, rfl⟩, fun _ _ => rfl,
    fun _ _ => Or.inl⟩

theorem Ledger.step_turns {frames : List Frame} (l : Ledger) (waiting : Nat → Delta Row)
    {out : Delta Row} (hsink : SinkAt frames i → out = []) :
    l.Turns frames (l.step i waiting out) [i] fun k => if i = k then out else [] := by
  refine ⟨rfl, fun k => ?_, fun k hk => ?_, fun k hk => ?_, fun k v hv => ?_⟩
  · by_cases hki : k = i
    · subst hki
      simp [Ledger.step]
    · simp [Ledger.step, hki, Ne.symm hki]
  · rw [List.mem_singleton] at hk
    simp [Ledger.step, hk]
  · by_cases hki : k = i
    · subst hki
      simp [Ledger.step, hsink hk]
    · simp [Ledger.step, hki]
  · by_cases hki : k = i
    · subst hki
      simpa [Ledger.step, Operator.seenAfter] using hv
    · simp only [Ledger.step, if_neg hki] at hv
      exact Or.inl hv

/-- A turn and then turns of nodes that do not visit its node again. -/
theorem Ledger.Turns.cons {frames : List Frame} {l l1 l2 : Ledger} {nodes : List Nat}
    {out out' : Nat → Delta Row} (h : l.Turns frames l1 [i] out)
    (h' : l1.Turns frames l2 nodes out') (hi : i ∉ nodes) :
    l.Turns frames l2 (i :: nodes) fun k => out k ++ out' k := by
  refine ⟨h'.sent.trans h.sent, fun k => ?_, fun k hk => ?_,
    fun k hk => (h'.sinks k hk).trans (h.sinks k hk), fun k v hv => ?_⟩
  · rw [h'.emitted, h.emitted, List.append_assoc]
  · rw [List.mem_cons, not_or] at hk
    obtain ⟨h1, h2⟩ := h'.others k hk.2
    obtain ⟨h3, h4⟩ := h.others k (by simpa using hk.1)
    exact ⟨h1.trans h3, h2.trans h4⟩
  · rcases h'.seen k v hv with hv | hv
    · by_cases hk : k = i
      · subst hk
        rw [(h'.others k hi).1]
        exact h.seen k v hv
      · rw [(h.others k (by simpa using hk)).2] at hv
        exact Or.inl hv
    · exact Or.inr hv

/-- The node that has stepped has consumed what waited. -/
theorem Ledger.Tells.step {n n' : Node} (h : l.Tells ins i n) (hbelow : ∀ p ∈ ins i, p < i)
    (out : Delta Row) (hinput : n'.isInput = n.isInput)
    (hlen : n'.inbox.length = n'.operator.arity) (hidle : n'.hasWork = false)
    (hreached : n'.operator.Reached (fun j => l.consumed i j ++ waitingAt n j)
      (l.emitted i ++ out) (Operator.seenAfter (l.seen i) (l.consumed i 0 ++ waitingAt n 0))) :
    (l.step i (waitingAt n) out).Tells ins i n' := by
  refine ⟨hlen, ?_, fun j p hp => ?_, fun hin => ?_⟩
  · simp only [Ledger.step, if_true]
    exact hreached
  · have hpi := hbelow p (List.mem_of_getElem? hp)
    simp only [Ledger.step, if_true, if_neg (Nat.ne_of_lt hpi)]
    rw [waitingAt_of_idle hidle j, List.append_nil]
    exact h.flow j p hp
  · simp only [Ledger.step, if_true]
    rw [waitingAt_of_idle hidle 0, List.append_nil]
    exact h.sent (hinput ▸ hin)

/-- At the other nodes what was emitted waits, where they read it. -/
theorem Stepped.tells_fed {n n' m : Node} {out : Delta Row} (h : Stepped g g' ins i n n' out)
    (hw : Wired g.frames ins) (ha : Accounts g.nodes ins l) (hn : g.nodes[i]? = some n) {k : Nat}
    (hk : k ≠ i) (hm : g'.nodes[k]? = some m) : (l.step i (waitingAt n) out).Tells ins k m := by
  obtain ⟨m0, hm0, hop, hframe, hwait⟩ := h.fed k m hk hm
  have htells := ha k m0 hm0
  have hk0 := frame_of_node hm0
  refine ⟨?_, ?_, fun j p hp => ?_, fun hin => ?_⟩
  · rw [hop]
    exact (congrArg Frame.inlets hframe).trans htells.inlets
  · simp only [Ledger.step, if_neg hk]
    rw [hop]
    exact htells.reached
  · have hkl : k < g.frames.length := (List.getElem?_eq_some_iff.mp hk0).1
    have hmem : (k, j) ∈ n.consumers ↔ p = i := hw.mem_consumers (frame_of_node hn) hkl hp
    rw [hwait j (hw.inlet_lt hk0 hp)]
    simp only [Ledger.step, if_neg hk, hmem]
    by_cases hpi : p = i
    · subst hpi
      rw [if_pos rfl, if_pos rfl, ← List.append_assoc]
      exact (htells.flow j p hp).append (.refl out)
    · rw [if_neg hpi, if_neg hpi, List.append_nil]
      exact htells.flow j p hp
  · have hin0 : m0.isInput = true := (congrArg Frame.isInput hframe).symm.trans hin
    simp only [Ledger.step, if_neg hk]
    rw [hwait 0 (hw.input_pos hm0 hin0), if_neg (hw.input_unfed hm0 hin0 hn 0), List.append_nil]
    exact htells.sent hin0

/-- **A node's turn in the ledger**: it takes in what waits, and what it emits waits at its
consumers. -/
theorem stepNode_accounts (hw : Wired g.frames ins) (ha : Accounts g.nodes ins l)
    (h : g.stepNode i = (g', none)) :
    ∃ l', Accounts g'.nodes ins l' ∧
      l.Turns g.frames l' [i] fun k => if i = k then g.turnOut i else [] := by
  cases g.turnCases i with
  | idle _ hstep hout =>
    obtain ⟨rfl, -⟩ := Prod.mk.inj (hstep.symm.trans h)
    rw [hout]
    exact ⟨l, ha, .refl _ l _ fun k => ite_self _⟩
  | fails n e _ _ _ hstep _ => cases hstep.symm.trans h
  | steps n operator out hn _ hs hstep hout =>
    obtain ⟨rfl, -⟩ := Prod.mk.inj (hstep.symm.trans h)
    rw [hout]
    have htells := ha i n hn
    have hstepped := stepped_of_step hw hn hs
    refine ⟨l.step i (waitingAt n) out, fun k m hm => ?_, l.step_turns _ fun ⟨f, hf, hsink⟩ => ?_⟩
    · by_cases hk : k = i
      · subst hk
        obtain rfl := Option.some.inj (hstepped.self.symm.trans hm)
        refine htells.step (hw.below k) out rfl ?_ (hasWork_emptied (Operator.step_reset hs).2)
          (Operator.step_reached htells.reached htells.inlets hs)
        rw [Node.length_emptied, htells.inlets]
        exact (Operator.step_arity hs).symm
      · exact hstepped.tells_fed hw ha hn hk hm
    · obtain rfl := Option.some.inj ((frame_of_node hn).symm.trans hf)
      exact Operator.step_sink hsink hs

/-! ## A pass -/

/-- **A pass in the ledger**: every node has at most one turn. -/
theorem runPass_accounts (hw : Wired g.frames ins) (ha : Accounts g.nodes ins l)
    {order : List Nat} (hn : order.Nodup) (h : runPass order g = (g', none)) :
    ∃ l', Accounts g'.nodes ins l' ∧ l.Turns g.frames l' order fun k => passOut k order g := by
  induction order generalizing g l with
  | nil =>
    obtain ⟨rfl, -⟩ := Prod.mk.inj h
    exact ⟨l, ha, .refl _ l [] fun _ => rfl⟩
  | cons i order ih =>
    obtain ⟨hi, hn⟩ := List.nodup_cons.mp hn
    unfold runPass at h
    split at h
    · exact absurd (Prod.mk.inj h).2 (by simp)
    · rename_i g1 hstep
      have hkept := (stepNode_visited hw hstep).kept
      obtain ⟨l1, ha1, hturn⟩ := stepNode_accounts hw ha hstep
      obtain ⟨l2, ha2, hturns⟩ := ih (hkept.frames ▸ hw) ha1 hn h
      rw [hkept.frames] at hturns
      have hout : (fun k => passOut k (i :: order) g) =
          fun k => (if i = k then g.turnOut i else []) ++ passOut k order g1 := by
        funext k
        rw [passOut, hstep]
      exact ⟨l2, ha2, hout ▸ hturn.cons hturns hi⟩

/-! ## A run -/

/-- **A run without error leaves no work**: the first pass does it all. -/
theorem run_spec (hr : Ready g ins) (ha : Accounts g.nodes ins l) (h : g.run = (g', none)) :
    ∃ l', Accounts g'.nodes ins l' ∧ l.Turns g.frames l' g.order g.runOut ∧ Kept g g' ∧
      g'.Idle := by
  have hkept := kept_run hr.wired
  rw [h] at hkept
  obtain ⟨hidle, ⟨hbefore, rfl⟩ | ⟨hwork, hpass⟩⟩ := hr.passes h
  · exact ⟨l, ha, .refl _ l _ (runOut_of_idle hbefore), hkept, hidle⟩
  · obtain ⟨l', ha', hturns⟩ := runPass_accounts hr.wired ha hr.nodup hpass
    have hout : g.runOut = fun k => passOut k g.order g := by
      funext k
      rw [runOut, if_pos hr.isFinal, passesOut, if_pos hwork, hpass]
      dsimp only
      rw [passesOut_of_idle hidle, List.append_nil]
    exact ⟨l', ha', hout ▸ hturns, hkept, hidle⟩

end Graph

end DeltaView
