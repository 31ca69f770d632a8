import DeltaView.Proofs.Dataflow.Lifetime

/-!
# One pass is enough

A run visits producers before consumers, so a node that steps has before it all that will come in
this run. Steps leave nothing pending, so that after one pass nothing is left to do.

* `Turn`: a step of a node, with what it took from its inlets and what it emitted; `passTurns` and
  `turnsOfPasses` read along with `runPass` and `runPasses`.
* `stepNode_turned`: what one node's turn does to what waits at the others.
* **`Halfway.received`**: in a pass a node receives what waited and what its producers emit.
* **`run_single_pass`**: runs of any graph that was assembled, made final and used.
-/

namespace DeltaView

namespace Graph

variable {O E : Type}

/-! ## Turns -/

/-- A step of a node: what it took from its inlets, and what it emitted. -/
structure Turn (E : Type) where
  node : Nat
  inputs : List (List E)
  out : List E

/-- What a node receives at an inlet in some turns. -/
def received (turns : List (Turn E)) (i j : Nat) : List E :=
  (turns.filter (·.node = i)).flatMap (·.inputs.getD j [])

/-- What a node emits in some turns. -/
def emitted (turns : List (Turn E)) (i : Nat) : List E :=
  (turns.filter (·.node = i)).flatMap (·.out)

/-- What the producer of an inlet emits in some turns, if it has one. -/
def delivered (turns : List (Turn E)) (producer : Option Nat) : List E :=
  producer.elim [] (emitted turns)

section Turns

variable {turns turns' : List (Turn E)} {i j : Nat}

@[simp] theorem received_append :
    received (turns ++ turns') i j = received turns i j ++ received turns' i j := by
  simp [received]

@[simp] theorem emitted_append :
    emitted (turns ++ turns') i = emitted turns i ++ emitted turns' i := by
  simp [emitted]

@[simp] theorem delivered_append {producer : Option Nat} :
    delivered (turns ++ turns') producer = delivered turns producer ++ delivered turns' producer := by
  cases producer with
  | none => rfl
  | some p => exact emitted_append

theorem received_of_not_mem (h : i ∉ turns.map (·.node)) : received turns i j = [] := by
  rw [received, List.filter_eq_nil_iff.mpr fun t ht => ?_, List.flatMap_nil]
  simpa using fun he : t.node = i => h (List.mem_map.mpr ⟨t, ht, he⟩)

theorem emitted_of_not_mem (h : i ∉ turns.map (·.node)) : emitted turns i = [] := by
  rw [emitted, List.filter_eq_nil_iff.mpr fun t ht => ?_, List.flatMap_nil]
  simpa using fun he : t.node = i => h (List.mem_map.mpr ⟨t, ht, he⟩)

/-- A producer that has no turn delivers nothing. -/
theorem delivered_of_not_mem {producer : Option Nat}
    (h : ∀ p, producer = some p → p ∉ turns.map (·.node)) : delivered turns producer = [] := by
  cases producer with
  | none => rfl
  | some p => exact emitted_of_not_mem (h p rfl)

end Turns

variable [NodeOperator O E]

/-- The turn of a node, if it has something to do and does not fail. -/
def turn? (g : Graph O E) (i : Nat) : Option (Turn E) :=
  match g.nodes[i]? with
  | none => none
  | some n =>
    if n.hasWork then
      match NodeOperator.step n.inbox n.operator with
      | .error _ => none
      | .ok (_, out) => some ⟨i, n.inbox, out⟩
    else none

/-- The turns while nodes are visited in order, up to the first error. -/
def passTurns : List Nat → Graph O E → List (Turn E)
  | [], _ => []
  | i :: rest, g =>
    (g.turn? i).toList ++
      match g.stepNode i with
      | (_, some _) => []
      | (g, none) => passTurns rest g

/-- The turns of at most `fuel` passes, pass by pass. -/
def turnsOfPasses : Nat → Graph O E → List (List (Turn E))
  | 0, _ => []
  | fuel + 1, g =>
    if g.hasWork then
      passTurns g.order g ::
        match runPass g.order g with
        | (_, some _) => []
        | (g, none) => turnsOfPasses fuel g
    else []

variable {g g' : Graph O E} {ins : Nat → List Nat}

theorem turn?_node {i : Nat} {t : Turn E} (h : g.turn? i = some t) : t.node = i := by
  unfold turn? at h
  split at h
  · cases h
  · split at h
    · split at h
      · cases h
      · rw [← Option.some.inj h]
    · cases h

/-- In the turn of a node nothing is delivered by others. -/
theorem delivered_turn? (g : Graph O E) (i : Nat) (producer : Option Nat) :
    delivered (g.turn? i).toList producer =
      if producer = some i then emitted (g.turn? i).toList i else [] := by
  by_cases hp : producer = some i
  · rw [if_pos hp, hp]
    rfl
  · rw [if_neg hp]
    refine delivered_of_not_mem fun p hpi hm => hp ?_
    obtain ⟨t, ht, rfl⟩ := List.mem_map.mp hm
    rw [hpi, turn?_node (Option.mem_toList.mp ht)]

/-- In a pass the nodes of the list step, in its order. -/
theorem passTurns_sublist (order : List Nat) (g : Graph O E) :
    ((passTurns order g).map (·.node)).Sublist order := by
  induction order generalizing g with
  | nil => exact List.Sublist.slnil
  | cons i order ih =>
    have hrest : ((match g.stepNode i with
        | (_, some _) => []
        | (g, none) => passTurns order g : List (Turn E)).map (·.node)).Sublist order := by
      generalize g.stepNode i = result
      obtain ⟨g1, error⟩ := result
      cases error with
      | some e => exact List.nil_sublist _
      | none => exact ih g1
    rw [passTurns, List.map_append]
    cases ht : g.turn? i with
    | none => exact hrest.cons i
    | some t =>
      rw [Option.toList_some, List.map_singleton, turn?_node ht]
      exact hrest.cons_cons i

/-! ## One turn -/

theorem turn?_of_idle {i : Nat} (h : g.IdleAt i) : g.turn? i = none := by
  unfold turn?
  cases hn : g.nodes[i]? with
  | none => rfl
  | some n => simp [h n hn]

theorem turnsOfPasses_of_idle (hidle : g.Idle) (fuel : Nat) : turnsOfPasses fuel g = [] := by
  cases fuel with
  | zero => rfl
  | succ n => rw [turnsOfPasses, if_neg (by simp [hasWork_eq_false_iff.mpr hidle])]

theorem turn?_of_step {i : Nat} {n : Node O E} {operator : O} {out : List E}
    (hn : g.nodes[i]? = some n) (hwork : n.hasWork = true)
    (hs : NodeOperator.step n.inbox n.operator = .ok (operator, out)) :
    g.turn? i = some ⟨i, n.inbox, out⟩ := by
  simp [turn?, hn, hwork, hs]

variable {K : Type} [NodeOperator.Settling O K]

/-- What a turn of node `i` does: the node takes in all that waits at its inlets and is left
without work; what it emits waits at the inlets that it feeds, behind what waited there. -/
structure Turned (g g' : Graph O E) (ins : Nat → List Nat) (i : Nat) : Prop
    extends Visited g g' ins i where
  takes : ∀ n, g.nodes[i]? = some n → ∀ j, received (g.turn? i).toList i j = waitingAt n j
  waits : ∀ k n', k ≠ i → g'.nodes[k]? = some n' → ∃ n, g.nodes[k]? = some n ∧
    n'.inbox.length = n.inbox.length ∧ ∀ j, j < n.inbox.length →
      waitingAt n' j = waitingAt n j ++
        if (ins k)[j]? = some i then emitted (g.turn? i).toList i else []

/-- Without a turn nothing changes. -/
theorem turned_of_idle {i : Nat} (hidle : g.IdleAt i) : Turned g g ins i := by
  refine ⟨.of_idle hidle, ?_, ?_⟩
  · intro n hn j
    rw [turn?_of_idle hidle, waitingAt_of_idle (hidle n hn)]
    rfl
  · intro k n _ hk
    refine ⟨n, hk, rfl, fun j _ => ?_⟩
    rw [turn?_of_idle hidle]
    simp [emitted]

theorem stepNode_turned (hw : Wired g.frames ins) {i : Nat} (h : g.stepNode i = (g', none)) :
    Turned g g' ins i := by
  cases g.turnCases i with
  | idle hidle hstep _ =>
    obtain ⟨rfl, -⟩ := Prod.mk.inj (hstep.symm.trans h)
    exact turned_of_idle hidle
  | fails n e _ _ _ hstep _ => cases hstep.symm.trans h
  | steps n operator out hn hwork hs hstep _ =>
    have hvisited := stepNode_visited hw h
    obtain ⟨rfl, -⟩ := Prod.mk.inj (hstep.symm.trans h)
    refine ⟨hvisited, fun m hm j => ?_, fun k m' hk hm' => ?_⟩
    · obtain rfl := Option.some.inj (hn.symm.trans hm)
      rw [turn?_of_step hn hwork hs]
      simp [received, waitingAt]
    · obtain ⟨m, hm, -, hframe, hwait⟩ := (stepped_of_step hw hn hs).fed k m' hk hm'
      refine ⟨m, hm, congrArg Frame.inlets hframe, fun j hj => ?_⟩
      have hkl : k < g.frames.length := by
        rw [length_frames]
        exact (List.getElem?_eq_some_iff.mp hm).1
      have hiff : (k, j) ∈ n.consumers ↔ (ins k)[j]? = some i :=
        (hw.feeds i _ (frame_of_node hn) k j).trans (and_iff_right hkl)
      rw [hwait j hj, turn?_of_step hn hwork hs]
      simp only [hiff]
      simp [emitted]

/-! ## A pass -/

/-- The producers of the next node were visited before, and have no turn any more. -/
theorem Halfway.delivered_eq_nil {done order : List Nat} {i : Nat}
    (h : Halfway g ins done (i :: order)) {turns : List (Turn E)}
    (hturns : turns.map (·.node) ⊆ i :: order) (j : Nat) : delivered turns (ins i)[j]? = [] :=
  delivered_of_not_mem fun p hp hm =>
    h.apart p (hturns hm) (h.inOrder.1 p (List.mem_of_getElem? hp))

/-- **In a pass every node receives at each inlet what waited there, and then what the inlet's
producer emits.** -/
theorem Halfway.received {done order : List Nat} (h : Halfway g ins done order)
    (hw : Wired g.frames ins) (hr : runPass order g = (g', none)) :
    ∀ i ∈ order, ∀ n, g.nodes[i]? = some n → ∀ j, j < n.inbox.length →
      received (passTurns order g) i j =
        waitingAt n j ++ delivered (passTurns order g) (ins i)[j]? := by
  induction order generalizing g done with
  | nil => exact fun _ hi => absurd hi List.not_mem_nil
  | cons i order ih =>
    unfold runPass at hr
    split at hr
    · exact absurd (Prod.mk.inj hr).2 (by simp)
    · rename_i g1 hstep
      have hturned := stepNode_turned hw hstep
      have hturns : passTurns (i :: order) g = (g.turn? i).toList ++ passTurns order g1 := by
        rw [passTurns, hstep]
      intro k hk n hkn j hj
      by_cases hki : k = i
      · -- All that the node receives is what waited.
        subst hki
        have hlater : k ∉ (passTurns order g1).map (·.node) := fun hm =>
          (List.nodup_cons.mp h.nodup).1 ((passTurns_sublist order g1).subset hm)
        rw [h.delivered_eq_nil (passTurns_sublist _ g).subset, hturns, received_append,
          hturned.takes n hkn, received_of_not_mem hlater]
      · -- The node's turn is still to come; what is emitted before it waits there already.
        have hnow : k ∉ (g.turn? i).toList.map (·.node) := by
          intro hm
          obtain ⟨t, ht, rfl⟩ := List.mem_map.mp hm
          exact hki (turn?_node (Option.mem_toList.mp ht))
        have hkl : k < g1.nodes.length := by
          rw [← length_frames, hturned.kept.frames, length_frames]
          exact (List.getElem?_eq_some_iff.mp hkn).1
        obtain ⟨n0, hn0, hinlets, hwait⟩ := hturned.waits k _ hki (List.getElem?_eq_getElem hkl)
        obtain rfl := Option.some.inj (hn0.symm.trans hkn)
        have hrest := ih (h.visit hturned.toVisited) (hturned.kept.frames ▸ hw) hr k
          ((List.mem_cons.mp hk).resolve_left hki) _ (List.getElem?_eq_getElem hkl) j (hinlets ▸ hj)
        rw [hturns, received_append, received_of_not_mem hnow, List.nil_append, hrest, hwait j hj,
          List.append_assoc, delivered_append, delivered_turn?]

/-! ## A run -/

/-- **A run without error is one pass at most**, however many it may make. In it every node steps at
most once and receives at each inlet what waited there, followed by all that the inlet's producer
emits in this run. Nothing waits anywhere afterwards, and nothing is pending. -/
theorem Ready.single_pass (hr : Ready g ins) (hrun : g.run = (g', none)) (fuel : Nat) :
    let passes := turnsOfPasses (fuel + 1) g
    runPasses (fuel + 1) g = (g', none) ∧ passes.length ≤ 1 ∧
      (passes.flatten.map (·.node)).Nodup ∧
      (∀ (i : Nat) (n : Node O E), g.nodes[i]? = some n → ∀ j, j < n.inbox.length →
        received passes.flatten i j = waitingAt n j ++ delivered passes.flatten (ins i)[j]?) ∧
      ∀ n ∈ g'.nodes, (∀ d ∈ n.inbox, d = []) ∧
        NodeOperator.hasPending n.operator = false := by
  intro passes
  obtain ⟨hidle, hpasses⟩ := hr.passes hrun
  have hquiet : ∀ n ∈ g'.nodes, (∀ d ∈ n.inbox, d = []) ∧
      NodeOperator.hasPending n.operator = false := by
    intro n hn
    obtain ⟨i, hi⟩ := List.mem_iff_getElem?.mp hn
    have := hidle i n hi
    rw [Node.hasWork, Bool.or_eq_false_iff, Node.hasInput, List.any_eq_false] at this
    exact ⟨fun d hd => by simpa using this.1 d hd, this.2⟩
  rcases hpasses with ⟨hbidle, rfl⟩ | ⟨hwork, hpass⟩
  · have hturns : passes = [] := turnsOfPasses_of_idle hbidle _
    rw [hturns]
    refine ⟨runPasses_of_idle hbidle _, Nat.zero_le _, List.nodup_nil, ?_, hquiet⟩
    intro i n hn j _
    rw [waitingAt_of_idle (hbidle i n hn)]
    cases (ins i)[j]? <;> rfl
  · have hturns : passes = [passTurns g.order g] := by
      simp only [passes]
      rw [turnsOfPasses, if_pos hwork, hpass]
      dsimp only
      rw [turnsOfPasses_of_idle hidle]
    rw [hturns, List.flatten_singleton]
    refine ⟨?_, le_rfl, (passTurns_sublist _ _).nodup hr.nodup, ?_, hquiet⟩
    · rw [runPasses, if_pos hwork, hpass]
      exact runPasses_of_idle hidle fuel
    · intro i n hn j hj
      exact hr.halfway.received hr.wired hpass i
        (hr.complete i (List.getElem?_eq_some_iff.mp hn).1) n hn j hj

/-- **An input takes in all that waits at it** in a run without error. -/
theorem Ready.input_received (hr : Ready g ins) (hrun : g.run = (g', none)) {i : Nat} {n : Node O E}
    (hn : g.nodes[i]? = some n) (hin : n.isInput = true) :
    received (turnsOfPasses (g.nodes.length + 1) g).flatten i 0 = waitingAt n 0 := by
  obtain ⟨-, -, -, hreceived, -⟩ := hr.single_pass hrun g.nodes.length
  rw [hreceived i n hn 0 (hr.wired.input_pos hn hin), hr.wired.inputs i _ (frame_of_node hn) hin]
  exact List.append_nil _

/-- **One pass is enough.** Let the operators, whatever they are, leave nothing pending when they
step. Then a graph that is assembled of them in any way can be made final, with every node once in
its order and each after its producers. However it is handled then, a run that meets no error ends
after at most one pass, however many it may make. In it every node steps at most once and receives
at each inlet what waited there, followed by all that the inlet's producer emits in this run.
Nothing waits anywhere afterwards, and nothing is pending. -/
theorem run_single_pass {O E : Type} [NodeOperator O E]
    (hsettles : ∀ (inputs : List (List E)) (operator operator' : O) (out : List E),
      NodeOperator.step inputs operator = .ok (operator', out) →
      NodeOperator.hasPending operator' = false)
    {g : Graph O E} {ins : Nat → List Nat} (h : Assembled g ins) :
    ∃ final, g.finalize = .ok final ∧ final.order.Perm (List.range g.nodes.length) ∧
      (∀ c, ∀ p ∈ ins c, final.order.idxOf p < final.order.idxOf c) ∧
      ∀ before after, Relation.ReflTransGen Handled final before → before.run = (after, none) →
        ∀ fuel, let passes := turnsOfPasses (fuel + 1) before
          runPasses (fuel + 1) before = (after, none) ∧ passes.length ≤ 1 ∧
            (passes.flatten.map (·.node)).Nodup ∧
            (∀ (i : Nat) (n : Node O E), before.nodes[i]? = some n → ∀ j, j < n.inbox.length →
              received passes.flatten i j =
                waitingAt n j ++ delivered passes.flatten (ins i)[j]?) ∧
            ∀ n ∈ after.nodes, (∀ d ∈ n.inbox, d = []) ∧
              NodeOperator.hasPending n.operator = false := by
  let _ : NodeOperator.Settling O Unit := .ofStep hsettles
  obtain ⟨final, hfinal, -, hr, hperm, hbefore⟩ := finalize_order h
  exact ⟨final, hfinal, hperm, hbefore, fun before after huse hrun fuel =>
    (hr.of_life huse).single_pass hrun fuel⟩

/-- A graph with one of each operator that there is, where one node feeds both inlets of the join: each
of them receives the row that was sent. -/
theorem run_single_pass_of_all_operators :
    let key := fun r : Row => r.value.toJoinKey
    let row : Row := { key := .plain (.int 1), value := .bool true }
    let g0 : Graph := Graph.empty.extend .input true []
    let g1 := g0.extend (.map id) false [0]
    let g2 := g1.extend (.filter fun r => r.value == .bool true) false [1]
    let g3 := g2.extend .consolidate false [2]
    let g4 := g3.extend (.join ⟨.inner, key, key⟩ .empty) false [3, 3]
    let g5 := g4.extend (.group ⟨fun r => r.value, []⟩ .empty) false [4]
    let g6 := g5.extend (.distinct (fun r => r.value) .empty) false [5]
    let g7 := g6.extend (.window Value.cmp (.start ⟨0, some 1⟩)) false [6]
    let g := g7.extend (.output []) false [7]
    ∃ final before, g.finalize = .ok final ∧ final.send 0 [(row, 1)] = .ok before ∧
      before.run.2 = none ∧ (turnsOfPasses 10 before).length ≤ 1 ∧
      emitted (turnsOfPasses 10 before).flatten 3 = [(row, 1)] ∧
      received (turnsOfPasses 10 before).flatten 4 0 = emitted (turnsOfPasses 10 before).flatten 3 ∧
      received (turnsOfPasses 10 before).flatten 4 1 =
        emitted (turnsOfPasses 10 before).flatten 3 := by
  intro key row g0 g1 g2 g3 g4 g5 g6 g7 g
  have h0 : Assembled g0 _ := .input .empty (addInput_eq rfl)
  have h1 : Assembled g1 _ := .operator h0 (addOperator_eq rfl rfl (by decide +kernel))
  have h2 : Assembled g2 _ := .operator h1 (addOperator_eq rfl rfl (by decide +kernel))
  have h3 : Assembled g3 _ := .operator h2 (addOperator_eq rfl rfl (by decide +kernel))
  have h4 : Assembled g4 _ := .operator h3 (addOperator_eq rfl rfl (by decide +kernel))
  have h5 : Assembled g5 _ := .operator h4 (addOperator_eq rfl rfl (by decide +kernel))
  have h6 : Assembled g6 _ := .operator h5 (addOperator_eq rfl rfl (by decide +kernel))
  have h7 : Assembled g7 _ := .operator h6 (addOperator_eq rfl rfl (by decide +kernel))
  have hbuilt : Assembled g _ := .operator h7 (addOperator_eq rfl rfl (by decide +kernel))
  -- What happens is computed at once, and then read off.
  have hdecided : (g.finalize.toOption.bind fun final =>
      (final.send 0 [(row, 1)]).toOption.map fun before =>
        decide (before.run.2.isNone ∧ (before.nodes[4]?).map (·.inbox) = some [[], []] ∧
          emitted (turnsOfPasses 10 before).flatten 3 = [(row, 1)])) = some true := by decide +kernel
  obtain ⟨final, hfinal, -, -, hrun⟩ :=
    run_single_pass (fun _ _ _ _ hs => (Operator.step_reset hs).2) hbuilt
  obtain ⟨before, hsend, hfacts⟩ : ∃ before, final.send 0 [(row, 1)] = .ok before ∧
      before.run.2.isNone ∧ (before.nodes[4]?).map (·.inbox) = some [[], []] ∧
      emitted (turnsOfPasses 10 before).flatten 3 = [(row, 1)] := by
    rw [hfinal] at hdecided
    cases hs : final.send 0 [(row, 1)] with
    | error e => simp [hs, Except.toOption] at hdecided
    | ok before => exact ⟨before, rfl, by simpa [hs, Except.toOption] using hdecided⟩
  obtain ⟨hnone, hinbox, hemitted⟩ := hfacts
  obtain ⟨n, hn, hn'⟩ := Option.map_eq_some_iff.mp hinbox
  have hok : before.run.2 = none := Option.isNone_iff_eq_none.mp hnone
  obtain ⟨after, hafter⟩ : ∃ after, before.run = (after, none) := by
    rw [← hok]
    exact ⟨_, Prod.mk.eta.symm⟩
  obtain ⟨-, hlen, -, hreceived, -⟩ := hrun before after (.single (.send hsend)) hafter 9
  have hwaiting : ∀ j, waitingAt n j = [] := waitingAt_of_empty (by simp [hn'])
  have hin0 := hreceived 4 n hn 0 (by simp [hn'])
  have hin1 := hreceived 4 n hn 1 (by simp [hn'])
  rw [hwaiting] at hin0 hin1
  exact ⟨final, before, hfinal, hsend, hok, hlen, hemitted, hin0, hin1⟩

end Graph

end DeltaView
