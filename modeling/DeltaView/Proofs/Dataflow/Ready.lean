import DeltaView.Proofs.Dataflow.Order
import DeltaView.Proofs.Dataflow.Turn
import DeltaView.Proofs.Dataflow.Wired

/-!
# Graphs that are ready to run

A turn of a node changes the node itself and what waits at the inlets that it feeds, nothing else.

* `Stepped`: the nodes after one of them has taken in what waited at its inlets and has delivered
  what it emits. `Visited`: the node is left without work.
* `Halfway`: a pass visits producers before consumers, so every node that was visited stays without
  work. **`Halfway.visit`**: one more turn.
* `Ready`: a graph that is wired and in order. **`Ready.passes`**: a run of it without error leaves no
  work, after one pass at most.
* **`finalize_ready`**: a wired graph can be made final, and is ready then.
-/

namespace DeltaView

open NodeOperator (Settling)

namespace Graph

variable {O E : Type}

/-! ## One turn -/

@[simp] theorem waitingAt_emptied (n : Node O E) (operator : O) (j : Nat) :
    waitingAt (n.emptied operator) j = [] := waitingAt_of_empty (n.inbox_emptied operator) j

variable {K : Type} [NodeOperator O E] [Settling O K] {g g' : Graph O E} {ins : Nat → List Nat}
  {i : Nat}

theorem hasWork_emptied {n : Node O E} {operator : O}
    (h : NodeOperator.hasPending operator = false) : (n.emptied operator).hasWork = false := by
  rw [Node.hasWork, Bool.or_eq_false_iff, Node.hasInput, List.any_eq_false]
  refine ⟨fun d hd => ?_, h⟩
  rw [n.inbox_emptied operator d hd]
  simp

/-- A node that has become the same kind of operator is wired as before. -/
theorem frame_emptied {n : Node O E} {operator : O}
    (h : Settling.kind operator = Settling.kind n.operator) :
    (n.emptied operator).frame = n.frame := by
  rw [Node.frame, Node.frame, Node.length_emptied]
  exact congrArg (Frame.mk · n.isInput n.consumers n.inbox.length) h

/-- The graph after node `i` has emptied its inlets, has become `n'` and has delivered `out`. -/
structure Stepped (g g' : Graph O E) (ins : Nat → List Nat) (i : Nat) (n n' : Node O E)
    (out : List E) : Prop where
  self : g'.nodes[i]? = some n'
  kept : Kept g g'
  apart : ∀ k, k ≠ i → i ∉ ins k → g'.nodes[k]? = g.nodes[k]?
  fed : ∀ k m', k ≠ i → g'.nodes[k]? = some m' → ∃ m, g.nodes[k]? = some m ∧
    m'.operator = m.operator ∧ m'.frame = m.frame ∧ ∀ j, j < m.inbox.length →
      waitingAt m' j = waitingAt m j ++ if (k, j) ∈ n.consumers then out else []

theorem Stepped.of_nodes {n n' : Node O E} {out : List E} (hn : g.nodes[i]? = some n)
    (hself : g'.nodes[i]? = some n') (hframe : n'.frame = n.frame)
    (hlen : g'.nodes.length = g.nodes.length) (horder : g'.order = g.order)
    (hfinal : g'.isFinal = g.isFinal)
    (hapart : ∀ k, k ≠ i → i ∉ ins k → g'.nodes[k]? = g.nodes[k]?)
    (hfed : ∀ k m', k ≠ i → g'.nodes[k]? = some m' → ∃ m, g.nodes[k]? = some m ∧
      m'.operator = m.operator ∧ m'.frame = m.frame ∧ ∀ j, j < m.inbox.length →
        waitingAt m' j = waitingAt m j ++ if (k, j) ∈ n.consumers then out else []) :
    Stepped g g' ins i n n' out := by
  refine ⟨hself, ⟨frames_eq_of_nodes hlen fun k m hm => ?_, horder, hfinal⟩, hapart, hfed⟩
  by_cases hk : k = i
  · subst hk
    obtain rfl := Option.some.inj (hself.symm.trans hm)
    exact ⟨n, hn, hframe⟩
  · obtain ⟨m0, hm0, -, hfr, -⟩ := hfed k m hk hm
    exact ⟨m0, hm0, hfr⟩

/-- A node that has stepped delivers what it emits to its consumers, which stand behind it. -/
theorem stepped_of_step (hw : Wired g.frames ins) {n : Node O E} (hn : g.nodes[i]? = some n)
    {op : O} {out : List E} (hs : NodeOperator.step n.inbox n.operator = .ok (op, out)) :
    Stepped g (g.stepTo i n op out) ins i n (n.emptied op) out := by
  obtain ⟨hi, -⟩ := List.getElem?_eq_some_iff.mp hn
  have hf := frame_of_node hn
  have hframe : (n.emptied op).frame = n.frame := frame_emptied (Settling.kind_step hs)
  have hself : ∀ e ∈ n.consumers, e.1 ≠ i := fun e he hei => by
    obtain ⟨-, hp⟩ := (hw.feeds i _ hf e.1 e.2).mp he
    have := hw.below e.1 i (List.mem_of_getElem? hp)
    omega
  let g1 : Graph O E := { g with nodes := g.nodes.set i (n.emptied op) }
  show Stepped g (if out.isEmpty then g1 else deliver out n.consumers g1) ins i n _ out
  have h1 : g1.nodes[i]? = some (n.emptied op) := by rw [List.getElem?_set_self hi]
  have h1k : ∀ k, k ≠ i → g1.nodes[k]? = g.nodes[k]? := fun k hk =>
    List.getElem?_set_ne (Ne.symm hk)
  by_cases hout : out.isEmpty
  · rw [if_pos hout]
    refine .of_nodes hn h1 hframe (List.length_set ..) rfl rfl (fun k hk _ => h1k k hk)
      fun k m hk hm => ⟨m, (h1k k hk).symm.trans hm, rfl, rfl, fun j _ => ?_⟩
    rw [List.isEmpty_iff.mp hout]
    simp
  · rw [if_neg hout]
    have hlen : (deliver out n.consumers g1).nodes.length = g.nodes.length :=
      (deliver_length ..).trans (List.length_set ..)
    refine .of_nodes hn ((deliver_other out hself g1).trans h1) hframe hlen (deliver_final ..).1
      (deliver_final ..).2 (fun k hk hki => ?_) fun k m' hk hm' => ?_
    · refine (deliver_other out (fun e he hek => hki ?_) g1).trans (h1k k hk)
      obtain ⟨-, hp⟩ := (hw.feeds i _ hf e.1 e.2).mp he
      rw [← hek]
      exact List.mem_of_getElem? hp
    · have hkl : k < g.nodes.length := by
        rw [← hlen]
        exact (List.getElem?_eq_some_iff.mp hm').1
      have hm := List.getElem?_eq_getElem hkl
      obtain ⟨m2, hm2, hrest⟩ := deliver_node out (hw.nodup i _ hf) ((h1k k hk).trans hm)
      obtain rfl := Option.some.inj (hm2.symm.trans hm')
      exact ⟨_, hm, hrest⟩

/-- A turn leaves the graph wired as it is, wherever it ends. -/
theorem kept_stepNode (hw : Wired g.frames ins) (i : Nat) : Kept g (g.stepNode i).1 := by
  cases g.turnCases i with
  | idle _ hstep _ =>
    rw [hstep]
    exact .refl g
  | fails n e hn _ _ hstep _ =>
    rw [hstep]
    exact kept_set hn (frame_emptied rfl)
  | steps n operator out hn _ hs hstep _ =>
    rw [hstep]
    exact (stepped_of_step hw hn hs).kept

/-- What a turn of node `i` leaves if it does not fail: the node without work, and as it was
every other node that it does not feed. -/
structure Visited (g g' : Graph O E) (ins : Nat → List Nat) (i : Nat) : Prop where
  kept : Kept g g'
  idle : g'.IdleAt i
  apart : ∀ k, k ≠ i → i ∉ ins k → g'.nodes[k]? = g.nodes[k]?

theorem Visited.of_idle (h : g.IdleAt i) : Visited g g ins i := ⟨.refl g, h, fun _ _ _ => rfl⟩

theorem Stepped.visited {n n' : Node O E} {out : List E} (h : Stepped g g' ins i n n' out)
    (hidle : n'.hasWork = false) : Visited g g' ins i := by
  refine ⟨h.kept, fun m hm => ?_, h.apart⟩
  obtain rfl := Option.some.inj (h.self.symm.trans hm)
  exact hidle

theorem stepNode_visited (hw : Wired g.frames ins) (h : g.stepNode i = (g', none)) :
    Visited g g' ins i := by
  cases g.turnCases i with
  | idle hidle hstep _ =>
    obtain ⟨rfl, -⟩ := Prod.mk.inj (hstep.symm.trans h)
    exact .of_idle hidle
  | fails n e _ _ _ hstep _ => cases hstep.symm.trans h
  | steps n operator out hn _ hs hstep _ =>
    obtain ⟨rfl, -⟩ := Prod.mk.inj (hstep.symm.trans h)
    exact (stepped_of_step hw hn hs).visited (hasWork_emptied (Settling.settled_step hs))

/-! ## A pass -/

theorem kept_runPass (hw : Wired g.frames ins) (order : List Nat) : Kept g (runPass order g).1 :=
  runPass_keeps (P := Kept g) (fun _ i h => h.trans (kept_stepNode (h.frames ▸ hw) i)) order
    (.refl g)

/-- A run leaves a graph wired as it is, wherever it ends. -/
theorem kept_run (hw : Wired g.frames ins) : Kept g g.run.1 :=
  run_keeps (P := Kept g) (fun _ i h => h.trans (kept_stepNode (h.frames ▸ hw) i)) (.refl g)

/-- Along the list, every node comes after its producers. -/
def InOrder (ins : Nat → List Nat) : List Nat → List Nat → Prop
  | _, [] => True
  | done, i :: rest => (∀ p ∈ ins i, p ∈ done) ∧ InOrder ins (i :: done) rest

/-- Halfway through a pass: the nodes in `done` were visited, and their producers with them, and
are left without work; those of `order` are still to come, each after its producers. -/
structure Halfway (g : Graph O E) (ins : Nat → List Nat) (done order : List Nat) : Prop where
  inOrder : InOrder ins done order
  nodup : order.Nodup
  apart : ∀ i ∈ order, i ∉ done
  closed : ∀ k ∈ done, ∀ p ∈ ins k, p ∈ done
  idle : ∀ k ∈ done, g.IdleAt k

variable {done order : List Nat}

/-- **A turn is a step on the way**: nothing that comes later feeds a node that was visited. -/
theorem Halfway.visit (h : Halfway g ins done (i :: order)) (hv : Visited g g' ins i) :
    Halfway g' ins (i :: done) order := by
  obtain ⟨hin, ho⟩ := h.inOrder
  obtain ⟨hi, hn⟩ := List.nodup_cons.mp h.nodup
  have hid := h.apart i List.mem_cons_self
  refine ⟨ho, hn, fun k hk hm => ?_, fun k hk p hp => ?_, fun k hk => ?_⟩
  · rcases List.mem_cons.mp hm with rfl | hm
    · exact hi hk
    · exact h.apart k (List.mem_cons_of_mem _ hk) hm
  · rcases List.mem_cons.mp hk with rfl | hk
    · exact List.mem_cons_of_mem _ (hin p hp)
    · exact List.mem_cons_of_mem _ (h.closed k hk p hp)
  · rcases List.mem_cons.mp hk with rfl | hk
    · exact hv.idle
    · unfold IdleAt
      rw [hv.apart k (fun e => hid (e ▸ hk)) fun hm => hid (h.closed k hk i hm)]
      exact h.idle k hk

/-- **A pass in order leaves no visited node with work.** -/
theorem Halfway.idle_after (h : Halfway g ins done order) (hw : Wired g.frames ins)
    (hr : runPass order g = (g', none)) : ∀ k, k ∈ done ∨ k ∈ order → g'.IdleAt k := by
  induction order generalizing g done with
  | nil =>
    obtain ⟨rfl, -⟩ := Prod.mk.inj hr
    exact fun k hk => h.idle k (by simpa using hk)
  | cons i order ih =>
    unfold runPass at hr
    split at hr
    · exact absurd (Prod.mk.inj hr).2 (by simp)
    · rename_i g1 hstep
      have hv := stepNode_visited hw hstep
      refine fun k hk => ih (h.visit hv) (hv.kept.frames ▸ hw) hr k ?_
      rwa [List.mem_cons, ← or_assoc, or_comm (a := k ∈ done), ← List.mem_cons] at hk

/-! ## A run -/

/-- A graph that is ready to run: wired, and sorted. -/
structure Ready (g : Graph O E) (ins : Nat → List Nat) : Prop where
  wired : Wired g.frames ins
  isFinal : g.isFinal = true
  inOrder : InOrder ins [] g.order
  nodup : g.order.Nodup
  complete : ∀ i, i < g.nodes.length → i ∈ g.order

/-- A graph with the same nodes in the same order is as ready, if it is wired as well. -/
theorem Ready.of_wired (h : Ready g ins) (hw : Wired g'.frames ins)
    (hlen : g'.nodes.length = g.nodes.length) (ho : g'.order = g.order)
    (hfin : g'.isFinal = g.isFinal) : Ready g' ins :=
  ⟨hw, hfin ▸ h.isFinal, ho ▸ h.inOrder, ho ▸ h.nodup, fun i hi => ho ▸ h.complete i (hlen ▸ hi)⟩

theorem Ready.kept (h : Ready g ins) (hk : Kept g g') : Ready g' ins := by
  refine h.of_wired (hk.frames ▸ h.wired) ?_ hk.order hk.isFinal
  rw [← length_frames, hk.frames, length_frames]

theorem Ready.halfway (hr : Ready g ins) : Halfway g ins [] g.order :=
  ⟨hr.inOrder, hr.nodup, fun _ _ => List.not_mem_nil, fun _ h => absurd h List.not_mem_nil,
    fun _ h => absurd h List.not_mem_nil⟩

/-- A pass over a graph that is ready does all there is to do. -/
theorem Ready.idle_after_pass (hr : Ready g ins) (h : runPass g.order g = (g', none)) :
    g'.Idle := by
  have hkept := kept_runPass hr.wired g.order
  rw [h] at hkept
  refine fun i n hn => hr.halfway.idle_after hr.wired h i (Or.inr (hr.complete i ?_)) n hn
  rw [← length_frames, ← hkept.frames, length_frames]
  exact (List.getElem?_eq_some_iff.mp hn).1

theorem runPasses_of_idle (hidle : g.Idle) (fuel : Nat) : runPasses fuel g = (g, none) := by
  cases fuel with
  | zero => rfl
  | succ n => rw [runPasses, if_neg (by simp [hasWork_eq_false_iff.mpr hidle])]

theorem passesOut_of_idle (hidle : g.Idle) (k fuel : Nat) : passesOut k fuel g = [] := by
  cases fuel with
  | zero => rfl
  | succ n => rw [passesOut, if_neg (by simp [hasWork_eq_false_iff.mpr hidle])]

/-- Nothing comes out of a graph that has nothing to do. -/
theorem runOut_of_idle (hidle : g.Idle) (k : Nat) : g.runOut k = [] := by
  unfold runOut
  split
  · exact passesOut_of_idle hidle k _
  · rfl

/-- The passes of a run without error: none if there is nothing to do, and one otherwise. -/
theorem Ready.passes (hr : Ready g ins) (h : g.run = (g', none)) :
    g'.Idle ∧ (g.Idle ∧ g' = g ∨ g.hasWork = true ∧ runPass g.order g = (g', none)) := by
  unfold run at h
  rw [if_pos hr.isFinal, runPasses] at h
  by_cases hwork : g.hasWork
  · rw [if_pos hwork] at h
    split at h
    · exact absurd (Prod.mk.inj h).2 (by simp)
    · rename_i g1 hpass
      have hidle := hr.idle_after_pass hpass
      rw [runPasses_of_idle hidle] at h
      obtain ⟨rfl, -⟩ := Prod.mk.inj h
      exact ⟨hidle, Or.inr ⟨hwork, hpass⟩⟩
  · rw [if_neg hwork] at h
    obtain ⟨rfl, -⟩ := Prod.mk.inj h
    have hidle := hasWork_eq_false_iff.mp (by simpa using hwork)
    exact ⟨hidle, Or.inl ⟨hidle, rfl⟩⟩

/-- What a node of a wired graph feeds. -/
theorem Wired.feeds_consumersOf (hw : Wired g.frames ins) {i : Nat} {e : Nat × Nat}
    (he : e ∈ consumersOf g.nodes i) : e.1 < g.nodes.length ∧ (ins e.1)[e.2]? = some i := by
  unfold consumersOf at he
  cases hn : g.nodes[i]? with
  | none => simp [hn] at he
  | some n =>
    rw [hn] at he
    obtain ⟨hlt, hin⟩ := (hw.feeds i n.frame (frame_of_node hn) e.1 e.2).mp he
    exact ⟨by rwa [length_frames] at hlt, hin⟩

/-- A producer in the sense of the wiring feeds at least one inlet. -/
theorem Wired.feedCount_pos (hw : Wired g.frames ins) {i p : Nat} (hi : i < g.nodes.length)
    (hp : p ∈ ins i) : p < g.nodes.length ∧ 0 < feedCount g.nodes p i := by
  have hpl : p < g.nodes.length := lt_trans (hw.below i p hp) hi
  obtain ⟨j, hj⟩ := List.mem_iff_getElem?.mp hp
  have hn := List.getElem?_eq_getElem hpl
  have hmem := (hw.feeds p _ (frame_of_node hn) i j).mpr ⟨by rwa [length_frames], hj⟩
  refine ⟨hpl, List.countP_pos_iff.mpr ⟨(i, j), ?_, by simp⟩⟩
  rw [consumersOf, hn]
  exact hmem

theorem Wired.inOrder_of_follows (hw : Wired g.frames ins) {order done : List Nat}
    (hlt : ∀ i ∈ order, i < g.nodes.length) (h : Follows g.nodes done order) :
    InOrder ins done order := by
  induction order generalizing done with
  | nil => trivial
  | cons i order ih =>
    refine ⟨fun p hp => ?_, ih (fun k hk => hlt k (List.mem_cons_of_mem _ hk)) h.2⟩
    obtain ⟨hpl, hpos⟩ := hw.feedCount_pos (hlt i List.mem_cons_self) hp
    exact h.1 p hpl hpos

/-- **A wired graph can be made final, and is ready to run then.** -/
theorem finalize_ready (hw : Wired g.frames ins) (hfin : g.isFinal = false) :
    ∃ g', g.finalize = .ok g' ∧ g'.nodes = g.nodes ∧ Ready g' ins := by
  have hlt : ∀ i, ∀ e ∈ consumersOf g.nodes i, e.1 < g.nodes.length := fun i e he =>
    (hw.feeds_consumersOf he).1
  have hlen := topologicalOrder_complete g hlt fun i e he =>
    hw.below e.1 i (List.mem_of_getElem? (hw.feeds_consumersOf he).2)
  obtain ⟨hfollow, hnodup, hall⟩ := topologicalOrder_follows g hlt
  refine ⟨{ g with order := g.topologicalOrder, isFinal := true }, ?_, rfl, hw, rfl,
    hw.inOrder_of_follows hall hfollow, hnodup, fun i hi => mem_order hnodup hall hlen hi⟩
  unfold finalize
  rw [if_neg (by simp [hfin])]
  exact if_neg (not_not.mpr hlen)

end Graph

end DeltaView
