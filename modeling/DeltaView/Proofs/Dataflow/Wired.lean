import DeltaView.Dataflow.Graph
import Mathlib.Data.List.Basic

/-!
# Wired graphs

How the nodes of a graph feed each other, and what its runs leave alone.

* `NodeOperator.Settling`: what is asked of operators, that a step leaves nothing pending, and what a
  step leaves alone of an operator.
* `Wired frames ins`: `ins` gives the producers of every node, one for each inlet. A `Frame` is
  what runs leave alone of a node.
* `Kept`: what runs leave alone of a graph.
* `deliver_node`: what is delivered waits at the inlets that it was delivered to.
-/

namespace DeltaView

/-- Operators whose steps leave nothing pending. The kind of an operator is what its steps leave
alone of it. -/
class NodeOperator.Settling (O : Type) {E : outParam Type} [NodeOperator O E]
    (K : outParam Type) where
  kind : O → K
  kind_step {inputs : List (List E)} {operator operator' : O} {out : List E}
    (h : NodeOperator.step inputs operator = .ok (operator', out)) : kind operator' = kind operator
  settled_step {inputs : List (List E)} {operator operator' : O} {out : List E}
    (h : NodeOperator.step inputs operator = .ok (operator', out)) :
    NodeOperator.hasPending operator' = false

/-- Operators are all of one kind, if nothing more is asked of their steps. -/
abbrev NodeOperator.Settling.ofStep {O E : Type} [NodeOperator O E]
    (h : ∀ (inputs : List (List E)) (operator operator' : O) (out : List E),
      NodeOperator.step inputs operator = .ok (operator', out) →
      NodeOperator.hasPending operator' = false) : NodeOperator.Settling O Unit where
  kind _ := ()
  kind_step _ := rfl
  settled_step hs := h _ _ _ _ hs

open NodeOperator (Settling)

/-- What runs leave alone of a node, with the kind of its operator. -/
structure Frame (K : Type := Operator) where
  operator : K
  isInput : Bool
  consumers : List (Nat × Nat)
  inlets : Nat

variable {O E : Type}

namespace Graph

/-! ## Delivery -/

/-- What waits at an inlet. -/
def waitingAt (n : Node O E) (j : Nat) : List E := n.inbox.getD j []

theorem waitingAt_of_empty {n : Node O E} (h : ∀ d ∈ n.inbox, d = []) (j : Nat) :
    waitingAt n j = [] := by
  unfold waitingAt
  rw [List.getD_eq_getElem?_getD]
  cases hj : n.inbox[j]? with
  | none => rfl
  | some d => exact h d (List.mem_of_getElem? hj)

theorem deliver_length (d : List E) (edges : List (Nat × Nat)) (g : Graph O E) :
    (deliver d edges g).nodes.length = g.nodes.length := by
  induction edges generalizing g with
  | nil => rfl
  | cons e edges ih => exact (ih _).trans (List.length_modify ..)

theorem deliver_final (d : List E) (edges : List (Nat × Nat)) (g : Graph O E) :
    (deliver d edges g).order = g.order ∧ (deliver d edges g).isFinal = g.isFinal := by
  induction edges generalizing g with
  | nil => exact ⟨rfl, rfl⟩
  | cons e edges ih => exact ih _

/-- Nodes that are not fed stay as they are. -/
theorem deliver_other (d : List E) {edges : List (Nat × Nat)} {k : Nat}
    (hk : ∀ e ∈ edges, e.1 ≠ k) (g : Graph O E) : (deliver d edges g).nodes[k]? = g.nodes[k]? := by
  induction edges generalizing g with
  | nil => rfl
  | cons e edges ih =>
    refine (ih (fun e he => hk e (List.mem_cons_of_mem _ he)) _).trans ?_
    exact List.getElem?_modify_ne _ _ (hk e List.mem_cons_self)

theorem waitingAt_receive (n : Node O E) (inlet : Nat) (d : List E) {j : Nat}
    (hj : j < n.inbox.length) :
    waitingAt (n.receive inlet d) j = waitingAt n j ++ if inlet = j then d else [] := by
  unfold waitingAt Node.receive
  rw [List.getD_eq_getElem?_getD, List.getD_eq_getElem?_getD, List.getElem?_modify,
    List.getElem?_eq_getElem hj]
  by_cases h : inlet = j <;> simp [h]

/-! ## Work -/

section Work

variable [NodeOperator O E]

/-- The node has nothing to do. -/
def IdleAt (g : Graph O E) (i : Nat) : Prop := ∀ n, g.nodes[i]? = some n → n.hasWork = false

/-- No node has anything to do. -/
def Idle (g : Graph O E) : Prop := ∀ i, g.IdleAt i

theorem hasWork_eq_false_iff {g : Graph O E} : g.hasWork = false ↔ g.Idle := by
  rw [hasWork, List.any_eq_false]
  constructor
  · intro h i n hn
    simpa using h n (List.mem_of_getElem? hn)
  · intro h n hn
    obtain ⟨i, hi⟩ := List.mem_iff_getElem?.mp hn
    simpa using h i n hi

/-- Nothing waits at a node without anything to do. -/
theorem waitingAt_of_idle {n : Node O E} (h : n.hasWork = false) (j : Nat) : waitingAt n j = [] := by
  rw [Node.hasWork, Bool.or_eq_false_iff, Node.hasInput, List.any_eq_false] at h
  exact waitingAt_of_empty (fun d hd => by simpa using h.1 d hd) j

end Work

/-! ## Wiring -/

section Wiring

variable {K : Type}

/-- Every inlet has one producer, which stands before its consumer. -/
structure Wired (frames : List (Frame K)) (ins : Nat → List Nat) : Prop where
  nodup : ∀ (i : Nat) (f : Frame K), frames[i]? = some f → f.consumers.Nodup
  feeds : ∀ (i : Nat) (f : Frame K), frames[i]? = some f → ∀ c j,
    (c, j) ∈ f.consumers ↔ c < frames.length ∧ (ins c)[j]? = some i
  below : ∀ c, ∀ p ∈ ins c, p < c
  inputs : ∀ (i : Nat) (f : Frame K), frames[i]? = some f → f.isInput = true → ins i = []
  sources : ∀ (i : Nat) (f : Frame K), frames[i]? = some f → f.isInput = true → f.inlets = 1
  ports : ∀ (i : Nat) (f : Frame K), frames[i]? = some f → f.isInput = false →
    (ins i).length = f.inlets

variable {ins : Nat → List Nat} {i : Nat}

/-- A producer has its consumer's inlet on its list, and no other node has. -/
theorem Wired.mem_consumers {frames : List (Frame K)} (hw : Wired frames ins) {f : Frame K}
    (hf : frames[i]? = some f) {k j p : Nat} (hk : k < frames.length) (hp : (ins k)[j]? = some p) :
    (k, j) ∈ f.consumers ↔ p = i := by
  rw [hw.feeds i f hf, hp, Option.some.injEq]
  exact and_iff_right hk

theorem Wired.inlet_lt {frames : List (Frame K)} (hw : Wired frames ins) {f : Frame K}
    (hf : frames[i]? = some f) {j p : Nat} (hp : (ins i)[j]? = some p) : j < f.inlets := by
  obtain ⟨hj, -⟩ := List.getElem?_eq_some_iff.mp hp
  cases hin : f.isInput with
  | true => simp [hw.inputs i f hf hin] at hj
  | false => rwa [← hw.ports i f hf hin]

/-- A wiring does not depend on what operators stand at the nodes, but on their inlets. -/
theorem Wired.set_operator {frames : List (Frame K)} (hw : Wired frames ins) {f : Frame K}
    (hf : frames[i]? = some f) (operator : K) : Wired (frames.set i { f with operator }) ins := by
  have hcases : ∀ (k : Nat) (f' : Frame K), (frames.set i { f with operator })[k]? = some f' →
      ∃ f0, frames[k]? = some f0 ∧ f'.consumers = f0.consumers ∧ f'.inlets = f0.inlets ∧
        f'.isInput = f0.isInput := by
    intro k f' hf'
    by_cases hk : i = k
    · subst hk
      obtain ⟨hi, -⟩ := List.getElem?_eq_some_iff.mp hf
      rw [List.getElem?_set_self hi] at hf'
      obtain rfl := Option.some.inj hf'
      exact ⟨f, hf, rfl, rfl, rfl⟩
    · rw [List.getElem?_set_ne hk] at hf'
      exact ⟨f', hf', rfl, rfl, rfl⟩
  refine ⟨fun k f' hf' => ?_, fun k f' hf' c j => ?_, hw.below, fun k f' hf' hin => ?_,
    fun k f' hf' hin => ?_, fun k f' hf' hin => ?_⟩ <;>
    obtain ⟨f0, hf0, hc, hl, hi⟩ := hcases k f' hf'
  · rw [hc]
    exact hw.nodup k f0 hf0
  · rw [hc, List.length_set]
    exact hw.feeds k f0 hf0 c j
  · exact hw.inputs k f0 hf0 (hi ▸ hin)
  · rw [hl]
    exact hw.sources k f0 hf0 (hi ▸ hin)
  · rw [hl]
    exact hw.ports k f0 hf0 (hi ▸ hin)

end Wiring

end Graph

/-! ## What runs leave alone -/

variable {K : Type} [NodeOperator O E] [Settling O K]

def Node.frame (n : Node O E) : Frame K :=
  ⟨Settling.kind n.operator, n.isInput, n.consumers, n.inbox.length⟩

namespace Graph

def frames (g : Graph O E) : List (Frame K) := g.nodes.map Node.frame

theorem frames_getElem? (g : Graph O E) (i : Nat) :
    g.frames[i]? = (g.nodes[i]?).map Node.frame := by
  rw [frames, List.getElem?_map]

theorem frame_of_node {g : Graph O E} {i : Nat} {n : Node O E} (h : g.nodes[i]? = some n) :
    g.frames[i]? = some n.frame := by rw [frames_getElem?, h]; rfl

theorem length_frames (g : Graph O E) : g.frames.length = g.nodes.length := List.length_map ..

theorem frames_eq_of_nodes {g g' : Graph O E} (hlen : g'.nodes.length = g.nodes.length)
    (h : ∀ (k : Nat) (m' : Node O E), g'.nodes[k]? = some m' →
      ∃ m, g.nodes[k]? = some m ∧ m'.frame = m.frame) : g'.frames = g.frames := by
  refine List.ext_getElem? fun k => ?_
  rw [frames_getElem?, frames_getElem?]
  cases hk : g'.nodes[k]? with
  | none => rw [List.getElem?_eq_none (by rw [← hlen]; exact List.getElem?_eq_none_iff.mp hk)]
  | some m' =>
    obtain ⟨m, hm, hf⟩ := h k m' hk
    rw [hm, Option.map_some, Option.map_some, hf]

/-- What runs leave alone of a graph. -/
structure Kept (g g' : Graph O E) : Prop where
  frames : g'.frames = g.frames
  order : g'.order = g.order
  isFinal : g'.isFinal = g.isFinal

theorem Kept.refl (g : Graph O E) : Kept g g := ⟨rfl, rfl, rfl⟩

theorem Kept.trans {g g' g'' : Graph O E} (h : Kept g g') (h' : Kept g' g'') : Kept g g'' :=
  ⟨h'.frames.trans h.frames, h'.order.trans h.order, h'.isFinal.trans h.isFinal⟩

variable {ins : Nat → List Nat} {i : Nat}

theorem kept_set {g : Graph O E} {n m : Node O E} (hn : g.nodes[i]? = some n)
    (hm : m.frame = n.frame) : Kept g { g with nodes := g.nodes.set i m } := by
  refine ⟨?_, rfl, rfl⟩
  obtain ⟨hi, hi'⟩ := List.getElem?_eq_some_iff.mp (frame_of_node hn)
  unfold frames at hi hi' ⊢
  rw [List.map_set, hm, ← hi', List.set_getElem_self]

theorem frames_set (g : Graph O E) (i : Nat) (n : Node O E) (operator : O) :
    ({ g with nodes := g.nodes.set i { n with operator } } : Graph O E).frames =
      g.frames.set i { n.frame with operator := Settling.kind operator } := by
  unfold frames
  rw [List.map_set]
  rfl

/-- An input has an inlet. -/
theorem Wired.input_pos {g : Graph O E} (hw : Wired g.frames ins) {n : Node O E}
    (hn : g.nodes[i]? = some n) (hin : n.isInput = true) : 0 < n.inbox.length := by
  have hlen : n.inbox.length = 1 := hw.sources i _ (frame_of_node hn) hin
  omega

/-- An inlet of an input is fed by no node. -/
theorem Wired.input_unfed {g : Graph O E} (hw : Wired g.frames ins) {k : Nat} {m n : Node O E}
    (hm : g.nodes[k]? = some m) (hin : m.isInput = true) (hn : g.nodes[i]? = some n) (j : Nat) :
    (k, j) ∉ n.consumers := fun hmem => by
  obtain ⟨-, hp⟩ := (hw.feeds i _ (frame_of_node hn) k j).mp hmem
  rw [hw.inputs k _ (frame_of_node hm) hin] at hp
  exact absurd hp (by simp)

/-- An inlet that is fed gets what is delivered behind what waits there. -/
theorem deliver_node (d : List E) {edges : List (Nat × Nat)} (hn : edges.Nodup) {g : Graph O E}
    {k : Nat} {n : Node O E} (h : g.nodes[k]? = some n) :
    ∃ n', (deliver d edges g).nodes[k]? = some n' ∧ n'.operator = n.operator ∧
      n'.frame = n.frame ∧ ∀ j, j < n.inbox.length →
        waitingAt n' j = waitingAt n j ++ if (k, j) ∈ edges then d else [] := by
  induction edges generalizing g n with
  | nil => exact ⟨n, h, rfl, rfl, fun j _ => by simp⟩
  | cons e edges ih =>
    obtain ⟨c, inlet⟩ := e
    obtain ⟨he, hn⟩ := List.nodup_cons.mp hn
    by_cases hc : c = k
    · subst hc
      have h1 : (g.nodes.modify c (·.receive inlet d))[c]? = some (n.receive inlet d) := by
        rw [List.getElem?_modify_eq, h]
        rfl
      have hlen : (n.receive inlet d).inbox.length = n.inbox.length := List.length_modify ..
      obtain ⟨n', h2, h3, h4, h5⟩ := ih hn (g := { g with nodes := _ }) h1
      refine ⟨n', h2, h3, h4.trans ?_, fun j hj => ?_⟩
      · rw [Node.frame, Node.frame, hlen]
        rfl
      · rw [h5 j (by rw [hlen]; exact hj), waitingAt_receive n inlet d hj, List.append_assoc]
        congr 1
        by_cases hji : inlet = j
        · subst hji
          simp [he]
        · have hne : (c, j) ≠ (c, inlet) := fun e => hji (Prod.mk.inj e).2.symm
          simp [hji, List.mem_cons, Ne.symm hji]
    · have h1 : (g.nodes.modify c (·.receive inlet d))[k]? = some n := by
        rw [List.getElem?_modify_ne _ _ hc, h]
      obtain ⟨n', h2, h3, h4, h5⟩ := ih hn (g := { g with nodes := _ }) h1
      refine ⟨n', h2, h3, h4, fun j hj => ?_⟩
      rw [h5 j hj]
      have hiff : (k, j) ∈ (c, inlet) :: edges ↔ (k, j) ∈ edges := by
        rw [List.mem_cons]
        exact ⟨fun h => h.resolve_left fun e => hc (Prod.mk.inj e).1.symm, Or.inr⟩
      simp only [hiff]

end Graph

end DeltaView
