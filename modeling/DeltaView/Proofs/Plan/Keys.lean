import DeltaView.Proofs.Dataflow.Identity
import DeltaView.Proofs.Plan.Skeleton

/-!
# Circuits keep rows apart

The operators of a plan leave the keys of rows alone or make keys of their own, and the inputs of a
circuit are those of its collections. Both are read off the circuit's skeleton.

* `wire_keepsKeys`: by induction on the plan that is wired.
* **`ofPlan?_keepsKeys`**: so it is in the circuit of a plan, its sink left out.
-/

namespace DeltaView

namespace Operator

theorem keepsKeys_bare (op : Operator) : op.bare.KeepsKeys ↔ op.KeepsKeys := by
  cases op <;> exact Iff.rfl

theorem keepsKeys_reset (op : Operator) : op.reset.KeepsKeys ↔ op.KeepsKeys := by
  cases op <;> exact Iff.rfl

end Operator

/-! ## Wirings -/

namespace Wiring

variable {functions : RowFunctions} {objects : Nat → Nat} {w w' : Wiring} {n : Nat}

/-- Every operator keeps keys, and the inputs are those of collections. -/
structure KeepsKeys (w : Wiring) : Prop where
  keys : ∀ i op isInput, w.graph.kindAt i = some (op, isInput) → op.KeepsKeys
  inputs : ∀ i op, w.graph.kindAt i = some (op, true) →
    op = .input ∧ ∃ name, i ∈ w.inputs.of name
  named : ∀ name, ∀ i ∈ w.inputs.of name, w.graph.kindAt i = some (.input, true)

theorem KeepsKeys.empty : KeepsKeys .empty where
  keys _ _ _ h := absurd h (by simp [Graph.kindAt, Graph.frames, Wiring.empty, Graph.empty])
  inputs _ _ h := absurd h (by simp [Graph.kindAt, Graph.frames, Wiring.empty, Graph.empty])
  named _ _ h := absurd h List.not_mem_nil

/-- A node of a longer graph is an old one or the new one. -/
theorem kindAt_extend_cases {g : Graph} {operator : Operator} {isInput : Bool} {sources : List Nat}
    {i : Nat} {k : Operator × Bool} (h : (g.extend operator isInput sources).kindAt i = some k) :
    g.kindAt i = some k ∨ (i = g.nodes.length ∧ k = (operator.reset, isInput)) := by
  have hi := Graph.lt_of_kindAt h
  rw [Graph.extend_length] at hi
  rcases Nat.lt_or_eq_of_le (Nat.le_of_lt_succ hi) with hi | rfl
  · exact Or.inl ((Graph.kindAt_extend_old hi).symm.trans h)
  · exact Or.inr ⟨rfl, Option.some.inj (h.symm.trans Graph.kindAt_extend_new)⟩

/-- A node of a shorter graph stays what it is. -/
theorem kindAt_extend {g : Graph} {operator : Operator} {isInput : Bool} {sources : List Nat}
    {i : Nat} {k : Operator × Bool} (h : g.kindAt i = some k) :
    (g.extend operator isInput sources).kindAt i = some k :=
  (Graph.kindAt_extend_old (Graph.lt_of_kindAt h)).trans h

/-- What adding an operator gives, where it succeeds. -/
theorem add_eq {operator : Operator} {sources : List Nat}
    (h : w.add operator sources = .ok (w', n)) :
    w' = { w with graph := w.graph.extend operator false sources } ∧ n = w.graph.nodes.length := by
  obtain ⟨⟨g, m⟩, hadd, hw⟩ := bind_eq_ok.mp h
  obtain ⟨rfl, rfl⟩ := Prod.mk.inj (Except.ok.inj hw)
  unfold Graph.addOperator at hadd
  split at hadd
  · exact absurd hadd (by simp)
  · split at hadd
    · exact absurd hadd (by simp)
    · split at hadd
      · exact absurd hadd (by simp)
      · obtain ⟨rfl, rfl⟩ := Prod.mk.inj (Except.ok.inj hadd)
        exact ⟨rfl, Graph.connectAll_length ..⟩

theorem KeepsKeys.add (hw : w.KeepsKeys) {operator : Operator} {sources : List Nat}
    (hop : operator.KeepsKeys) (h : w.add operator sources = .ok (w', n)) : w'.KeepsKeys := by
  obtain ⟨rfl, -⟩ := add_eq h
  refine ⟨fun i op isInput hi => ?_, fun i op hi => ?_, fun name i hi => ?_⟩
  · rcases kindAt_extend_cases hi with hi | ⟨-, he⟩
    · exact hw.keys i op isInput hi
    · obtain ⟨rfl, -⟩ := Prod.mk.inj he
      exact (Operator.keepsKeys_reset operator).mpr hop
  · rcases kindAt_extend_cases hi with hi | ⟨-, he⟩
    · exact hw.inputs i op hi
    · exact absurd (Prod.mk.inj he).2 (by simp)
  · exact kindAt_extend (hw.named name i hi)

/-- A reference to a collection gets an input of its own. -/
theorem KeepsKeys.scan (hw : w.KeepsKeys) {name : String}
    (h : w.addInput name = .ok (w', n)) : w'.KeepsKeys := by
  obtain ⟨⟨g, k⟩, hadd, h⟩ := bind_eq_ok.mp h
  obtain ⟨rfl, rfl⟩ := Prod.mk.inj (Except.ok.inj h)
  unfold Graph.addInput at hadd
  split at hadd
  · exact absurd hadd (by simp)
  · obtain ⟨rfl, rfl⟩ := Prod.mk.inj (Except.ok.inj hadd)
    change Wiring.KeepsKeys ⟨w.graph.extend .input true [], w.inputs.add _ w.graph.nodes.length, _, _⟩
    refine ⟨fun i op isInput hi => ?_, fun i op hi => ?_, fun other i hi => ?_⟩
    · rcases kindAt_extend_cases hi with hi | ⟨-, he⟩
      · exact hw.keys i op isInput hi
      · obtain ⟨rfl, -⟩ := Prod.mk.inj he
        trivial
    · rcases kindAt_extend_cases hi with hi | ⟨rfl, he⟩
      · obtain ⟨hop, other, hother⟩ := hw.inputs i op hi
        exact ⟨hop, other, Inputs.mem_of_add.mpr (Or.inl hother)⟩
      · exact ⟨(Prod.mk.inj he).1, name, Inputs.mem_of_add.mpr (Or.inr ⟨rfl, rfl⟩)⟩
    · rcases Inputs.mem_of_add.mp hi with hi | ⟨-, rfl⟩
      · exact kindAt_extend (hw.named other i hi)
      · exact Graph.kindAt_extend_new

/-- The node of a subquery is looked up, or built. -/
theorem KeepsKeys.follow (hw : w.KeepsKeys) {p : Plan}
    {build : Wiring → Except Error (Wiring × Nat)}
    (hbuild : ∀ {w w' n}, KeepsKeys w → build w = .ok (w', n) → w'.KeepsKeys)
    (h : w.follow objects p build = .ok (w', n)) : w'.KeepsKeys := by
  have hcount : KeepsKeys { w with references := w.references + 1 } := ⟨hw.keys, hw.inputs, hw.named⟩
  unfold Wiring.follow at h
  dsimp only at h
  split at h
  · obtain ⟨rfl, -⟩ := Prod.mk.inj (Except.ok.inj h)
    exact hcount
  · obtain ⟨⟨w1, m⟩, h1, h2⟩ := bind_eq_ok.mp h
    obtain ⟨rfl, -⟩ := Prod.mk.inj (Except.ok.inj h2)
    obtain ⟨hkeys, hinputs, hnamed⟩ := hbuild hcount h1
    exact ⟨hkeys, hinputs, hnamed⟩

/-- A plan of one more step that takes one operator. -/
theorem KeepsKeys.step {q : Plan} {operator : Operator} (hop : operator.KeepsKeys)
    (ih : ∀ w' n, wire functions objects q w = .ok (w', n) → w'.KeepsKeys)
    (h : (do
      let (w, n) ← wire functions objects q w
      w.add operator [n]) = .ok (w', n)) : w'.KeepsKeys := by
  obtain ⟨⟨w1, k⟩, h1, h2⟩ := bind_eq_ok.mp h
  exact (ih w1 k h1).add hop h2

/-- A plan of one more step that takes two operators, one after the other. -/
theorem KeepsKeys.twoStep {q : Plan} {first second : Operator} (hfirst : first.KeepsKeys)
    (hsecond : second.KeepsKeys)
    (ih : ∀ w' n, wire functions objects q w = .ok (w', n) → w'.KeepsKeys)
    (h : (do
      let (w, n) ← wire functions objects q w
      let (w, n) ← w.add first [n]
      w.add second [n]) = .ok (w', n)) : w'.KeepsKeys := by
  obtain ⟨⟨w1, k⟩, h1, h2⟩ := bind_eq_ok.mp h
  obtain ⟨⟨w2, j⟩, h3, h4⟩ := bind_eq_ok.mp h2
  exact ((ih w1 k h1).add hfirst h3).add hsecond h4

/-- **Wiring a plan adds operators that keep keys**, and inputs of collections. -/
theorem wire_keepsKeys (functions : RowFunctions) (objects : Nat → Nat) (p : Plan)
    (hw : w.KeepsKeys) (h : wire functions objects p w = .ok (w', n)) : w'.KeepsKeys := by
  induction p generalizing w w' n with
  | scan name => exact hw.scan h
  | join kind mainKey joinedKey p q ihp ihq =>
    obtain ⟨⟨w1, k⟩, h1, h2⟩ := bind_eq_ok.mp h
    obtain ⟨⟨w2, j⟩, h3, h4⟩ := bind_eq_ok.mp h2
    refine (ihq (ihp hw h1) h3).add ?_ h4
    trivial
  | named label p ih | filter condition p ih | filterBy test p ih | project projection p ih
  | rank terms window p ih =>
    refine KeepsKeys.step ?_ (fun w' n => ih hw) h
    first | trivial | exact fun _ => rfl
  | group terms p ih =>
    refine KeepsKeys.twoStep ?_ ?_ (fun w' n => ih hw) h
    · trivial
    · exact fun _ => rfl
  | distinct p ih =>
    refine KeepsKeys.twoStep ?_ ?_ (fun w' n => ih hw) h
    · trivial
    · exact fun _ => rfl
  | output p ih =>
    have hselected : (Operator.map Row.selected).KeepsKeys := fun _ => rfl
    exact hw.follow (fun hw h => KeepsKeys.step hselected (fun w' n => ih hw) h) h

/-- So it is for the plan of a query. -/
theorem wireQuery_keepsKeys {p : Plan} {windowNode : Option Nat}
    (h : wireQuery functions objects p = .ok (w, n, windowNode)) : w.KeepsKeys := by
  unfold wireQuery at h
  split at h
  · obtain ⟨⟨w1, top⟩, h1, h2⟩ := bind_eq_ok.mp h
    obtain ⟨⟨w2, k⟩, h3, h4⟩ := bind_eq_ok.mp h2
    obtain ⟨rfl, -⟩ := Prod.mk.inj (Except.ok.inj h4)
    have hselected : (Operator.map Row.selected).KeepsKeys := fun _ => rfl
    exact (wire_keepsKeys functions objects _ .empty h1).add hselected h3
  · obtain ⟨⟨w1, k⟩, h1, h2⟩ := bind_eq_ok.mp h
    obtain ⟨rfl, -⟩ := Prod.mk.inj (Except.ok.inj h2)
    exact wire_keepsKeys functions objects _ .empty h1

end Wiring

/-! ## Circuits -/

namespace Circuit

variable {c c' : Circuit}

/-- Every operator but the sink keeps keys, and the inputs are those of collections. -/
structure KeepsKeys (c : Circuit) : Prop where
  keys : ∀ i f, c.graph.skeleton[i]? = some f → i ≠ c.sink → f.operator.KeepsKeys
  inputs : ∀ i f, c.graph.skeleton[i]? = some f → f.isInput = true →
    f.operator = .input ∧ ∃ name, i ∈ c.inputs.of name
  named : ∀ name, ∀ i ∈ c.inputs.of name,
    ∃ f, c.graph.skeleton[i]? = some f ∧ f.isInput = true

theorem KeepsKeys.fixed (h : c.KeepsKeys) (hf : c.Fixed c') : c'.KeepsKeys := by
  obtain ⟨hkeys, hinputs, hnamed⟩ := h
  rw [← hf.skeleton] at hkeys hinputs hnamed
  rw [← hf.sink] at hkeys
  rw [← hf.inputs] at hinputs hnamed
  exact ⟨hkeys, hinputs, hnamed⟩

/-- A ranking is no input, so it has a producer, and it is one of every circuit that goes on as this
one. -/
theorem KeepsKeys.exists_ranking (h : c.KeepsKeys) (hf : c'.Fixed c) {ins : Nat → List Nat}
    (hw : Graph.Wired c.graph.frames ins) {i : Nat} {n : Node}
    {compare : Value → Value → Ordering} {s : WindowState} (hn : c.graph.nodes[i]? = some n)
    (hlen : n.inbox.length = n.operator.arity) (hop : n.operator = .window compare s) :
    ∃ m, (ins i)[0]? = some m ∧ (m, compare) ∈ c'.graph.rankings := by
  have hframe := Graph.frame_of_node hn
  have hin : n.isInput = false := Bool.eq_false_iff.mpr fun hin => by
    obtain ⟨hinput, -⟩ := h.inputs i _ (Graph.skeleton_of_node hn) hin
    rw [hop] at hinput
    exact absurd hinput (by simp [Operator.bare])
  have hports : (ins i).length = 1 := by
    rw [hop] at hlen
    exact (hw.ports i _ hframe hin).trans hlen
  have hm := List.getElem?_eq_getElem (hports ▸ Nat.one_pos : 0 < (ins i).length)
  exact ⟨_, hm, Graph.mem_rankings_of_wired hw hf.skeleton hn hop hm⟩

/-- **In the circuit of a plan every operator but the sink keeps keys.** -/
theorem ofPlan?_keepsKeys {functions : RowFunctions} {objects : Nat → Nat} {p : Plan}
    (h : ofPlan? functions objects p = .ok c) : c.KeepsKeys := by
  obtain ⟨⟨w, n, windowNode⟩, hw, h⟩ := bind_eq_ok.mp h
  obtain ⟨⟨w', sink⟩, hadd, h⟩ := bind_eq_ok.mp h
  obtain ⟨graph, hfinal, h⟩ := bind_eq_ok.mp h
  obtain rfl := Except.ok.inj h
  have hkeeps := Wiring.wireQuery_keepsKeys hw
  obtain ⟨rfl, rfl⟩ := Wiring.add_eq hadd
  have hkind : ∀ i, graph.kindAt i =
      (w.graph.extend (.output []) false [n]).kindAt i := fun i => by
    rw [Graph.kindAt, Graph.kindAt, Graph.frames_getElem?, Graph.frames_getElem?,
      Graph.finalize_nodes hfinal]
  refine ⟨fun i f hf hi => ?_, fun i f hf hin => ?_, fun name i hi => ?_⟩
  · obtain ⟨op, hop, hbare⟩ := Graph.kindAt_of_skeleton hf
    rw [hkind] at hop
    rcases Wiring.kindAt_extend_cases hop with hop | ⟨heq, -⟩
    · rw [hbare]
      exact (Operator.keepsKeys_bare op).mpr (hkeeps.keys i op _ hop)
    · exact absurd heq hi
  · obtain ⟨op, hop, hbare⟩ := Graph.kindAt_of_skeleton hf
    rw [hkind, hin] at hop
    rcases Wiring.kindAt_extend_cases hop with hop | ⟨-, he⟩
    · obtain ⟨rfl, name, hname⟩ := hkeeps.inputs i op hop
      exact ⟨hbare, name, hname⟩
    · exact absurd (Prod.mk.inj he).2 (by simp)
  · have hnamed := hkeeps.named name i hi
    exact Graph.skeleton_of_kindAt ((hkind i).trans (Wiring.kindAt_extend hnamed))

end Circuit

end DeltaView
