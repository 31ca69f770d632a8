import DeltaView.Proofs.Plan.Circuit

/-!
# Skeletons of circuits

What the nodes of a graph are, but for their states and windows. Nothing that is done to a circuit
changes its skeleton, so what can be read off it holds of a circuit at all times.

* `Graph.rankings`: the nodes that rankings read, with how those compare values.
  **`mem_rankings_of_wired`**: a ranking is one of every graph with the same skeleton.
* `Circuit.Fixed`: what nothing changes that is done to a circuit.
-/

namespace DeltaView

/-! ## Operators -/

namespace Operator

/-- The operator at its beginning, with a window that shows everything. -/
def bare : Operator → Operator
  | .window compare _ => .window compare (.start .unbounded)
  | op => op.reset

/-- How the operator of a ranking compares values. -/
def comparison? : Operator → Option (Value → Value → Ordering)
  | .window compare _ => some compare
  | _ => none

theorem bare_reset (op : Operator) : op.reset.bare = op.bare := by cases op <;> rfl

theorem bare_arity (op : Operator) : op.bare.arity = op.arity := by cases op <;> rfl

theorem comparison?_bare (op : Operator) : op.bare.comparison? = op.comparison? := by
  cases op <;> rfl

end Operator

/-! ## Graphs -/

namespace Graph

/-- What the nodes of a graph are, but for their states and windows. -/
def skeleton (g : Graph) : List Frame :=
  g.frames.map fun f => { f with operator := f.operator.bare }

variable {g g' : Graph} {ins : Nat → List Nat} {i : Nat}

theorem skeleton_of_kept (h : Kept g g') : g'.skeleton = g.skeleton := by
  rw [skeleton, skeleton, h.frames]

theorem skeleton_of_node {n : Node} (h : g.nodes[i]? = some n) :
    g.skeleton[i]? = some { n.frame with operator := n.operator.bare } := by
  rw [skeleton, List.getElem?_map, frame_of_node h, Option.map_some]
  exact congrArg (fun b => some { n.frame with operator := b }) (Operator.bare_reset n.operator)

theorem node_of_skeleton {f : Frame} (h : g.skeleton[i]? = some f) :
    ∃ n, g.nodes[i]? = some n ∧ f = { n.frame with operator := n.operator.bare } := by
  rw [skeleton, List.getElem?_map, frames_getElem?, Option.map_map, Option.map_eq_some_iff] at h
  obtain ⟨n, hn, rfl⟩ := h
  refine ⟨n, hn, ?_⟩
  show { n.frame with operator := n.operator.reset.bare } = _
  rw [Operator.bare_reset]

/-- A node of the skeleton, as it was at its beginning. -/
theorem kindAt_of_skeleton {f : Frame} (h : g.skeleton[i]? = some f) :
    ∃ op, g.kindAt i = some (op, f.isInput) ∧ f.operator = op.bare := by
  rw [skeleton, List.getElem?_map, Option.map_eq_some_iff] at h
  obtain ⟨f0, hf0, rfl⟩ := h
  exact ⟨f0.operator, by rw [kindAt, hf0]; rfl, rfl⟩

theorem skeleton_of_kindAt {op : Operator} {isInput : Bool} (h : g.kindAt i = some (op, isInput)) :
    ∃ f, g.skeleton[i]? = some f ∧ f.isInput = isInput := by
  obtain ⟨f, hf, hk⟩ := Option.map_eq_some_iff.mp h
  refine ⟨{ f with operator := f.operator.bare }, ?_, (Prod.mk.inj hk).2⟩
  rw [skeleton, List.getElem?_map, hf]
  rfl

theorem finalize_nodes (h : g.finalize = .ok g') : g'.nodes = g.nodes := by
  unfold finalize at h
  split at h
  · rw [Except.ok.inj h]
  · dsimp only at h
    split at h
    · exact absurd h (by simp)
    · rw [← Except.ok.inj h]

/-- A request turns a window, so it changes nothing of the skeleton. -/
theorem skeleton_requestWindow (g : Graph) (i : Nat) (u : Window.Update) :
    (g.requestWindow i u).skeleton = g.skeleton := by
  unfold requestWindow
  split
  · rename_i n hn
    split
    · rename_i compare s hop
      obtain ⟨hi, hget⟩ := List.getElem?_eq_some_iff.mp hn
      refine List.ext_getElem? fun k => ?_
      rw [skeleton, skeleton, List.getElem?_map, List.getElem?_map, frames_getElem?,
        frames_getElem?]
      by_cases hk : i = k
      · subst hk
        rw [List.getElem?_set_self hi, hn, Option.map_some, Option.map_some, Option.map_some,
          Option.map_some, Node.frame, Node.frame, hop]
        rfl
      · rw [List.getElem?_set_ne hk]
    · rfl
  · rfl

/-! ### Rankings -/

/-- The nodes that rankings read, each with how the ranking compares values. -/
def rankings (g : Graph) : List (Nat × (Value → Value → Ordering)) :=
  g.nodes.zipIdx.flatMap fun (source, m) =>
    source.consumers.filterMap fun (n, _) =>
      ((g.nodes[n]?).bind fun node => node.operator.comparison?).map (m, ·)

theorem mem_rankings {m n inlet : Nat} {compare : Value → Value → Ordering} {source node : Node}
    (hm : g.nodes[m]? = some source) (he : (n, inlet) ∈ source.consumers)
    (hn : g.nodes[n]? = some node) (hc : node.operator.comparison? = some compare) :
    (m, compare) ∈ g.rankings := by
  refine List.mem_flatMap.mpr ⟨(source, m), List.mk_mem_zipIdx_iff_getElem?.mpr hm, ?_⟩
  refine List.mem_filterMap.mpr ⟨(n, inlet), he, ?_⟩
  dsimp only
  rw [hn, Option.bind_some, hc, Option.map_some]

/-- A ranking is one of every graph with the same skeleton. -/
theorem mem_rankings_of_wired (hw : Wired g.frames ins) (h : g.skeleton = g'.skeleton) {m : Nat}
    {n : Node} {compare : Value → Value → Ordering} {s : WindowState} (hn : g.nodes[i]? = some n)
    (hop : n.operator = .window compare s) (hm : (ins i)[0]? = some m) :
    (m, compare) ∈ g'.rankings := by
  have hi := (List.getElem?_eq_some_iff.mp (frame_of_node hn)).1
  have hlt := hw.below i m (List.mem_of_getElem? hm)
  have hsource := List.getElem?_eq_getElem (hlt.trans (length_frames g ▸ hi))
  have hfeeds := (hw.feeds m _ (frame_of_node hsource) i 0).mpr ⟨hi, hm⟩
  have hskm := skeleton_of_node hsource
  have hski := skeleton_of_node hn
  rw [h] at hskm hski
  obtain ⟨source', hsource', hes⟩ := node_of_skeleton hskm
  obtain ⟨n', hn', hen⟩ := node_of_skeleton hski
  have hfeeds' : (i, 0) ∈ source'.consumers := by
    rw [← show _ = source'.consumers from congrArg Frame.consumers hes]
    exact hfeeds
  refine mem_rankings hsource' hfeeds' hn' ?_
  rw [← Operator.comparison?_bare, ← show _ = n'.operator.bare from congrArg Frame.operator hen,
    Operator.comparison?_bare, hop]
  rfl

end Graph

/-! ## Circuits -/

namespace Circuit

variable {c c' c'' : Circuit}

/-- What nothing changes that is done to a circuit. -/
structure Fixed (c c' : Circuit) : Prop where
  skeleton : c'.graph.skeleton = c.graph.skeleton
  inputs : c'.inputs = c.inputs
  sink : c'.sink = c.sink

theorem Fixed.refl (c : Circuit) : c.Fixed c := ⟨rfl, rfl, rfl⟩

theorem Fixed.trans (h : c.Fixed c') (h' : c'.Fixed c'') : c.Fixed c'' :=
  ⟨h'.skeleton.trans h.skeleton, h'.inputs.trans h.inputs, h'.sink.trans h.sink⟩

theorem Fixed.length (h : c.Fixed c') : c'.graph.nodes.length = c.graph.nodes.length := by
  have := congrArg List.length h.skeleton
  simpa only [Graph.skeleton, List.length_map, Graph.length_frames] using this

/-- A graph that goes on with its nodes what they are. -/
theorem Fixed.of_kept {graph : Graph} (h : Graph.Kept c.graph graph) :
    c.Fixed (c.withGraph graph) := ⟨Graph.skeleton_of_kept h, rfl, rfl⟩

end Circuit

end DeltaView
