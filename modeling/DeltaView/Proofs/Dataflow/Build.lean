import DeltaView.Proofs.Dataflow.Ledger

/-!
# Building a graph

Every node that is added reads nodes that are there already, so a graph that is built node by node
stays wired, and no node in it has done anything.

* `edgesTo` lists the inlets of a new node that a node feeds. **`Wired.extend`**: the wiring of a
  graph with one more node, whatever operators stand in it.
* **`Open.add`**: a graph that is being built stays so with one more node.
* `Open.accounts`: the empty ledger tells what has happened in it.
-/

namespace DeltaView

namespace Graph

variable {O E : Type}

/-! ## Connections -/

/-- The inlets of a new node, from an inlet on, that node `i` feeds. -/
def edgesTo (target : Nat) : Nat → List Nat → Nat → List (Nat × Nat)
  | _, [], _ => []
  | inlet, x :: rest, i =>
    (if x = i then [(target, inlet)] else []) ++ edgesTo target (inlet + 1) rest i

theorem mem_edgesTo {target inlet i c j : Nat} {inputs : List Nat} :
    (c, j) ∈ edgesTo target inlet inputs i ↔
      c = target ∧ inlet ≤ j ∧ inputs[j - inlet]? = some i := by
  induction inputs generalizing inlet with
  | nil => simp [edgesTo]
  | cons x rest ih =>
    rw [edgesTo, List.mem_append, ih]
    rcases Nat.lt_trichotomy j inlet with hj | rfl | hj
    · constructor
      · rintro (h | ⟨-, h, -⟩)
        · split at h
          · simp only [List.mem_singleton, Prod.mk.injEq] at h
            omega
          · exact absurd h (by simp)
        · omega
      · rintro ⟨-, h, -⟩
        omega
    · rw [Nat.sub_self, List.getElem?_cons_zero, Option.some.injEq]
      by_cases hx : x = i
      · simp [hx]
      · simp [hx]
    · obtain ⟨m, rfl⟩ := Nat.exists_eq_add_of_lt hj
      have h1 : inlet + m + 1 - inlet = m + 1 := by omega
      have h2 : inlet + m + 1 - (inlet + 1) = m := by omega
      rw [h1, h2, List.getElem?_cons_succ]
      constructor
      · rintro (h | ⟨h, -, h'⟩)
        · split at h
          · simp only [List.mem_singleton, Prod.mk.injEq] at h
            omega
          · exact absurd h (by simp)
        · exact ⟨h, by omega, h'⟩
      · rintro ⟨h, -, h'⟩
        exact Or.inr ⟨h, by omega, h'⟩

theorem nodup_edgesTo (target inlet : Nat) (inputs : List Nat) (i : Nat) :
    (edgesTo target inlet inputs i).Nodup := by
  induction inputs generalizing inlet with
  | nil => exact List.nodup_nil
  | cons x rest ih =>
    rw [edgesTo]
    split
    · refine List.nodup_cons.mpr ⟨fun hm => ?_, ih (inlet + 1)⟩
      obtain ⟨-, h, -⟩ := mem_edgesTo.mp hm
      omega
    · exact ih (inlet + 1)

/-- The node, feeding some inlets more. -/
def feedAll (edges : List (Nat × Nat)) (n : Node O E) : Node O E :=
  { n with consumers := n.consumers ++ edges }

theorem connectAll_node (target inlet : Nat) (inputs : List Nat) (g : Graph O E) (i : Nat) :
    (connectAll target inlet inputs g).nodes[i]? =
      (g.nodes[i]?).map (feedAll (edgesTo target inlet inputs i)) := by
  induction inputs generalizing inlet g with
  | nil =>
    have : feedAll (O := O) (E := E) (edgesTo target inlet [] i) = id := by
      funext n
      exact congrArg (fun c => { n with consumers := c }) (List.append_nil n.consumers)
    rw [this, Option.map_id]
    rfl
  | cons x rest ih =>
    rw [connectAll, ih, connect, List.getElem?_modify, Option.map_eq_map, Option.map_map, edgesTo]
    congr 1
    funext n
    rw [Function.comp_apply]
    by_cases hx : x = i
    · rw [if_pos hx, if_pos hx]
      exact congrArg (fun c => { n with consumers := c }) (List.append_assoc ..)
    · rw [if_neg hx, if_neg hx]
      rfl

theorem connectAll_length (target inlet : Nat) (inputs : List Nat) (g : Graph O E) :
    (connectAll target inlet inputs g).nodes.length = g.nodes.length := by
  induction inputs generalizing inlet g with
  | nil => rfl
  | cons x rest ih => exact (ih (inlet + 1) _).trans (List.length_modify ..)

theorem connectAll_final (target inlet : Nat) (inputs : List Nat) (g : Graph O E) :
    (connectAll target inlet inputs g).isFinal = g.isFinal := by
  induction inputs generalizing inlet g with
  | nil => rfl
  | cons x rest ih => exact ih (inlet + 1) _

/-- The producers of the nodes, with those of one more node. -/
def insWith (ins : Nat → List Nat) (n : Nat) (inputs : List Nat) (i : Nat) : List Nat :=
  if i = n then inputs else ins i

@[simp] theorem insWith_self (ins : Nat → List Nat) (n : Nat) (inputs : List Nat) :
    insWith ins n inputs n = inputs := if_pos rfl

theorem insWith_of_lt {ins : Nat → List Nat} {n i : Nat} {inputs : List Nat} (h : i < n) :
    insWith ins n inputs i = ins i :=
  if_neg (Nat.ne_of_lt h)

/-- An inlet of an old node has the producer that it had, and one of the new node its input. -/
theorem getElem?_insWith_iff {ins : Nat → List Nat} {n c j i : Nat} {inputs : List Nat} :
    c < n + 1 ∧ (insWith ins n inputs c)[j]? = some i ↔
      c < n ∧ (ins c)[j]? = some i ∨ c = n ∧ inputs[j]? = some i := by
  rcases Nat.lt_trichotomy c n with hc | rfl | hc
  · simp [insWith_of_lt hc, hc, Nat.ne_of_lt hc, Nat.lt_succ_of_lt hc]
  · simp
  · constructor
    · rintro ⟨h, -⟩
      omega
    · rintro (⟨h, -⟩ | ⟨h, -⟩) <;> omega

/-! ## One more node -/

variable [NodeOperator O E]

/-- The graph with one more node, which reads the given ones. -/
def extend (g : Graph O E) (operator : O) (isInput : Bool) (inputs : List Nat) : Graph O E :=
  ((connectAll g.nodes.length 0 inputs g).add (Node.new operator isInput)).1

theorem addInput_eq {g : Graph O E} (h : g.isFinal = false) :
    g.addInput = .ok (g.extend NodeOperator.input true [], g.nodes.length) := by
  unfold addInput
  rw [if_neg (by simp [h])]
  rfl

theorem addOperator_eq {g : Graph O E} (h : g.isFinal = false) {operator : O}
    {inputs : List Nat} (hlen : inputs.length = NodeOperator.arity operator)
    (hin : ∀ i ∈ inputs, i < g.nodes.length) :
    g.addOperator operator inputs = .ok (g.extend operator false inputs, g.nodes.length) := by
  have hnone : inputs.find? (g.nodes.length ≤ ·) = none :=
    List.find?_eq_none.mpr fun i hi => by simpa using hin i hi
  have hn : ((connectAll g.nodes.length 0 inputs g).add (Node.new operator false)).2 =
      g.nodes.length := connectAll_length ..
  unfold addOperator
  rw [if_neg (by simp [h]), if_neg (not_not.mpr hlen), hnone]
  exact congrArg (fun n => Except.ok (g.extend operator false inputs, n)) hn

variable {g : Graph O E} {ins : Nat → List Nat} {operator : O} {isInput : Bool}
  {inputs : List Nat}

theorem extend_length : (g.extend operator isInput inputs).nodes.length = g.nodes.length + 1 := by
  rw [extend, add, List.length_append, connectAll_length, List.length_singleton]

theorem extend_old {i : Nat} (hi : i < g.nodes.length) :
    (g.extend operator isInput inputs).nodes[i]? =
      (g.nodes[i]?).map (feedAll (edgesTo g.nodes.length 0 inputs i)) := by
  rw [extend, add, List.getElem?_append_left (by rwa [connectAll_length]), connectAll_node]

theorem extend_new : (g.extend operator isInput inputs).nodes[g.nodes.length]? =
    some (Node.new operator isInput) := by
  rw [extend, add, List.getElem?_append_right (by rw [connectAll_length]), connectAll_length,
    Nat.sub_self]
  rfl

/-- A node of the longer graph is an old one, which may feed more, or the new one. -/
theorem extend_cases {i : Nat} {n' : Node O E}
    (h : (g.extend operator isInput inputs).nodes[i]? = some n') :
    (∃ n, g.nodes[i]? = some n ∧ n' = feedAll (edgesTo g.nodes.length 0 inputs i) n) ∨
      (i = g.nodes.length ∧ n' = Node.new operator isInput) := by
  obtain ⟨hi, -⟩ := List.getElem?_eq_some_iff.mp h
  rw [extend_length] at hi
  rcases Nat.lt_or_eq_of_le (Nat.le_of_lt_succ hi) with hi | rfl
  · rw [extend_old hi, Option.map_eq_some_iff] at h
    obtain ⟨n, hn, rfl⟩ := h
    exact Or.inl ⟨n, hn, rfl⟩
  · rw [extend_new] at h
    exact Or.inr ⟨rfl, (Option.some.inj h).symm⟩

/-! ## The wiring of a longer graph -/

section Wiring

variable {K : Type} [NodeOperator.Settling O K]

theorem Wired.empty : Wired (empty : Graph O E).frames fun _ => [] where
  nodup := fun _ _ h => by simp [frames, Graph.empty] at h
  feeds := fun _ _ h => by simp [frames, Graph.empty] at h
  below := fun _ _ h => absurd h List.not_mem_nil
  inputs := fun _ _ _ _ => rfl
  sources := fun _ _ h => by simp [frames, Graph.empty] at h
  ports := fun _ _ h => by simp [frames, Graph.empty] at h

/-- An old node's frame changes in its consumers alone; the new node has none. -/
theorem extend_frame_cases {i : Nat} {f : Frame K}
    (h : (g.extend operator isInput inputs).frames[i]? = some f) :
    (i < g.nodes.length ∧ ∃ f0, g.frames[i]? = some f0 ∧
        f = { f0 with consumers := f0.consumers ++ edgesTo g.nodes.length 0 inputs i }) ∨
      (i = g.nodes.length ∧ f = (Node.new operator isInput).frame) := by
  rw [frames_getElem?, Option.map_eq_some_iff] at h
  obtain ⟨n', hn', rfl⟩ := h
  rcases extend_cases hn' with ⟨n, hn, rfl⟩ | ⟨hi, rfl⟩
  · exact Or.inl ⟨(List.getElem?_eq_some_iff.mp hn).1, n.frame, frame_of_node hn, rfl⟩
  · exact Or.inr ⟨hi, rfl⟩

/-- The inlets that a node feeds in the longer graph. -/
theorem Wired.feeds_extend (hw : Wired g.frames ins) (hin : ∀ i ∈ inputs, i < g.nodes.length)
    {i : Nat} {f : Frame K} (hf : (g.extend operator isInput inputs).frames[i]? = some f)
    (c j : Nat) : (c, j) ∈ f.consumers ↔
      c < g.nodes.length + 1 ∧ (insWith ins g.nodes.length inputs c)[j]? = some i := by
  rw [getElem?_insWith_iff]
  rcases extend_frame_cases hf with ⟨-, f0, hf0, rfl⟩ | ⟨rfl, rfl⟩
  · rw [List.mem_append, hw.feeds i f0 hf0, mem_edgesTo, length_frames]
    simp
  · -- Nobody reads the new node.
    refine ⟨fun h => absurd h (by simp [Node.frame, Node.new]), ?_⟩
    rintro (⟨hc, hp⟩ | ⟨-, hp⟩)
    · have := hw.below c _ (List.mem_of_getElem? hp)
      omega
    · have := hin _ (List.mem_of_getElem? hp)
      omega

/-- The wiring of a graph with one more node. -/
theorem Wired.extend (hw : Wired g.frames ins) (hin : ∀ i ∈ inputs, i < g.nodes.length)
    (hports : if isInput then inputs = [] else inputs.length = NodeOperator.arity operator) :
    Wired (g.extend operator isInput inputs).frames (insWith ins g.nodes.length inputs) where
  nodup := fun i f hf => by
    rcases extend_frame_cases hf with ⟨-, f0, hf0, rfl⟩ | ⟨-, rfl⟩
    · refine List.Nodup.append (hw.nodup i f0 hf0) (nodup_edgesTo ..) fun e he he' => ?_
      obtain ⟨hc, -⟩ := (hw.feeds i f0 hf0 e.1 e.2).mp he
      obtain ⟨hc', -⟩ := mem_edgesTo.mp (show (e.1, e.2) ∈ _ from he')
      rw [length_frames] at hc
      omega
    · exact List.nodup_nil
  feeds := fun i f hf c j => by
    rw [length_frames, extend_length]
    exact hw.feeds_extend hin hf c j
  below := fun c p hp => by
    by_cases hc : c = g.nodes.length
    · subst hc
      rw [insWith_self] at hp
      exact hin p hp
    · rw [insWith, if_neg hc] at hp
      exact hw.below c p hp
  inputs := fun i f hf hi => by
    rcases extend_frame_cases hf with ⟨hlt, f0, hf0, rfl⟩ | ⟨rfl, rfl⟩
    · rw [insWith_of_lt hlt]
      exact hw.inputs i f0 hf0 hi
    · obtain rfl : isInput = true := hi
      rw [insWith_self]
      exact hports
  sources := fun i f hf hi => by
    rcases extend_frame_cases hf with ⟨-, f0, hf0, rfl⟩ | ⟨-, rfl⟩
    · exact hw.sources i f0 hf0 hi
    · obtain rfl : isInput = true := hi
      rfl
  ports := fun i f hf hi => by
    rcases extend_frame_cases hf with ⟨hlt, f0, hf0, rfl⟩ | ⟨rfl, rfl⟩
    · rw [insWith_of_lt hlt]
      exact hw.ports i f0 hf0 hi
    · obtain rfl : isInput = false := hi
      rw [insWith_self, Node.frame, Node.new, List.length_replicate]
      exact hports

end Wiring

/-! ## Graphs that are being built -/

section Building

variable {g : Graph} {ins : Nat → List Nat} {operator : Operator} {isInput : Bool}
  {inputs : List Nat}

/-- A node that has not done anything. -/
structure Fresh (n : Node) : Prop where
  inlets : n.inbox.length = n.operator.arity
  inbox : ∀ d ∈ n.inbox, d = []
  idle : n.operator.hasPending = false
  reached : n.operator.Reached (fun _ => []) [] (fun _ => False)

theorem Fresh.new (harity : isInput = true → operator.arity = 1) (h : operator.reset = operator) :
    Fresh (Node.new operator isInput) := by
  obtain ⟨hidle, hr⟩ := Operator.reached_reset operator
  rw [h] at hidle hr
  refine ⟨List.length_replicate.trans ?_, fun _ hd => (List.mem_replicate.mp hd).2, hidle, hr⟩
  split
  · rename_i hin
    exact (harity hin).symm
  · rfl

/-- A graph that is being built, with the producers of every node. -/
structure Open (g : Graph) (ins : Nat → List Nat) : Prop where
  wired : Wired g.frames ins
  isOpen : g.isFinal = false
  fresh : ∀ (i : Nat) (n : Node), g.nodes[i]? = some n → Fresh n
  beyond : ∀ i, g.nodes.length ≤ i → ins i = []

theorem Open.empty : Open .empty fun _ => [] where
  wired := .empty
  isOpen := rfl
  fresh := fun _ _ h => by simp [Graph.empty] at h
  beyond := fun _ _ => rfl

/-- **A graph that is being built stays so with one more node.** -/
theorem Open.add (h : Open g ins) (hin : ∀ i ∈ inputs, i < g.nodes.length)
    (hports : if isInput then inputs = [] else inputs.length = operator.arity)
    (harity : isInput = true → operator.arity = 1) (hreset : operator.reset = operator) :
    Open (g.extend operator isInput inputs) (insWith ins g.nodes.length inputs) where
  wired := h.wired.extend hin hports
  isOpen := (connectAll_final ..).trans h.isOpen
  fresh := fun i n' hn' => by
    rcases extend_cases hn' with ⟨n, hn, rfl⟩ | ⟨-, rfl⟩
    · obtain ⟨h1, h2, h3, h4⟩ := h.fresh i n hn
      exact ⟨h1, h2, h3, h4⟩
    · exact .new harity hreset
  beyond := fun i hi => by
    rw [extend_length] at hi
    rw [insWith, if_neg (by omega)]
    exact h.beyond i (by omega)

/-! ## Nothing has happened -/

/-- The ledger of a graph in which nothing has happened. -/
def Ledger.empty : Ledger := ⟨fun _ => [], fun _ _ => [], fun _ => [], fun _ _ => False⟩

theorem Fresh.waitingAt {n : Node} (h : Fresh n) (j : Nat) : waitingAt n j = [] :=
  waitingAt_of_empty h.inbox j

theorem Open.accounts (h : Open g ins) : Accounts g.nodes ins Ledger.empty := by
  intro i n hn
  have hfresh := h.fresh i n hn
  refine ⟨hfresh.inlets, hfresh.reached, fun j p _ => ?_, fun _ => ?_⟩
  · rw [hfresh.waitingAt j]
    exact .refl _
  · rw [hfresh.waitingAt 0]
    exact .refl _

end Building

end Graph

end DeltaView
