import DeltaView.Proofs.Dataflow.Build
import DeltaView.Proofs.Except
import DeltaView.Proofs.Plan.Rows
import DeltaView.Proofs.Table

/-!
# What wiring builds

`Graph.Computes` says that the rows of a plan come out at a node: there stands the operator of the
plan's last step, and it reads nodes where the rows of the plans below come out. It looks at
nothing behind the node, so it survives whatever is built, or changed, there.

* `Inputs.Apart`: no two references share an input.
* `Wiring.Built`: every node that is kept for a subquery computes it, and the inputs are apart.
* **`wire_spec`**: wiring a plan gives a node that computes it, and leaves the nodes that were
  there what they are. `wireQuery_spec`: so it is for the plan of a query.
-/

namespace DeltaView

namespace Graph

/-! ## Nodes of a plan -/

/-- The operator of a node at its beginning, and whether the node is an input. -/
def kindAt (g : Graph) (i : Nat) : Option (Operator × Bool) :=
  (g.frames[i]?).map fun f => (f.operator, f.isInput)

/-- A node with an operator that reads the given nodes, which stand before it. -/
structure Stands (g : Graph) (ins : Nat → List Nat) (n : Nat) (operator : Operator)
    (sources : List Nat) : Prop where
  kind : g.kindAt n = some (operator, false)
  ins : ins n = sources
  below : ∀ m ∈ sources, m < n

/-- **The rows of a plan come out at a node.** -/
def Computes (functions : RowFunctions) (inputs : String → List Nat) (g : Graph)
    (ins : Nat → List Nat) : Plan → Nat → Prop
  | .scan name, n => n ∈ inputs name ∧ g.kindAt n = some (.input, true)
  | .named label p, n =>
    ∃ m, Computes functions inputs g ins p m ∧ g.Stands ins n (.map (Row.named label)) [m]
  | .join kind mainKey joinedKey p q, n =>
    ∃ m m', Computes functions inputs g ins p m ∧ Computes functions inputs g ins q m' ∧
      g.Stands ins n (Wiring.joinOperator kind mainKey joinedKey) [m, m']
  | .filter condition p, n =>
    ∃ m, Computes functions inputs g ins p m ∧
      g.Stands ins n (.filter fun r => condition.holds r.value) [m]
  | .filterBy test p, n =>
    ∃ m, Computes functions inputs g ins p m ∧
      g.Stands ins n (.filter fun r => (functions test r.value).isTruthy) [m]
  | .project projection p, n =>
    ∃ m, Computes functions inputs g ins p m ∧
      g.Stands ins n (Wiring.projectOperator functions projection) [m]
  | .group terms p, n =>
    ∃ m k, Computes functions inputs g ins p m ∧
      g.Stands ins k (.group terms.rule .empty) [m] ∧
      g.Stands ins n (.map (Plan.withGroupFields terms)) [k]
  | .distinct p, n =>
    ∃ m k, Computes functions inputs g ins p m ∧
      g.Stands ins k (.distinct (fun r => r.value.selected) .empty) [m] ∧
      g.Stands ins n (.map Row.asSelected) [k]
  | .rank terms window p, n =>
    ∃ m, Computes functions inputs g ins p m ∧
      g.Stands ins n (.window (OrderTerm.compareRows terms) (.start window)) [m]
  | .output p, n =>
    ∃ m, Computes functions inputs g ins p m ∧ g.Stands ins n (.map Row.selected) [m]

variable {functions : RowFunctions} {inputs inputs' : String → List Nat} {g g' : Graph}
  {ins ins' : Nat → List Nat}

/-- The graphs agree on the nodes up to one of them. -/
def AgreeTo (g g' : Graph) (ins ins' : Nat → List Nat) (n : Nat) : Prop :=
  ∀ i, i ≤ n → g'.kindAt i = g.kindAt i ∧ ins' i = ins i

theorem AgreeTo.mono {n m : Nat} (h : AgreeTo g g' ins ins' n) (hm : m ≤ n) :
    AgreeTo g g' ins ins' m := fun i hi => h i (Nat.le_trans hi hm)

theorem AgreeTo.of_frames (h : g'.frames = g.frames) (n : Nat) : AgreeTo g g' ins ins n :=
  fun _ _ => ⟨by rw [kindAt, kindAt, h], rfl⟩

theorem Stands.agree {n : Nat} {operator : Operator} {sources : List Nat}
    (h : g.Stands ins n operator sources) (ha : AgreeTo g g' ins ins' n) :
    g'.Stands ins' n operator sources :=
  ⟨(ha n le_rfl).1.trans h.kind, (ha n le_rfl).2.trans h.ins, h.below⟩

theorem Stands.source_le {n m : Nat} {operator : Operator} {sources : List Nat}
    (h : g.Stands ins n operator sources) (hm : m ∈ sources) : m ≤ n :=
  Nat.le_of_lt (h.below m hm)

/-- What comes out at a node depends on the nodes up to it alone. -/
theorem Computes.agree (hin : ∀ name n, n ∈ inputs name → n ∈ inputs' name) :
    ∀ {p : Plan} {n : Nat}, Computes functions inputs g ins p n → AgreeTo g g' ins ins' n →
      Computes functions inputs' g' ins' p n
  | .scan name, n, ⟨h, hk⟩, ha => ⟨hin name n h, (ha n le_rfl).1.trans hk⟩
  | .named _ p, _, ⟨m, h, hs⟩, ha =>
    ⟨m, agree hin (p := p) h (ha.mono (hs.source_le List.mem_cons_self)), hs.agree ha⟩
  | .join _ _ _ p q, _, ⟨m, m', h, h', hs⟩, ha =>
    ⟨m, m', agree hin (p := p) h (ha.mono (hs.source_le List.mem_cons_self)),
      agree hin (p := q) h' (ha.mono (hs.source_le (List.mem_cons_of_mem _ List.mem_cons_self))),
      hs.agree ha⟩
  | .filter _ p, _, ⟨m, h, hs⟩, ha =>
    ⟨m, agree hin (p := p) h (ha.mono (hs.source_le List.mem_cons_self)), hs.agree ha⟩
  | .filterBy _ p, _, ⟨m, h, hs⟩, ha =>
    ⟨m, agree hin (p := p) h (ha.mono (hs.source_le List.mem_cons_self)), hs.agree ha⟩
  | .project _ p, _, ⟨m, h, hs⟩, ha =>
    ⟨m, agree hin (p := p) h (ha.mono (hs.source_le List.mem_cons_self)), hs.agree ha⟩
  | .group _ p, _, ⟨m, k, h, hk, hs⟩, ha =>
    have hak := ha.mono (hs.source_le List.mem_cons_self)
    ⟨m, k, agree hin (p := p) h (hak.mono (hk.source_le List.mem_cons_self)), hk.agree hak,
      hs.agree ha⟩
  | .distinct p, _, ⟨m, k, h, hk, hs⟩, ha =>
    have hak := ha.mono (hs.source_le List.mem_cons_self)
    ⟨m, k, agree hin (p := p) h (hak.mono (hk.source_le List.mem_cons_self)), hk.agree hak,
      hs.agree ha⟩
  | .rank _ _ p, _, ⟨m, h, hs⟩, ha =>
    ⟨m, agree hin (p := p) h (ha.mono (hs.source_le List.mem_cons_self)), hs.agree ha⟩
  | .output p, _, ⟨m, h, hs⟩, ha =>
    ⟨m, agree hin (p := p) h (ha.mono (hs.source_le List.mem_cons_self)), hs.agree ha⟩

theorem lt_of_kindAt {n : Nat} {k : Operator × Bool} (h : g.kindAt n = some k) :
    n < g.nodes.length := by
  obtain ⟨f, hf, -⟩ := Option.map_eq_some_iff.mp h
  rw [← length_frames]
  exact (List.getElem?_eq_some_iff.mp hf).1

theorem Computes.lt_length {p : Plan} {n : Nat} (h : Computes functions inputs g ins p n) :
    n < g.nodes.length := by
  cases p with
  | scan name => exact lt_of_kindAt h.2
  | join kind mainKey joinedKey p q =>
    obtain ⟨m, m', -, -, hs⟩ := h
    exact lt_of_kindAt hs.kind
  | group terms p =>
    obtain ⟨m, k, -, -, hs⟩ := h
    exact lt_of_kindAt hs.kind
  | distinct p =>
    obtain ⟨m, k, -, -, hs⟩ := h
    exact lt_of_kindAt hs.kind
  | _ =>
    obtain ⟨m, -, hs⟩ := h
    exact lt_of_kindAt hs.kind

theorem kindAt_extend_new {operator : Operator} {isInput : Bool} {sources : List Nat} :
    (g.extend operator isInput sources).kindAt g.nodes.length = some (operator.reset, isInput) := by
  rw [kindAt, frame_of_node extend_new]
  rfl

theorem kindAt_extend_old {operator : Operator} {isInput : Bool} {sources : List Nat} {i : Nat}
    (hi : i < g.nodes.length) : (g.extend operator isInput sources).kindAt i = g.kindAt i := by
  rw [kindAt, kindAt, frames_getElem?, frames_getElem?, extend_old hi, Option.map_map,
    Option.map_map, Option.map_map]
  rfl

end Graph

/-! ## Inputs -/

namespace Inputs

variable {i : Inputs} {name other : String} {n m : Nat}

theorem of_add (i : Inputs) (name : String) (n : Nat) (other : String) :
    (i.add name n).of other = if name = other then i.of name ++ [n] else i.of other := by
  unfold add
  rw [of, Table.get?_put]
  split
  · rfl
  · rfl

/-- An input is one that was there, or the one that is added. -/
theorem mem_of_add : m ∈ (i.add name n).of other ↔ m ∈ i.of other ∨ name = other ∧ m = n := by
  rw [of_add]
  split
  · rename_i h
    subst h
    simp
  · rename_i h
    simp [h]

/-- **No two references share an input**, be they to one collection or to two. -/
structure Apart (i : Inputs) : Prop where
  nodup : ∀ name, (i.of name).Nodup
  apart : ∀ a b n, n ∈ i.of a → n ∈ i.of b → a = b

theorem Apart.nil : Apart [] where
  nodup _ := List.nodup_nil
  apart _ _ _ h := absurd h List.not_mem_nil

theorem Apart.add (h : i.Apart) (hn : ∀ other, n ∉ i.of other) (name : String) :
    (i.add name n).Apart where
  nodup other := by
    rw [of_add]
    split
    · exact List.nodup_append.mpr ⟨h.nodup name, List.nodup_singleton n, fun a ha b hb hab =>
        hn name (List.mem_singleton.mp hb ▸ hab ▸ ha)⟩
    · exact h.nodup other
  apart a b m ha hb := by
    rcases mem_of_add.mp ha with ha | ⟨hna, rfl⟩ <;> rcases mem_of_add.mp hb with hb | ⟨hnb, hmn⟩
    · exact h.apart a b m ha hb
    · exact absurd (hmn ▸ ha) (hn a)
    · exact absurd hb (hn b)
    · exact hna.symm.trans hnb

end Inputs

/-! ## Wirings -/

namespace Wiring

open Graph (Computes Stands Open AgreeTo)

variable {functions : RowFunctions} {objects : Nat → Nat} {w w' w'' : Wiring}
  {ins ins' ins'' : Nat → List Nat}

/-- Every node that is kept for a subquery computes it, and no two references to collections share
an input. -/
structure Built (functions : RowFunctions) (w : Wiring) (ins : Nat → List Nat) : Prop where
  isOpen : Open w.graph ins
  computes : ∀ object p n, w.subqueries.get? (object, p) = some n →
    Computes functions w.inputs.of w.graph ins p n
  inputs : w.inputs.Apart
  below : ∀ name, ∀ n ∈ w.inputs.of name, n < w.graph.nodes.length

/-- One wiring goes on from another one. -/
structure Grows (w w' : Wiring) (ins ins' : Nat → List Nat) : Prop where
  inputs : ∀ name n, n ∈ w.inputs.of name → n ∈ w'.inputs.of name
  graph : ∀ i, i < w.graph.nodes.length →
    w'.graph.kindAt i = w.graph.kindAt i ∧ ins' i = ins i
  length : w.graph.nodes.length ≤ w'.graph.nodes.length

theorem Grows.refl (w : Wiring) (ins : Nat → List Nat) : Grows w w ins ins :=
  ⟨fun _ _ => id, fun _ _ => ⟨rfl, rfl⟩, le_rfl⟩

theorem Grows.trans (h : Grows w w' ins ins') (h' : Grows w' w'' ins' ins'') :
    Grows w w'' ins ins'' where
  inputs := fun name n hn => h'.inputs name n (h.inputs name n hn)
  graph := fun i hi => by
    obtain ⟨h1, h2⟩ := h.graph i hi
    obtain ⟨h3, h4⟩ := h'.graph i (Nat.lt_of_lt_of_le hi h.length)
    exact ⟨h3.trans h1, h4.trans h2⟩
  length := h.length.trans h'.length

theorem Grows.agreeTo (h : Grows w w' ins ins') {n : Nat} (hn : n < w.graph.nodes.length) :
    AgreeTo w.graph w'.graph ins ins' n := fun i hi => h.graph i (Nat.lt_of_le_of_lt hi hn)

theorem Grows.computes (h : Grows w w' ins ins') {p : Plan} {n : Nat}
    (hc : Computes functions w.inputs.of w.graph ins p n) :
    Computes functions w'.inputs.of w'.graph ins' p n :=
  hc.agree h.inputs (h.agreeTo hc.lt_length)

theorem Grows.stands (h : Grows w w' ins ins') {n : Nat} {operator : Operator} {sources : List Nat}
    (hs : w.graph.Stands ins n operator sources) : w'.graph.Stands ins' n operator sources :=
  hs.agree (h.agreeTo (Graph.lt_of_kindAt hs.kind))

theorem Built.empty (functions : RowFunctions) : Built functions .empty fun _ => [] where
  isOpen := .empty
  computes := fun _ _ _ h => absurd h (by simp [Wiring.empty, Table.get?])
  inputs := .nil
  below := fun _ _ h => absurd h List.not_mem_nil

/-- How many references have been met concerns no node. -/
theorem Built.count (hb : Built functions w ins) (k : Nat) :
    Built functions { w with references := k } ins :=
  ⟨hb.isOpen, hb.computes, hb.inputs, hb.below⟩

/-- A wiring whose graph has one node more. -/
theorem Built.extend (hb : Built functions w ins) (operator : Operator) (isInput : Bool)
    (sources : List Nat) (hin : ∀ i ∈ sources, i < w.graph.nodes.length)
    (hports : if isInput then sources = [] else sources.length = operator.arity)
    (harity : isInput = true → operator.arity = 1) (hreset : operator.reset = operator) :
    Built functions { w with graph := w.graph.extend operator isInput sources }
        (Graph.insWith ins w.graph.nodes.length sources) ∧
      Grows w { w with graph := w.graph.extend operator isInput sources } ins
        (Graph.insWith ins w.graph.nodes.length sources) := by
  have hlength : (w.graph.extend operator isInput sources).nodes.length =
      w.graph.nodes.length + 1 := Graph.extend_length
  have hgrow : Grows w { w with graph := w.graph.extend operator isInput sources } ins
      (Graph.insWith ins w.graph.nodes.length sources) :=
    ⟨fun _ _ => id,
      fun i hi => ⟨Graph.kindAt_extend_old hi, if_neg (Nat.ne_of_lt hi)⟩,
      hlength ▸ Nat.le_succ _⟩
  exact ⟨⟨hb.isOpen.add hin hports harity hreset,
    fun k p n hn => hgrow.computes (hb.computes k p n hn), hb.inputs,
    fun name n hn => Nat.lt_of_lt_of_le (hb.below name n hn) hgrow.length⟩, hgrow⟩

/-- An operator can be added, and stands at its node. -/
theorem add_spec (hb : Built functions w ins) (operator : Operator) (sources : List Nat)
    (hreset : operator.reset = operator) (hlen : sources.length = operator.arity)
    (hin : ∀ i ∈ sources, i < w.graph.nodes.length) :
    ∃ w' n ins', w.add operator sources = .ok (w', n) ∧ Built functions w' ins' ∧
      Grows w w' ins ins' ∧ w'.graph.Stands ins' n operator sources ∧
      w'.graph.nodes.length = n + 1 := by
  obtain ⟨hb', hgrow⟩ := hb.extend operator false sources hin hlen nofun hreset
  refine ⟨_, _, _, ?_, hb', hgrow, ⟨?_, if_pos rfl, hin⟩, Graph.extend_length⟩
  · exact bind_eq_ok.mpr ⟨_, Graph.addOperator_eq hb.isOpen.isOpen hlen hin, rfl⟩
  · rw [Graph.kindAt_extend_new, hreset]

/-- An operator that reads one node can be added. -/
theorem add_one_spec (hb : Built functions w ins) (operator : Operator) {m : Nat}
    (hreset : operator.reset = operator) (harity : operator.arity = 1)
    (hm : m < w.graph.nodes.length) :
    ∃ w' n ins', w.add operator [m] = .ok (w', n) ∧ Built functions w' ins' ∧
      Grows w w' ins ins' ∧ w'.graph.Stands ins' n operator [m] ∧
      w'.graph.nodes.length = n + 1 := by
  refine add_spec hb operator [m] hreset harity.symm fun i hi => ?_
  obtain rfl := List.mem_singleton.mp hi
  exact hm

/-! ## Plans -/

/-- What wiring a plan does. -/
def Wires (functions : RowFunctions) (p : Plan) (w : Wiring) (result : Except Error (Wiring × Nat)) :
    Prop :=
  ∀ ins, Built functions w ins → ∃ w' n ins', result = .ok (w', n) ∧ Built functions w' ins' ∧
    Grows w w' ins ins' ∧ Computes functions w'.inputs.of w'.graph ins' p n

/-- Keeping the node of a subquery. -/
theorem Built.keep (hb : Built functions w ins) {p : Plan} {n : Nat}
    (hc : Computes functions w.inputs.of w.graph ins p n) (object : Nat) :
    Built functions { w with subqueries := w.subqueries.put (object, p) n } ins := by
  refine ⟨hb.isOpen, fun k q m hq => ?_, hb.inputs, hb.below⟩
  rw [Table.get?_put] at hq
  split at hq
  · rename_i hkq
    obtain ⟨-, rfl⟩ := Prod.mk.inj hkq
    obtain rfl := Option.some.inj hq
    exact hc
  · exact hb.computes k q m hq

/-- The node of a subquery is looked up, or built. -/
theorem follow_spec {p : Plan} {build : Wiring → Except Error (Wiring × Nat)}
    (hbuild : ∀ w, Wires functions p w (build w)) (w : Wiring) :
    Wires functions p w (w.follow objects p build) := by
  intro ins hb
  have hcount := hb.count (w.references + 1)
  unfold follow
  dsimp only
  split
  · rename_i n hn
    exact ⟨_, n, ins, rfl, hcount, ⟨fun _ _ => id, fun _ _ => ⟨rfl, rfl⟩, le_rfl⟩,
      hb.computes _ p n hn⟩
  · obtain ⟨w', n, ins', hw', hb', hgrow, hc⟩ := hbuild _ ins hcount
    exact ⟨_, n, ins', bind_eq_ok.mpr ⟨_, hw', rfl⟩, hb'.keep hc _,
      ⟨hgrow.inputs, hgrow.graph, hgrow.length⟩, hc⟩

/-- **A reference to a collection gets an input of its own.** -/
theorem scan_spec (name : String) (w : Wiring) :
    Wires functions (.scan name) w (w.addInput name) := by
  intro ins hb
  obtain ⟨hb', hgrow⟩ :=
    hb.extend .input true [] (fun _ hi => absurd hi (by simp)) rfl (fun _ => rfl) rfl
  have hnew : ∀ other, w.graph.nodes.length ∉ w.inputs.of other := fun other h =>
    absurd (hb.below other _ h) (Nat.lt_irrefl _)
  have hgrow' : Grows w ⟨w.graph.extend .input true [], w.inputs.add name w.graph.nodes.length,
      w.subqueries, w.references⟩ ins (Graph.insWith ins w.graph.nodes.length []) :=
    ⟨fun _ _ h => Inputs.mem_of_add.mpr (Or.inl h), hgrow.graph, hgrow.length⟩
  refine ⟨_, _, _, bind_eq_ok.mpr ⟨_, Graph.addInput_eq hb.isOpen.isOpen, rfl⟩,
    ⟨hb'.isOpen, fun k p n hn => hgrow'.computes (hb.computes k p n hn), hb.inputs.add hnew name,
      fun other n hn => ?_⟩,
    hgrow', Inputs.mem_of_add.mpr (Or.inr ⟨rfl, rfl⟩), Graph.kindAt_extend_new⟩
  rcases Inputs.mem_of_add.mp hn with hn | ⟨-, rfl⟩
  · exact hb'.below other n hn
  · exact Graph.lt_of_kindAt Graph.kindAt_extend_new

/-- A plan of one more step: the operator of the step over the node of the plan below. -/
theorem step_spec {p q : Plan} {operator : Operator}
    (ih : ∀ w, Wires functions q w (wire functions objects q w))
    (hreset : operator.reset = operator) (harity : operator.arity = 1)
    (hc : ∀ inputs g ins m n, Computes functions inputs g ins q m →
      g.Stands ins n operator [m] → Computes functions inputs g ins p n) (w : Wiring) :
    Wires functions p w (do
      let (w, n) ← wire functions objects q w
      w.add operator [n]) := by
  intro ins hb
  obtain ⟨w1, m, ins1, hq, hb1, hgrow1, hm⟩ := ih w ins hb
  obtain ⟨w2, n, ins2, hadd, hb2, hgrow2, hs, -⟩ :=
    add_one_spec hb1 operator hreset harity hm.lt_length
  exact ⟨w2, n, ins2, bind_eq_ok.mpr ⟨_, hq, hadd⟩, hb2, hgrow1.trans hgrow2,
    hc _ _ _ m n (hgrow2.computes hm) hs⟩

/-- A plan of one more step that takes two operators, one after the other. -/
theorem twoStep_spec {p q : Plan} {first second : Operator}
    (ih : ∀ w, Wires functions q w (wire functions objects q w)) (hfirst : first.reset = first)
    (hsecond : second.reset = second) (hone : first.arity = 1 ∧ second.arity = 1)
    (hc : ∀ inputs g ins m k n, Computes functions inputs g ins q m → g.Stands ins k first [m] →
      g.Stands ins n second [k] → Computes functions inputs g ins p n) (w : Wiring) :
    Wires functions p w (do
      let (w, n) ← wire functions objects q w
      let (w, n) ← w.add first [n]
      w.add second [n]) := by
  intro ins hb
  obtain ⟨w1, m, ins1, hq, hb1, hgrow1, hm⟩ := ih w ins hb
  obtain ⟨w2, k, ins2, hadd, hb2, hgrow2, hs, hlen⟩ :=
    add_one_spec hb1 first hfirst hone.1 hm.lt_length
  obtain ⟨w3, n, ins3, hadd', hb3, hgrow3, hs', -⟩ :=
    add_one_spec hb2 second hsecond hone.2 ((Nat.lt_succ_self k).trans_eq hlen.symm)
  exact ⟨w3, n, ins3, bind_eq_ok.mpr ⟨_, hq, bind_eq_ok.mpr ⟨_, hadd, hadd'⟩⟩, hb3,
    (hgrow1.trans hgrow2).trans hgrow3,
    hc _ _ _ m k n ((hgrow2.trans hgrow3).computes hm) (hgrow3.stands hs) hs'⟩

/-- A plan of a join: its operator over the nodes of both sides. -/
theorem join_spec {kind : JoinKind} {mainKey joinedKey : Expr} {p q : Plan}
    (ihp : ∀ w, Wires functions p w (wire functions objects p w))
    (ihq : ∀ w, Wires functions q w (wire functions objects q w)) (w : Wiring) :
    Wires functions (.join kind mainKey joinedKey p q) w (do
      let (w, n) ← wire functions objects p w
      let (w, m) ← wire functions objects q w
      w.add (joinOperator kind mainKey joinedKey) [n, m]) := by
  intro ins hb
  obtain ⟨w1, m, ins1, hp, hb1, hgrow1, hm⟩ := ihp w ins hb
  obtain ⟨w2, m', ins2, hq, hb2, hgrow2, hm'⟩ := ihq w1 ins1 hb1
  have hc := hgrow2.computes hm
  obtain ⟨w3, n, ins3, hadd, hb3, hgrow3, hs, -⟩ :=
    add_spec hb2 (joinOperator kind mainKey joinedKey) [m, m'] rfl rfl (List.forall_mem_cons.mpr
      ⟨hc.lt_length, List.forall_mem_cons.mpr ⟨hm'.lt_length, fun _ h => absurd h (by simp)⟩⟩)
  exact ⟨w3, n, ins3, bind_eq_ok.mpr ⟨_, hp, bind_eq_ok.mpr ⟨_, hq, hadd⟩⟩, hb3,
    (hgrow1.trans hgrow2).trans hgrow3, m, m', hgrow3.computes hc, hgrow3.computes hm', hs⟩

/-- **A plan can be wired, and its node computes it**; the nodes that were there are left what
they are. -/
theorem wire_spec (functions : RowFunctions) (objects : Nat → Nat) :
    ∀ (p : Plan) (w : Wiring), Wires functions p w (wire functions objects p w)
  | .scan name, w => scan_spec name w
  | .named label p, w => step_spec (p := .named label p) (wire_spec functions objects p) rfl rfl
      (fun _ _ _ m _ h hs => ⟨m, h, hs⟩) w
  | .join _ _ _ p q, w => join_spec (wire_spec functions objects p) (wire_spec functions objects q) w
  | .filter condition p, w => step_spec (p := .filter condition p) (wire_spec functions objects p)
      rfl rfl (fun _ _ _ m _ h hs => ⟨m, h, hs⟩) w
  | .filterBy test p, w => step_spec (p := .filterBy test p) (wire_spec functions objects p) rfl rfl
      (fun _ _ _ m _ h hs => ⟨m, h, hs⟩) w
  | .project projection p, w => step_spec (p := .project projection p)
      (wire_spec functions objects p) rfl rfl (fun _ _ _ m _ h hs => ⟨m, h, hs⟩) w
  | .group terms p, w => twoStep_spec (p := .group terms p) (wire_spec functions objects p) rfl rfl
      ⟨rfl, rfl⟩ (fun _ _ _ m k _ h hk hs => ⟨m, k, h, hk, hs⟩) w
  | .distinct p, w => twoStep_spec (p := .distinct p) (wire_spec functions objects p) rfl rfl
      ⟨rfl, rfl⟩ (fun _ _ _ m k _ h hk hs => ⟨m, k, h, hk, hs⟩) w
  | .rank terms window p, w => step_spec (p := .rank terms window p)
      (wire_spec functions objects p) rfl rfl (fun _ _ _ m _ h hs => ⟨m, h, hs⟩) w
  | .output p, w => follow_spec (step_spec (p := .output p) (wire_spec functions objects p) rfl rfl
      fun _ _ _ m _ h hs => ⟨m, h, hs⟩) w

/-- **The plan of a query can be wired, and its node computes it.** What is below its output comes
out at a node of its own, which is that of the window if it ends with a ranking. -/
theorem wireQuery_spec (functions : RowFunctions) (objects : Nat → Nat) (p : Plan) :
    ∃ w n windowNode ins, wireQuery functions objects p = .ok (w, n, windowNode) ∧
      Built functions w ins ∧ Computes functions w.inputs.of w.graph ins p n ∧
      ∀ q, p = .output q → ∃ top, Computes functions w.inputs.of w.graph ins q top ∧
        w.graph.Stands ins n (.map Row.selected) [top] ∧
        windowNode = if q.isRank then some top else none := by
  obtain ⟨q, rfl⟩ | hp : (∃ q, p = .output q) ∨ ∀ q, p ≠ .output q := by
    cases p with
    | output q => exact Or.inl ⟨q, rfl⟩
    | _ => exact Or.inr fun _ => Plan.noConfusion
  · obtain ⟨w1, top, ins1, hq, hb1, -, htop⟩ :=
      wire_spec functions objects q .empty _ (.empty functions)
    obtain ⟨w2, n, ins2, hadd, hb2, hgrow, hs, -⟩ :=
      add_one_spec hb1 (.map Row.selected) rfl rfl htop.lt_length
    have htop := hgrow.computes htop
    refine ⟨w2, n, _, ins2, bind_eq_ok.mpr ⟨_, hq, bind_eq_ok.mpr ⟨_, hadd, rfl⟩⟩, hb2,
      ⟨top, htop, hs⟩, fun q' hq' => ?_⟩
    obtain rfl := Plan.output.inj hq'
    exact ⟨top, htop, hs, rfl⟩
  · obtain ⟨w, n, ins, hw, hb, -, hc⟩ := wire_spec functions objects p .empty _ (.empty functions)
    refine ⟨w, n, none, ins, ?_, hb, hc, fun q hq => absurd hq (hp q)⟩
    cases p with
    | output q => exact absurd rfl (hp q)
    | _ => exact bind_eq_ok.mpr ⟨_, hw, rfl⟩

end Wiring

end DeltaView
