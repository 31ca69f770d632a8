import DeltaView.Proofs.Dataflow.Yields
import DeltaView.Proofs.Plan.Circuit
import DeltaView.Proofs.Plan.Within
import DeltaView.Proofs.Value.Fields
import DeltaView.Query.Pushdown

/-!
# Sources that a joined row has

A row that leaves a chain of joins has a field for every source but those that some join of the
chain can leave absent, and which those are can be read off the chain from left to right.

* `Plan.Makes`: the rows that a plan can put out, as far as naming and joining decide it.
* `Value.Has`, **`makes_has`**: along a chain of joins they have the fields of all sources that the
  joins so far cannot leave absent.
* **`Circuit.yields_makes`**: what comes out at a node of a new circuit is of this kind.
* **`nullableLabels_sound`**: so it is for every level of a query, whatever is done to its circuit.
-/

namespace DeltaView

open Graph (Computes Fresh Used)

/-! ## Fields of joined rows -/

namespace Value

/-- An object of the fields of some sources, with a field for each but those that may be absent. -/
structure Has (labels absent : List String) (v : Value) : Prop where
  covers : v.Covers labels
  isSome : ∀ a ∈ labels, a ∉ absent → (v.field? a).isSome = true

variable {labels labels' absent absent' : List String} {v w : Value}

theorem Has.mono (h : v.Has labels absent) (hsub : absent ⊆ absent') : v.Has labels absent' :=
  ⟨h.covers, fun a ha hn => h.isSome a ha fun hm => hn (hsub hm)⟩

theorem has_named (label : String) (v : Value) : (Value.object [(label, v)]).Has [label] [] := by
  refine ⟨covers_named label v, fun a ha _ => ?_⟩
  obtain rfl := List.mem_singleton.mp ha
  exact congrArg Option.isSome (if_pos rfl)

theorem Has.merge (hv : v.Has labels absent) (hw : w.Has labels' absent') :
    (Row.mergeValues (some v) (some w)).Has (labels ++ labels') (absent ++ absent') := by
  refine ⟨covers_merge hv.covers hw.covers, fun a ha hn => ?_⟩
  rw [List.mem_append, not_or] at hn
  rw [field?_merge hv.covers hw.covers, Option.isSome_or, Bool.or_eq_true]
  rcases List.mem_append.mp ha with ha | ha
  · exact Or.inr (hv.isSome a ha hn.1)
  · exact Or.inl (hw.isSome a ha hn.2)

/-- A row without a partner lacks the sources of the other side. -/
theorem Has.padLeft (hv : v.Has labels absent) (labels' : List String) :
    (Row.mergeValues (some v) none).Has (labels ++ labels') (absent ++ labels') := by
  refine ⟨covers_padLeft hv.covers, fun a ha hn => ?_⟩
  rw [List.mem_append, not_or] at hn
  rw [field?_padLeft hv.covers]
  exact hv.isSome a ((List.mem_append.mp ha).resolve_right hn.2) hn.1

theorem Has.padRight (hw : w.Has labels' absent') (labels : List String) :
    (Row.mergeValues none (some w)).Has (labels ++ labels') (labels ++ absent') := by
  refine ⟨covers_padRight hw.covers, fun a ha hn => ?_⟩
  rw [List.mem_append, not_or] at hn
  rw [field?_padRight hw.covers]
  exact hw.isSome a ((List.mem_append.mp ha).resolve_left hn.1) hn.2

end Value

namespace Plan

/-! ## Rows of a plan -/

/-- **The rows that a plan can put out**, as far as naming and joining decide it: those of a source
under its name, and pairs and padded rows of a join. -/
def Makes : Plan → Row → Prop
  | .named label _, r => ∃ v, r.value = .object [(label, v)]
  | .join kind _ _ p q, r =>
    (∃ x y, Makes p x ∧ Makes q y ∧ r = Row.merge (some x) (some y)) ∨
      (kind.keepsLeft = true ∧ ∃ x, Makes p x ∧ r = JoinState.padLeft x) ∨
      (kind.keepsRight = true ∧ ∃ y, Makes q y ∧ r = JoinState.padRight y)
  | _, _ => True

theorem ofSource?_makes {s : Source} {p : Plan} (h : ofSource? s = .ok p) {r : Row}
    (hr : p.Makes r) : r.value.Has [s.label] [] := by
  obtain ⟨input, rfl⟩ : ∃ input, p = .named s.label input := by
    cases s with
    | collection name label => exact ⟨_, (Except.ok.inj h).symm⟩
    | subquery q label =>
      obtain ⟨input, -, rfl⟩ := map_eq_ok.mp h
      exact ⟨input, rfl⟩
  obtain ⟨v, hv⟩ := hr
  rw [hv]
  exact Value.has_named s.label v

variable {known absent : List String}

/-- One more join: a kept main side leaves the joined source absent, and a kept joined side all the
sources before it. -/
theorem join_makes {kind : JoinKind} {mainKey joinedKey : Expr} {main joined : Plan}
    {label : String} (hmain : ∀ r, main.Makes r → r.value.Has known absent)
    (hjoined : ∀ r, joined.Makes r → r.value.Has [label] []) {r : Row}
    (hr : (Plan.join kind mainKey joinedKey main joined).Makes r) :
    r.value.Has (known ++ [label]) (absent ++ ((if kind.keepsLeft then [label] else []) ++
      if kind.keepsRight then known else [])) := by
  rcases hr with ⟨x, y, hx, hy, rfl⟩ | ⟨hkeeps, x, hx, rfl⟩ | ⟨hkeeps, y, hy, rfl⟩
  · refine ((hmain x hx).merge (hjoined y hy)).mono ?_
    rw [List.append_nil]
    exact List.subset_append_left _ _
  · refine ((hmain x hx).padLeft [label]).mono ?_
    rw [if_pos hkeeps]
    simp
  · refine ((hjoined y hy).padRight known).mono ?_
    rw [if_pos hkeeps, List.append_nil]
    simp

/-- **Along a chain of joins** the rows have all sources that no join so far can leave absent. -/
theorem makes_has {joins : List (Join Source)} {main p : Plan}
    (h : ofJoins? main known joins = .ok p) (hmain : ∀ r, main.Makes r → r.value.Has known absent)
    {r : Row} (hr : p.Makes r) :
    r.value.Has (known ++ joins.map (·.source.label))
      (absent ++ Level.nullableFrom known joins) := by
  induction joins generalizing main known absent with
  | nil =>
    obtain rfl := Except.ok.inj h
    simpa [Level.nullableFrom] using hmain r hr
  | cons j joins ih =>
    obtain ⟨kind, source, left, right⟩ := j
    obtain ⟨joined, hjoined, h⟩ := bind_eq_ok.mp h
    obtain ⟨rows, hrows, h⟩ := bind_eq_ok.mp h
    obtain ⟨mainKey, joinedKey, rfl, -⟩ := join?_eq_ok hrows
    have hrest := ih h (fun r => join_makes hmain fun r => ofSource?_makes hjoined)
    rw [List.map_cons, Level.nullableFrom]
    simpa only [List.append_assoc, List.singleton_append] using hrest

/-- The rows of the sources of a level have all that none of its joins can leave absent. -/
theorem planSources?_makes {q : Query} {p : Plan} (h : q.planSources? = .ok p) {r : Row}
    (hr : p.Makes r) {s : Source} (hs : s ∈ q.sources) (hn : s.label ∉ q.nullableLabels) :
    (r.value.field? s.label).isSome = true := by
  obtain ⟨main, hmain, h⟩ := bind_eq_ok.mp h
  refine (makes_has h (fun r => ofSource?_makes hmain) hr).isSome _ ?_ hn
  rw [← Level.labels_eq]
  exact List.mem_map_of_mem hs

end Plan

/-! ## Nodes -/

namespace Graph

variable {functions : RowFunctions} {inputs : String → List Nat} {g : Graph}
  {ins : Nat → List Nat}

/-- What is told of the rows at a node: they are such as the plans that come out there make. -/
def madeAt (functions : RowFunctions) (inputs : String → List Nat) (g : Graph)
    (ins : Nat → List Nat) (n : Nat) (r : Row) : Prop :=
  ∀ p, Computes functions inputs g ins p n → p.Makes r

/-- Where a plan comes out stands the operator of a name or of a join, or the plan makes any row. -/
theorem Computes.makes_cases {p : Plan} {i : Nat} (h : Computes functions inputs g ins p i)
    {op : Operator} {isInput : Bool} (hkind : g.kindAt i = some (op, isInput)) :
    (∃ label q, p = .named label q ∧ op = .map (Row.named label)) ∨
      (∃ kind mainKey joinedKey q q' m m', p = .join kind mainKey joinedKey q q' ∧
        op = Wiring.joinOperator kind mainKey joinedKey ∧ ins i = [m, m'] ∧
        Computes functions inputs g ins q m ∧ Computes functions inputs g ins q' m') ∨
      ∀ r, p.Makes r := by
  have hop : ∀ {op' : Operator} {sources : List Nat}, g.Stands ins i op' sources → op = op' :=
    fun hs => (Prod.mk.inj (Option.some.inj (hkind.symm.trans hs.kind))).1
  cases p with
  | named label q =>
    obtain ⟨m, -, hs⟩ := h
    exact Or.inl ⟨label, q, rfl, hop hs⟩
  | join kind mainKey joinedKey q q' =>
    obtain ⟨m, m', hm, hm', hs⟩ := h
    exact Or.inr (Or.inl ⟨kind, mainKey, joinedKey, q, q', m, m', rfl, hop hs, hs.ins, hm, hm'⟩)
  | _ => exact Or.inr (Or.inr fun _ => trivial)

/-- What is told of the rows at an inlet, for the plan that comes out at its producer. -/
theorem atInlet_makes {i j m : Nat} {r : Row}
    (h : atInlet ins (madeAt functions inputs g ins) i j r) (hins : (ins i)[j]? = some m) {p : Plan} (hp : Computes functions inputs g ins p m) :
    p.Makes r := h m hins p hp

/-- **The nodes of a graph in which nothing has happened** put out rows that their plans make. -/
theorem yields_makes (functions : RowFunctions) (inputs : String → List Nat)
    (hfresh : ∀ (i : Nat) (n : Node), g.nodes[i]? = some n → Fresh n) :
    g.Yields ins (madeAt functions inputs g ins) := by
  refine ⟨fun i n hn => ?_, fun i n hn j e he => ?_⟩
  · have hkind : g.kindAt i = some (n.operator.reset, n.isInput) := by
      rw [kindAt, frame_of_node hn]
      rfl
    have hreached := (hfresh i n hn).reached
    generalize n.operator = op at hkind hreached
    cases op with
    | map f =>
      intro r _ p hp
      rcases hp.makes_cases hkind with ⟨label, q, rfl, h⟩ | ⟨_, _, _, -, -, -, -, -, h, -⟩ | h
      · rw [Operator.map.inj h]
        exact ⟨r.value, rfl⟩
      · cases h
      · exact h _
    | join rule s =>
      have hholds : s.Holds rule [] [] := hreached.1
      refine ⟨⟨fun l r hl hr p hp => ?_, fun hkeeps l hl p hp => ?_, fun hkeeps r hr p hp => ?_⟩,
        [], [], hholds, List.forall_mem_nil _, List.forall_mem_nil _⟩
      all_goals
        rcases hp.makes_cases hkind with
          ⟨_, -, -, h⟩ | ⟨kind, mk, jk, q, q', m, m', rfl, h, hins, hm, hm'⟩ | h
      · cases h
      · exact Or.inl ⟨l, r, atInlet_makes hl (by rw [hins]; rfl) hm,
          atInlet_makes hr (by rw [hins]; rfl) hm', rfl⟩
      · exact h _
      · cases h
      · obtain rfl := (Operator.join.inj h).1
        exact Or.inr (Or.inl ⟨hkeeps, l, atInlet_makes hl (by rw [hins]; rfl) hm, rfl⟩)
      · exact h _
      · cases h
      · obtain rfl := (Operator.join.inj h).1
        exact Or.inr (Or.inr ⟨hkeeps, r, atInlet_makes hr (by rw [hins]; rfl) hm', rfl⟩)
      · exact h _
    | _ =>
      -- Of an operator that is neither that of a name nor that of a join nothing is asked.
      refine .of_forall (fun r p hp => ?_) (by simp)
      rcases hp.makes_cases hkind with ⟨_, -, -, h⟩ | ⟨_, _, _, -, -, -, -, -, h, -⟩ | h
      · cases h
      · cases h
      · exact h r
  · rw [(hfresh i n hn).waitingAt] at he
    exact absurd he List.not_mem_nil

end Graph

/-! ## Circuits -/

/-- **Every row that leaves the joins of a level has a field for each source** that none of them can
leave absent. A query that has a plan has a circuit, and for every level of the query some node of
the circuit computes the joined sources. Whatever is sent to the circuit, run and drained before, no
row comes out at such a node that lacks a source, not even one that another takes back at once. -/
theorem nullableLabels_sound (functions : RowFunctions) (objects : Nat → Nat) {q l : Query}
    {p : Plan} (hp : Plan.ofQuery? q = .ok p) (hl : q.HasLevel l) :
    ∃ c ins sources, Circuit.ofPlan? functions objects p = .ok c ∧ c.graph.Ready ins ∧
      l.planSources? = .ok sources ∧
      (∃ n, Computes functions c.inputs.of c.graph ins sources n) ∧
      ∀ n, Computes functions c.inputs.of c.graph ins sources n →
        ∀ g, Relation.ReflTransGen Used c.graph g → ∀ e ∈ g.runOut n, ∀ s ∈ l.sources,
          s.label ∉ l.nullableLabels → (e.1.value.field? s.label).isSome = true := by
  obtain ⟨c, ins, out, hc, hmade⟩ := Circuit.ofPlan?_made functions objects p
  obtain ⟨r, hr, hwithin⟩ := hl.within hp
  obtain ⟨⟨sources, hsources, hsub⟩, -⟩ := Plan.ofQuery?_within hr
  refine ⟨c, ins, sources, hc, hmade.ready, hsources,
    hmade.computes.within (hsub.trans hwithin), ?_⟩
  intro n hn g hlife e he s hs hnullable
  have hyields := (Graph.yields_makes functions c.inputs.of hmade.fresh).of_life hmade.ready
    hlife
  have hready := hmade.ready.of_life (Graph.handled_of_used hlife)
  have hmakes := (hyields.run hready.wired).2 n e he sources hn
  exact Plan.planSources?_makes hsources hmakes hs hnullable

/-- Behind a right join only its joined source is certain: a post without a user and a tag without
posts are padded, but every row has its tag. -/
theorem nullableLabels_sound_of_right_join :
    let functions : RowFunctions := fun _ row => row
    let q : Query :=
      { source := .collection "users" "u"
        joins := [⟨.left, .collection "posts" "p", .ref ["u", "id"], .ref ["p", "author"]⟩,
          ⟨.right, .collection "tags" "t", .ref ["p", "tag"], .ref ["t", "id"]⟩] }
    q.nullableLabels = ["p", "u", "p"] ∧ ∃ p c ins sources n, Plan.ofQuery? q = .ok p ∧
      Circuit.ofPlan? functions id p = .ok c ∧ q.planSources? = .ok sources ∧
      Computes functions c.inputs.of c.graph ins sources n ∧
      ∀ g, Relation.ReflTransGen Used c.graph g → ∀ e ∈ g.runOut n,
        (e.1.value.field? "t").isSome = true := by
  intro functions q
  obtain ⟨p, hp⟩ : ∃ p, Plan.ofQuery? q = .ok p := ⟨_, rfl⟩
  obtain ⟨c, ins, sources, hc, -, hsources, ⟨n, hn⟩, hsound⟩ :=
    nullableLabels_sound functions id hp (.self q)
  refine ⟨by decide +kernel, p, c, ins, sources, n, hp, hc, hsources, hn, fun g hg e he => ?_⟩
  exact hsound n hn g hg e he (.collection "tags" "t") (by decide +kernel) (by decide +kernel)

end DeltaView
