import DeltaView.Proofs.Query.Sources

/-!
# Residual conditions

Where collections are joined, a condition on one of them is tested before the join. Where an outer
join may leave that collection absent, it is tested once more after it, as a residual condition. One
pass brings a query there, and no other pass changes anything.

* `takeCondition_collection`, `takesCondition_collection`: collections take what is set on them.
* `Level.OfSingleConditions`, `moveFilters_residual`: a level over collections with conditions on
  one source each, and what is left of its conditions.
* `Optimizer.optimize_cases`: such a query is optimized by one move, or not at all.
* **`Optimizer.optimize_agrees_of_single`**: it keeps its rows, if the conditions on a source that
  may be absent refuse, all together, the rows that lack it.
-/

namespace DeltaView

namespace Source

/-! ## Collections that take conditions -/

variable {s : Source} {es : List Expr}

/-- A collection stays as it is, or becomes a subquery that tests a condition. -/
theorem takeCondition_collection (es : List Expr) (h : s.isCollection = true) :
    s.takeCondition es = s ∨ ∃ condition,
      s.takeCondition es = .subquery ((Level.ofSource s).withFilter condition) s.label := by
  rcases s.takeCondition_cases es with ⟨condition, -, hf, -⟩ | ⟨hstays, -⟩
  · cases s with
    | subquery q label => exact absurd h Bool.false_ne_true
    | collection name label => exact Or.inr ⟨condition, (Option.some.inj hf).symm⟩
  · exact Or.inl hstays

/-- A collection takes a condition if one is set on it. -/
theorem takesCondition_collection (h : s.isCollection = true) (hes : ∀ c ∈ es, c.conjuncts = [c])
    {c : Expr} (hc : c ∈ es) (hscope : c.scope = .single s.label) :
    s.takesCondition es = true := by
  have hmem : c ∈ Expr.conditionsOn s.label es := Expr.mem_conditionsOn.mpr ⟨hc, hscope⟩
  have hconjuncts : Expr.conjunctsOfAll (Expr.conditionOn? s.label es).toList =
      Expr.conditionsOn s.label es := by
    unfold Expr.conditionOn?
    rw [Expr.conjunctsOfAll_conjoin?]
    exact Expr.conjunctsOfAll_eq_self fun c hc => hes c (Expr.mem_conditionsOn.mp hc).1
  unfold takesCondition
  cases hcondition : Expr.conditionOn? s.label es with
  | none =>
    rw [hcondition] at hconjuncts
    exact absurd (hconjuncts ▸ hmem) List.not_mem_nil
  | some condition =>
    cases s with
    | subquery q label => exact absurd h Bool.false_ne_true
    | collection name label => rfl

theorem joinFilters_withFilter (s : Source) (condition : Expr) :
    ((Level.ofSource s).withFilter condition).joinFilters =
      (Level.ofSource s).withFilter condition := by
  unfold Level.joinFilters
  split
  · exact if_neg (Nat.lt_irrefl 1)
  · rfl

/-- Pushdown leaves a collection as it is, also one that has taken a condition. -/
theorem pushDown_takeCondition (h : s.isCollection = true) (es : List Expr) (depth : Nat) :
    s.pushDown depth = s ∧ (s.takeCondition es).pushDown depth = s.takeCondition es := by
  cases s with
  | subquery q label => exact absurd h Bool.false_ne_true
  | collection name label =>
    refine ⟨rfl, ?_⟩
    rcases takeCondition_collection es h with hstays | ⟨condition, htakes⟩
    · rw [hstays]
      rfl
    · rw [htakes]
      cases depth with
      | zero => rfl
      | succ depth => exact congrArg (subquery · label) (joinFilters_withFilter _ condition)

/-- So does the collapse. -/
theorem collapse_takeCondition (h : s.isCollection = true) (es : List Expr) :
    s.collapse = s ∧ (s.takeCondition es).collapse = s.takeCondition es := by
  cases s with
  | subquery q label => exact absurd h Bool.false_ne_true
  | collection name label =>
    refine ⟨rfl, ?_⟩
    rcases takeCondition_collection es h with hstays | ⟨condition, htakes⟩
    · rw [hstays]
      rfl
    · rw [htakes]
      exact if_neg (ne_true_of_eq_false
        (Level.isForwarding_withFilter (.ofSource (.collection name label)) condition))

end Source

namespace Query

/-! ## Passes that change nothing -/

variable {q : Query} {depth : Nat}

/-- A pass over sources that pushdown leaves as they are pushes down at the level alone. -/
theorem pass_of_sources (h : ∀ s ∈ q.sources, s.pushDown depth = s) :
    pass depth q = q.pushDown := by
  rw [pass_eq, Level.reviseBy_eq_self h]

/-- The collapse of a query over sources that collapse to themselves. -/
theorem collapse_of_sources (h : ∀ s ∈ q.sources, s.collapse = s) : q.collapse = q := by
  rw [collapse_eq, Level.reviseBy_eq_self h]

theorem passes_of_pass (h : pass depth q = q) (n : Nat) : passes depth n q = q := by
  cases n with
  | zero => rfl
  | succ n => exact if_pos h

end Query

namespace Level

/-! ## One move -/

variable {q : Query}

/-- **A level over joined collections, each conjunct of which concerns one of them**, or none. -/
structure OfSingleConditions (q : Query) : Prop where
  collections : ∀ s ∈ q.sources, s.isCollection = true
  joined : q.joins ≠ []
  fresh : ∀ f ∈ q.filters, f.isResidual = false
  single : ∀ c ∈ q.demands,
    (∃ a ∈ q.sources.map (·.label), c.scope = .single a) ∨ c.scope = .constant

/-- There is nothing to move in a level all conditions of which are residual. -/
theorem moveFilters_of_residual (h : ∀ f ∈ q.filters, f.isResidual = true) : q.moveFilters = q := by
  have hfresh : q.filters.filter (!·.isResidual) = [] := List.filter_eq_nil_iff.mpr fun f hf => by
    rw [h f hf]
    decide
  have hmoved : q.moveFilters =
      q.reviseBy (·.takeCondition []) (q.filters.filter (·.isResidual)) := by
    unfold moveFilters
    rw [hfresh]
    rfl
  rw [hmoved, List.filter_eq_self.mpr h]
  exact reviseBy_eq_self fun _ _ => rfl

/-- Pushdown at a level with joins moves its conditions, also if there are none. -/
theorem pushDown_of_joins (h : q.joins ≠ []) : q.pushDown = q.moveFilters := by
  unfold pushDown
  split
  · rename_i hempty
    rw [List.isEmpty_iff] at hempty
    exact (moveFilters_of_residual fun f hf => absurd (hempty ▸ hf) List.not_mem_nil).symm
  · exact if_neg fun hnil => h (List.isEmpty_iff.mp hnil)

/-- What is left of the conditions is residual. -/
theorem moveFilters_residual (h : q.OfSingleConditions) :
    ∀ f ∈ q.moveFilters.filters, f.isResidual = true := by
  have hconjuncts : ∀ c ∈ q.fresh, c.conjuncts = [c] := fun c => Expr.conjuncts_of_mem_all _
  have hremaining : q.remaining q.fresh = [] := by
    refine List.eq_nil_iff_forall_not_mem.mpr fun c hc => ?_
    obtain ⟨hfresh, hstays⟩ := mem_remaining.mp hc
    rcases h.single c (mem_demands_iff.mpr (Or.inl hfresh)) with ⟨a, ha, hscope⟩ | hscope
    · -- A collection takes what is set on it.
      obtain ⟨s, hs, rfl⟩ := List.mem_map.mp ha
      have htakes := Source.takesCondition_collection (h.collections s hs) hconjuncts hfresh hscope
      have hmoves : q.moves q.fresh s.label = true :=
        List.any_eq_true.mpr ⟨s, hs, by rw [beq_self_eq_true, htakes]; rfl⟩
      rcases hstays with hjoint | ⟨b, hb, hnot⟩
      · rw [hscope] at hjoint
        exact absurd hjoint Bool.false_ne_true
      · obtain rfl := Scope.single.inj (hscope.symm.trans hb)
        rw [hmoves] at hnot
        exact absurd hnot.symm Bool.false_ne_true
    · rcases hstays with hjoint | ⟨b, hb, -⟩
      · rw [hscope] at hjoint
        exact absurd hjoint Bool.false_ne_true
      · exact absurd (hscope.symm.trans hb) (by simp)
  intro f hf
  have hfilters : q.moveFilters.filters = clauseOf (q.remaining q.fresh) false ++
      clauseOf (q.repeated q.fresh) true ++ q.filters.filter (·.isResidual) := rfl
  rw [hfilters, hremaining, List.mem_append] at hf
  rcases hf with hf | hf
  · obtain ⟨expr, -, rfl⟩ := Option.map_eq_some_iff.mp (Option.mem_toList.mp hf)
    rfl
  · exact (List.mem_filter.mp hf).2

/-- **One pass moves the conditions, and another one changes nothing.** -/
theorem pass_moveFilters (h : q.OfSingleConditions) (depth : Nat) :
    Query.pass depth q = q.moveFilters ∧ Query.pass depth q.moveFilters = q.moveFilters := by
  constructor
  · rw [Query.pass_of_sources fun s hs =>
      (Source.pushDown_takeCondition (h.collections s hs) q.fresh depth).1,
      pushDown_of_joins h.joined]
  · have hjoined : q.moveFilters.joins ≠ [] :=
      (not_congr (joins_reviseBy_eq_nil q _ _)).mpr h.joined
    rw [Query.pass_of_sources, pushDown_of_joins hjoined,
      moveFilters_of_residual (moveFilters_residual h)]
    rw [sources_moveFilters, List.forall_mem_map]
    exact fun s hs => (Source.pushDown_takeCondition (h.collections s hs) q.fresh depth).2

end Level

/-- **Such a query is optimized by one move**, or not at all. -/
theorem Optimizer.optimize_cases {q : Query} (h : q.OfSingleConditions) (o : Optimizer) :
    o.optimize q = q ∨ o.optimize q = q.moveFilters := by
  obtain ⟨hpass, hpass'⟩ := Level.pass_moveFilters h o.maxDepth
  have hpasses : Query.passes o.maxDepth o.maxPasses q = q ∨
      Query.passes o.maxDepth o.maxPasses q = q.moveFilters := by
    cases o.maxPasses with
    | zero => exact Or.inl rfl
    | succ n =>
      unfold Query.passes
      dsimp only
      rw [hpass]
      split
      · exact Or.inl rfl
      · exact Or.inr (Query.passes_of_pass hpass' n)
  have hcollapse : q.collapse = q := Query.collapse_of_sources fun s hs =>
    (Source.collapse_takeCondition (h.collections s hs) q.fresh).1
  have hcollapse' : q.moveFilters.collapse = q.moveFilters := by
    refine Query.collapse_of_sources ?_
    rw [Level.sources_moveFilters, List.forall_mem_map]
    exact fun s hs => (Source.collapse_takeCondition (h.collections s hs) q.fresh).2
  unfold optimize
  split
  · rcases hpasses with hq | hq
    · rw [hq, hcollapse]
      exact Or.inl rfl
    · rw [hq, hcollapse']
      exact Or.inr rfl
  · exact Or.inl rfl

/-- **Conditions on single collections are tested early without a change of the rows**, if those on
a collection that may be absent refuse, all together, the rows that lack it. -/
theorem Optimizer.optimize_agrees_of_single {q : Query} (h : q.OfSingleConditions)
    (hm : q.MovableHere) (o : Optimizer) : q.Agrees (o.optimize q) := by
  rcases o.optimize_cases h with hsame | hmoved
  · rw [hsame]
    exact .refl q
  · rw [hmoved]
    refine Level.moveFilters_agrees h.joined
      (fun c hc hscope row _ => hm.constantsHold c hc hscope row) hm.refusesAbsent fun _ _ s hs _ => ?_
    have := h.collections s hs
    cases s with
    | collection name label => trivial
    | subquery q label => exact absurd this Bool.false_ne_true

end DeltaView
