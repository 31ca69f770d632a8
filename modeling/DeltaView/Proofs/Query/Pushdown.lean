import DeltaView.Proofs.Query.Pushable

/-!
# Pushdown at one level

Moving the conditions of one level leaves its rows as they are.

* `mem_remaining`, `mem_repeated`, `mem_demands_moveFilters`, `mem_demands_moved`: which conjuncts are
  tested where.
* `MovableHere`: what is asked of the level itself.
* `movedTests`, `movedTests_sound`, `takeCondition_applies`: what sources test after the move.
* **`moveFilters_agrees`**, **`moveFilters_plansAs`**: a level and the level after the move.
* **`pushDown_optimizesTo`**: pushdown at one level.
-/

namespace DeltaView

namespace Level

variable {q : Query} {es : List Expr} {c : Expr}

/-! ## Where conjuncts are tested -/

theorem mem_remaining :
    c ∈ q.remaining es ↔
      c ∈ es ∧ (c.scope.isJoint = true ∨ ∃ a, c.scope = .single a ∧ q.moves es a = false) := by
  unfold remaining Expr.jointConditions
  simp only [List.mem_append, List.mem_filter, List.mem_flatMap, Expr.mem_conditionsOn,
    Bool.not_eq_true']
  constructor
  · rintro (⟨hc, hj⟩ | ⟨a, ⟨-, hm⟩, hc, ha⟩)
    · exact ⟨hc, Or.inl hj⟩
    · exact ⟨hc, Or.inr ⟨a, ha, hm⟩⟩
  · rintro ⟨hc, hj | ⟨a, ha, hm⟩⟩
    · exact Or.inl ⟨hc, hj⟩
    · exact Or.inr ⟨a, ⟨Expr.mem_conditionedSources.mpr ⟨c, hc, ha⟩, hm⟩, hc, ha⟩

theorem mem_repeated :
    c ∈ q.repeated es ↔
      c ∈ es ∧ ∃ a, c.scope = .single a ∧ q.moves es a = true ∧ a ∈ q.nullableLabels := by
  unfold repeated
  simp only [List.mem_filter, List.mem_flatMap, Expr.mem_conditionsOn, Bool.and_eq_true,
    List.contains_iff_mem]
  constructor
  · rintro ⟨a, ⟨-, hm, hn⟩, hc, ha⟩
    exact ⟨hc, a, ha, hm, hn⟩
  · rintro ⟨hc, a, ha, hm, hn⟩
    exact ⟨a, ⟨Expr.mem_conditionedSources.mpr ⟨c, hc, ha⟩, hm, hn⟩, hc, ha⟩

/-- A clause for conjuncts demands these conjuncts. -/
theorem conjuncts_clauseOf (h : ∀ c ∈ es, c.conjuncts = [c]) (isResidual : Bool) :
    Expr.conjunctsOfAll ((clauseOf es isResidual).map (·.expr)) = es := by
  have hclause : (clauseOf es isResidual).map (·.expr) = (Expr.conjoin? es).toList := by
    unfold clauseOf
    cases Expr.conjoin? es with
    | none => rfl
    | some e => rfl
  rw [hclause, Expr.conjunctsOfAll_conjoin?, Expr.conjunctsOfAll_eq_self h]

theorem mem_demands_moveFilters :
    c ∈ q.moveFilters.demands ↔
      c ∈ q.remaining q.fresh ∨ c ∈ q.repeated q.fresh ∨ c ∈ q.residual := by
  have hfresh : ∀ c ∈ q.fresh, c.conjuncts = [c] := fun c => Expr.conjuncts_of_mem_all _
  have hremaining : ∀ c ∈ q.remaining q.fresh, c.conjuncts = [c] := fun c hc =>
    hfresh c (mem_remaining.mp hc).1
  have hrepeated : ∀ c ∈ q.repeated q.fresh, c.conjuncts = [c] := fun c hc =>
    hfresh c (mem_repeated.mp hc).1
  have hdemands : q.moveFilters.demands =
      q.remaining q.fresh ++ q.repeated q.fresh ++ q.residual := by
    show Expr.conjunctsOfAll (List.map (fun c : Clause => c.expr)
      (clauseOf (q.remaining q.fresh) false ++ clauseOf (q.repeated q.fresh) true ++
        q.filters.filter (·.isResidual))) = _
    rw [List.map_append, List.map_append, Expr.conjunctsOfAll_append, Expr.conjunctsOfAll_append,
      conjuncts_clauseOf hremaining, conjuncts_clauseOf hrepeated]
    rfl
  rw [hdemands, List.mem_append, List.mem_append, or_assoc]

/-- No conjunct is new after the move. -/
theorem demands_moveFilters_subset (q : Query) : q.moveFilters.demands ⊆ q.demands := by
  intro c hc
  rcases mem_demands_moveFilters.mp hc with hc | hc | hc
  · exact mem_demands_iff.mpr (Or.inl (mem_remaining.mp hc).1)
  · exact mem_demands_iff.mpr (Or.inl (mem_repeated.mp hc).1)
  · exact mem_demands_iff.mpr (Or.inr hc)

/-- Nothing that may be moved is new after the move. -/
theorem fresh_moveFilters_subset (q : Query) : q.moveFilters.fresh ⊆ q.fresh := by
  intro c hc
  obtain ⟨f, hf, hcf⟩ := mem_conjunctsOfClauses.mp hc
  obtain ⟨hf, hr⟩ := List.mem_filter.mp hf
  have hnot : f.isResidual ≠ true := by simpa using hr
  have hfilters : f ∈ clauseOf (q.remaining q.fresh) false ++ clauseOf (q.repeated q.fresh) true ++
      q.filters.filter (·.isResidual) := hf
  rcases List.mem_append.mp hfilters with hmoved | hresidual
  · rcases List.mem_append.mp hmoved with hstays | hrepeated
    · have hconjuncts : ∀ c ∈ q.remaining q.fresh, c.conjuncts = [c] := fun c hc =>
        Expr.conjuncts_of_mem_all _ (mem_remaining.mp hc).1
      have hremaining := mem_conjunctsOfClauses.mpr ⟨f, hstays, hcf⟩
      rw [conjuncts_clauseOf hconjuncts] at hremaining
      exact (mem_remaining.mp hremaining).1
    · obtain ⟨expr, -, rfl⟩ := Option.map_eq_some_iff.mp (Option.mem_toList.mp hrepeated)
      exact absurd rfl hnot
  · exact absurd (List.mem_filter.mp hresidual).2 hnot

/-- A conjunct stays, or it has no source and is dropped, or a source takes it in. -/
theorem mem_demands_moved (hc : c ∈ q.demands) :
    c ∈ q.moveFilters.demands ∨ (c ∈ q.fresh ∧ c.scope = .constant) ∨
      ∃ s ∈ q.sources, c ∈ q.fresh ∧ c.scope = .single s.label ∧
        s.takesCondition q.fresh = true := by
  rcases mem_demands_iff.mp hc with hfresh | hresidual
  · have hremains : ∀ hstays : c.scope.isJoint = true ∨ ∃ a, c.scope = .single a ∧
        q.moves q.fresh a = false, c ∈ q.moveFilters.demands := fun hstays =>
      mem_demands_moveFilters.mpr (Or.inl (mem_remaining.mpr ⟨hfresh, hstays⟩))
    cases hscope : c.scope with
    | constant => exact Or.inr (Or.inl ⟨hfresh, rfl⟩)
    | several => exact Or.inl (hremains (Or.inl (by rw [hscope]; rfl)))
    | hidden => exact Or.inl (hremains (Or.inl (by rw [hscope]; rfl)))
    | single a =>
      cases hmoves : q.moves q.fresh a with
      | false => exact Or.inl (hremains (Or.inr ⟨a, hscope, hmoves⟩))
      | true =>
        obtain ⟨s, hs, hboth⟩ := List.any_eq_true.mp hmoves
        rw [Bool.and_eq_true, beq_iff_eq] at hboth
        obtain ⟨rfl, htakes⟩ := hboth
        exact Or.inr (Or.inr ⟨s, hs, hfresh, rfl, htakes⟩)
  · exact Or.inl (mem_demands_moveFilters.mpr (Or.inr (Or.inr hresidual)))

theorem moves_of_takesCondition {s : Source} (hs : s ∈ q.sources)
    (htakes : s.takesCondition es = true) : q.moves es s.label = true :=
  List.any_eq_true.mpr ⟨s, hs, by rw [beq_self_eq_true, htakes]; rfl⟩

/-! ## What sources test -/

/-- **What is asked of a level whose conditions are moved**, apart from its sources. The conjuncts
on a source that may be absent refuse, all together, the rows that lack it. -/
structure MovableHere (q : Query) : Prop where
  named : "" ∉ q.sources.map (·.label)
  distinct : (q.sources.map (·.label)).Nodup
  constantsHold : ∀ c ∈ q.fresh, c.scope = .constant → ∀ row : Value, c.holds row = true
  refusesAbsent : ∀ a ∈ q.nullableLabels, (∃ c ∈ q.fresh, c.scope = .single a) →
    ∀ row : Value, row.field? a = none → (Expr.conditionsOn a q.fresh).all (·.holds row) = false

/-- What the sources of a level test once the conditions are moved. -/
def movedTests (q : Query) (es : List Expr) : SourceTests := fun a v =>
  !q.moves es a || (Expr.conditionsOn a es).all (·.holds v)

theorem movedTests_iff {a : String} {v : Value} :
    q.movedTests es a v = true ↔
      (q.moves es a = true → ∀ c ∈ es, c.scope = .single a → c.holds v = true) := by
  unfold movedTests
  rw [Bool.or_eq_true, Bool.not_eq_true', ← Bool.not_eq_true, ← imp_iff_not_or, List.all_eq_true]
  simp only [Expr.mem_conditionsOn, and_imp]

/-- **What is moved is a test of its own source**, which refuses rows that may come without it. -/
theorem movedTests_sound (hnamed : "" ∉ q.sources.map (·.label))
    (hrefuses : ∀ a ∈ q.nullableLabels, (∃ c ∈ q.fresh, c.scope = .single a) → ∀ row : Value,
      row.field? a = none → (Expr.conditionsOn a q.fresh).all (·.holds row) = false) :
    (q.movedTests q.fresh).Sound q.nullableLabels (q.sources.map (·.label)) where
  named := hnamed
  ownField a _ v w hfield hv hw := by
    rw [Bool.eq_iff_iff, movedTests_iff, movedTests_iff]
    refine imp_congr_right fun _ => forall_congr' fun c => forall_congr' fun _ =>
      forall_congr' fun hscope => ?_
    rw [(Expr.readsOnly_of_scope hscope).holds_congr hfield (hv.trans hw.symm)]
  absent a _ hn := by
    by_cases hm : q.moves q.fresh a = true ∧ ∃ c ∈ q.fresh, c.scope = .single a
    · refine Or.inr fun v hv => ?_
      unfold movedTests
      rw [hm.1, hrefuses a hn hm.2 v hv]
      rfl
    · refine Or.inl fun v => movedTests_iff.mpr fun hmoves c hc hscope => ?_
      exact absurd ⟨hmoves, c, hc, hscope⟩ hm

/-- Where labels tell sources apart, a condition is moved if the source with its label takes it. -/
theorem moves_eq (es : List Expr) (h : (q.sources.map (·.label)).Nodup) {s : Source}
    (hs : s ∈ q.sources) :
    q.moves es s.label = s.takesCondition es := by
  unfold moves
  rw [Bool.eq_iff_iff, List.any_eq_true]
  constructor
  · rintro ⟨t, ht, hboth⟩
    rw [Bool.and_eq_true, beq_iff_eq] at hboth
    obtain rfl := List.inj_on_of_nodup_map h ht hs hboth.1
    exact hboth.2
  · intro htakes
    exact ⟨s, hs, by rw [beq_self_eq_true, Bool.true_and]; exact htakes⟩

theorem takesIn_ofSource (s : Source) (condition : Expr) :
    (ofSource s).takesIn s.label condition = true := by
  simp [takesIn, ofSource, isGrouped, selectHasAggregate, keepsFields]

end Level

namespace Source

variable {s s' : Source} {condition : Expr}

/-- **A source that tests a condition applies it.** -/
theorem filtered?_applies (h : s.Faithful) (hf : s.filtered? condition = some s') (hc : condition.ReadsOnly s.label)
    (hcheck : condition.check = .ok ()) : s.Applies condition.holds s' := by
  rcases filtered?_eq_some hf with ⟨-, rfl⟩ | ⟨q, label, rfl, ht, rfl⟩
  · have ht := Level.takesIn_ofSource s condition
    have happlies := Level.withFilter_applies ht (fun _ => hc.labels) hcheck
      (Level.passesOn_of_selectsFaithfully ht (selectsFaithfully_ofSource s))
    exact (applies_forwarding (fun _ => rfl) s).trans happlies |>.congr fun v => Bool.true_and _
  · exact Level.withFilter_applies ht (fun _ => hc.labels) hcheck
      (Level.passesOn_of_selectsFaithfully ht (alongMain_subquery.mp h).1)

/-- A condition that a source with a plan has taken in has a value. -/
theorem check_of_filtered? (hf : s.filtered? condition = some s') {p : Plan}
    (hp : Plan.ofSource? s' = .ok p) : condition.check = .ok () := by
  have hwith : ∀ {q : Query} {label : String} {p : Plan},
      Plan.ofSource? (.subquery (q.withFilter condition) label) = .ok p →
      condition.check = .ok () := by
    intro q label p hp
    obtain ⟨p, hp, -⟩ := map_eq_ok.mp hp
    obtain ⟨-, _, _, -, -, hplan⟩ := Plan.ofQuery?_eq_ok.mp hp
    obtain ⟨-, hchecks, -⟩ := Level.plan?_eq_ok.mp hplan
    refine Expr.checkAll_eq_ok_iff.mp hchecks _ (List.mem_map.mpr ⟨⟨condition, false⟩, ?_, rfl⟩)
    exact List.mem_append_right _ List.mem_cons_self
  rcases filtered?_eq_some hf with ⟨-, rfl⟩ | ⟨q, label, rfl, -, rfl⟩
  · exact hwith hp
  · exact hwith hp

/-- A source takes its condition, which then is the one that is set on it, or stays as it is. -/
theorem takeCondition_cases (es : List Expr) (s : Source) :
    (∃ condition, Expr.conditionOn? s.label es = some condition ∧
      s.filtered? condition = some (s.takeCondition es) ∧ s.takesCondition es = true) ∨
    (s.takeCondition es = s ∧ s.takesCondition es = false) := by
  unfold takeCondition takesCondition
  cases hc : Expr.conditionOn? s.label es with
  | none => exact Or.inr ⟨rfl, rfl⟩
  | some condition =>
    dsimp only [Option.bind_some]
    cases hf : s.filtered? condition with
    | none => exact Or.inr ⟨rfl, rfl⟩
    | some s' => exact Or.inl ⟨condition, rfl, hf, rfl⟩

theorem takeCondition_of_takesCondition {es : List Expr} (s : Source)
    (h : s.takesCondition es = true) : ∃ condition, Expr.conditionOn? s.label es = some condition ∧
      s.filtered? condition = some (s.takeCondition es) := by
  rcases s.takeCondition_cases es with ⟨condition, hc, hf, -⟩ | ⟨-, hstays⟩
  · exact ⟨condition, hc, hf⟩
  · rw [hstays] at h
    exact absurd h Bool.false_ne_true

theorem label_takeCondition (es : List Expr) (s : Source) :
    (s.takeCondition es).label = s.label := by
  rcases s.takeCondition_cases es with ⟨condition, -, hf, -⟩ | ⟨hstays, -⟩
  · exact label_filtered? hf
  · rw [hstays]

end Source

namespace Level

variable {q : Query} {c : Expr}

/-- The condition that is set on a source is about that source. -/
theorem conjuncts_of_conditionOn? {label : String} {condition : Expr}
    (hc : Expr.conditionOn? label q.fresh = some condition) :
    condition.conjuncts = Expr.conditionsOn label q.fresh :=
  Expr.conjuncts_conditionOn? (fun _ => Expr.conjuncts_of_mem_all _) hc

/-- What a source takes in are conjuncts on it. -/
theorem mem_taken {s : Source} {condition : Expr}
    (hc : Expr.conditionOn? s.label q.fresh = some condition) {c : Expr} :
    c ∈ condition.conjuncts ↔ c ∈ q.fresh ∧ c.scope = .single s.label := by
  rw [conjuncts_of_conditionOn? hc]
  exact Expr.mem_conditionsOn

/-- What is said of a source on which there is a conjunct is said of one that takes a condition. -/
theorem exists_of_conditionOn? {s : Source} {condition : Expr}
    (hc : Expr.conditionOn? s.label q.fresh = some condition) :
    ∃ c ∈ q.fresh, c.scope = .single s.label := by
  have hne : Expr.conditionsOn s.label q.fresh ≠ [] := by
    intro hnil
    unfold Expr.conditionOn? at hc
    rw [hnil] at hc
    exact absurd hc (by simp [Expr.conjoin?, Expr.conjunctsOfAll])
  obtain ⟨c, hmem⟩ := List.exists_mem_of_ne_nil _ hne
  exact ⟨c, Expr.mem_conditionsOn.mp hmem⟩

/-- **Every source applies what it tests** once the conditions are moved. -/
theorem takeCondition_applies (hdistinct : (q.sources.map (·.label)).Nodup)
    (hcheck : ∀ c ∈ q.demands, c.check = .ok ()) {s : Source} (hs : s ∈ q.sources)
    (hfaithful : ∀ c ∈ q.fresh, c.scope = .single s.label → s.Faithful) :
    s.Applies (q.movedTests q.fresh s.label) (s.takeCondition q.fresh) := by
  have hmoves := moves_eq q.fresh hdistinct hs
  rcases s.takeCondition_cases q.fresh with ⟨condition, hc, hf, htakes⟩ | ⟨hstays, htakes⟩
  · obtain ⟨c, hfresh, hscope⟩ := exists_of_conditionOn? hc
    have happlies := Source.filtered?_applies (hfaithful c hfresh hscope) hf
      (Expr.readsOnly_of_conjuncts fun c hmem => Expr.readsOnly_of_scope ((mem_taken hc).mp hmem).2)
      ((Expr.check_eq_ok_iff condition).mpr fun c hmem =>
        hcheck c (mem_demands_iff.mpr (Or.inl ((mem_taken hc).mp hmem).1)))
    refine happlies.congr fun v => ?_
    rw [Expr.holds_eq_all, conjuncts_of_conditionOn? hc]
    unfold movedTests
    rw [hmoves, htakes]
    rfl
  · rw [hstays]
    refine .refl (fun v => ?_) s
    unfold movedTests
    rw [hmoves, htakes]
    rfl

theorem takeCondition_succeeds (es : List Expr) (s : Source) : s.Succeeds (s.takeCondition es) := by
  rcases s.takeCondition_cases es with ⟨condition, -, hf, -⟩ | ⟨hstays, -⟩
  · exact Source.filtered?_succeeds hf
  · rw [hstays]
    exact .refl s

theorem takeCondition_optimizable (h : q.OptimizableHere) (hj : q.joins ≠ []) {s : Source}
    (hs : s ∈ q.sources) (hopt : s.Optimizable) : (s.takeCondition q.fresh).Optimizable := by
  rcases s.takeCondition_cases q.fresh with ⟨condition, hc, hf, -⟩ | ⟨hstays, -⟩
  · obtain ⟨c, hfresh, hscope⟩ := exists_of_conditionOn? hc
    refine Source.filtered?_optimizable hopt hf (fun c hmem => ((mem_taken hc).mp hmem).2)
      (h.faithful hj c hfresh s hs hscope) fun c hmem => ?_
    obtain ⟨hfresh, hscope⟩ := (mem_taken hc).mp hmem
    exact (h.refusesAbsent hj c hfresh s hs hscope).imp_left And.right
  · rw [hstays]
    exact hopt

/-! ## One level -/

/-- What was demanded is what is still demanded and what the sources test, if what is dropped
holds. -/
theorem demands_eq_moved {v : Value}
    (hconstants : ∀ c ∈ q.fresh, c.scope = .constant → c.holds v = true) :
    q.demands.all (·.holds v) = ((q.movedTests q.fresh).passesAll (q.sources.map (·.label)) v &&
      q.moveFilters.demands.all (·.holds v)) := by
  unfold SourceTests.passesAll
  rw [Bool.eq_iff_iff, Bool.and_eq_true, List.all_eq_true, List.all_eq_true, List.all_eq_true]
  constructor
  · intro hall
    refine ⟨fun a _ => movedTests_iff.mpr fun _ c hc _ => ?_, fun c hc => ?_⟩
    · exact hall c (mem_demands_iff.mpr (Or.inl hc))
    · exact hall c (demands_moveFilters_subset q hc)
  · rintro ⟨htests, hstay⟩ c hc
    rcases mem_demands_moved hc with hstays | ⟨hfresh, hscope⟩ | ⟨s, hs, hfresh, hscope, htakes⟩
    · exact hstay c hstays
    · exact hconstants c hfresh hscope
    · exact movedTests_iff.mp (htests s.label (List.mem_map.mpr ⟨s, hs, rfl⟩))
        (moves_of_takesCondition hs htakes) c hfresh hscope

/-- What the sources of a level test is tested again where a source may be absent. -/
theorem movedTests_of_nullable {v : Value} (h : q.moveFilters.demands.all (·.holds v) = true)
    {a : String} (ha : a ∈ q.nullableLabels) : q.movedTests q.fresh a v = true := by
  refine movedTests_iff.mpr fun hmoves c hc hscope => ?_
  refine List.all_eq_true.mp h c (mem_demands_moveFilters.mpr (Or.inr (Or.inl ?_)))
  exact mem_repeated.mpr ⟨hc, a, hscope, hmoves, ha⟩

/-- **Moving the conditions of a level** leaves its rows as they are, if what is dropped holds, what
is tested on a source that may be absent refuses rows without it, and fields of subqueries are fields
of their sources. -/
theorem moveFilters_agrees (hj : q.joins ≠ [])
    (hconstants : ∀ c ∈ q.fresh, c.scope = .constant → ∀ row : Value, row.field? "" = none →
      c.holds row = true)
    (hrefuses : ∀ a ∈ q.nullableLabels, (∃ c ∈ q.fresh, c.scope = .single a) → ∀ row : Value,
      row.field? a = none → (Expr.conditionsOn a q.fresh).all (·.holds row) = false)
    (hfaithful : ∀ c ∈ q.fresh, ∀ s ∈ q.sources, c.scope = .single s.label → s.Faithful) :
    q.Agrees q.moveFilters := by
  intro p hp
  obtain ⟨hdistinct, hnamed⟩ := Plan.ofQuery?_labels hp
  obtain ⟨-, _, _, -, -, hplan⟩ := Plan.ofQuery?_eq_ok.mp hp
  obtain ⟨-, hchecks, -⟩ := plan?_eq_ok.mp hplan
  have hcheck := (Expr.checkAll_eq_ok_iff_conjuncts _).mp hchecks
  have happlies : ∀ s ∈ q.sources,
      s.Applies (q.movedTests q.fresh s.label) (s.takeCondition q.fresh) := fun s hs =>
    takeCondition_applies hdistinct hcheck hs fun c hc => hfaithful c hc s hs
  refine agrees_of_applies (fun _ => movedTests_sound (hnamed hj) hrefuses)
    (happlies q.source List.mem_cons_self) ?_ (demands_moveFilters_subset q)
    (fun v hcovers => demands_eq_moved fun c hc hscope =>
      hconstants c hc hscope v (hcovers.field?_eq_none (hnamed hj)))
    (fun v hv a _ hn => movedTests_of_nullable hv hn) p hp
  rw [List.forall₂_map_right_iff, List.forall₂_same]
  intro j hj
  exact .intro j.kind j.left j.right
    (happlies j.source (List.mem_cons_of_mem _ (List.mem_map.mpr ⟨j, hj, rfl⟩)))

theorem sources_moveFilters (q : Query) :
    q.moveFilters.sources = q.sources.map (Source.takeCondition q.fresh) := by
  unfold sources
  rw [List.map_cons, List.map_map]
  exact congrArg (_ :: ·) List.map_map

/-- Every source of a level is succeeded by what it is after the move. -/
theorem moveFilters_succeeds (q : Query) :
    List.Forall₂ (Join.Over Source.Succeeds) q.joins q.moveFilters.joins := by
  show List.Forall₂ _ q.joins (q.joins.map _)
  rw [List.forall₂_map_right_iff, List.forall₂_same]
  exact fun j _ => .intro j.kind j.left j.right (takeCondition_succeeds q.fresh j.source)

/-- **A level has a plan where it has one after its conditions were moved**, if what is dropped has
a value. -/
theorem moveFilters_plansAs
    (hconstants : ∀ c ∈ q.fresh, c.scope = .constant → c.check = .ok ()) :
    Query.PlansAs q.moveFilters q := by
  intro p hp
  have hlabels : q.moveFilters.sources.map (·.label) = q.sources.map (·.label) := by
    rw [sources_moveFilters, List.map_map]
    exact List.map_congr_left fun s _ => s.label_takeCondition q.fresh
  have hdemands : ∀ c ∈ q.demands, c ∈ q.moveFilters.demands ∨
      (c.check = .ok () ∧ ∀ a ∈ c.labels, a ∈ q.moveFilters.sources.map (·.label)) := by
    intro c hc
    rcases mem_demands_moved hc with hstays | ⟨hfresh, hscope⟩ | ⟨s, hs, hfresh, hscope, htakes⟩
    · exact Or.inl hstays
    · refine Or.inr ⟨hconstants c hfresh hscope, fun a ha => ?_⟩
      exact absurd hscope (Expr.scope_ne_constant ha)
    · -- A source that has a plan with a condition has checked it.
      obtain ⟨condition, hcondition, hf⟩ := s.takeCondition_of_takesCondition htakes
      have hmem : s.takeCondition q.fresh ∈ q.moveFilters.sources := by
        rw [sources_moveFilters]
        exact List.mem_map_of_mem hs
      obtain ⟨p', hp'⟩ := Plan.ofQuery?_sources hp hmem
      have hcheck := (Expr.check_eq_ok_iff condition).mp (Source.check_of_filtered? hf hp')
      refine Or.inr ⟨hcheck c ((mem_taken hcondition).mpr ⟨hfresh, hscope⟩), fun a ha => ?_⟩
      rw [(Expr.readsOnly_of_scope hscope).labels ha, hlabels]
      exact List.mem_map.mpr ⟨s, hs, rfl⟩
  have hback : List.Forall₂ (Join.Over Source.PlansAs) q.moveFilters.joins q.joins :=
    ((moveFilters_succeeds q).imp fun _ _ hj => (hj.imp fun _ _ hs => hs.plans).flip).flip
  have hplan : ∃ p', Plan.ofQuery? (q.moveFilters.revise q.source q.joins q.filters) = .ok p' :=
    revise_plansAs (takeCondition_succeeds q.fresh q.source).plans hback hdemands hp
  exact hplan

/-- **Moving the conditions of a level** optimizes it. -/
theorem moveFilters_optimizesTo (h : Query.Optimizable q) (hj : q.joins ≠ []) :
    q.OptimizesTo q.moveFilters := by
  obtain ⟨hhere, hsources⟩ := Query.everyLevel_iff.mp h
  have hsucceeds := takeCondition_succeeds q.fresh q.source
  refine ⟨?_, fun label => revise_succeeds hsucceeds (moveFilters_succeeds q) label ?_,
    Query.everyLevel_iff.mpr ⟨?_, ?_⟩⟩
  · refine moveFilters_agrees hj (fun c hc hscope row hrow => ?_) ?_ (hhere.faithful hj)
    · rw [Expr.holds_of_constant hscope hrow]
      exact (hhere.constantsHold hj c hc hscope).2
    · rintro a ha ⟨c, hc, hscope⟩ row hrow
      have hlabel := nullableFrom_subset ha
      rw [← labels_eq] at hlabel
      obtain ⟨s, hs, rfl⟩ := List.mem_map.mp hlabel
      refine List.all_eq_false.mpr ⟨c, Expr.mem_conditionsOn.mpr ⟨hc, hscope⟩, ?_⟩
      rcases hhere.refusesAbsent hj c hc s hs hscope with hfirm | hrefuses
      · exact absurd ha hfirm.1
      · rw [hrefuses row hrow]
        exact Bool.false_ne_true
  · exact moveFilters_plansAs fun c hc hscope => (hhere.constantsHold hj c hc hscope).1
  · exact revise_optimizableHere hsucceeds (moveFilters_succeeds q) hhere
      fun _ => fresh_moveFilters_subset q
  · rw [sources_moveFilters, List.forall_mem_map]
    exact fun s hs => takeCondition_optimizable hhere hj hs (hsources s hs)

/-- Putting all conditions into one demands what they demand. -/
theorem demands_joinFilters (q : Query) : q.joinFilters.demands = q.demands := by
  unfold joinFilters
  split
  · rename_i expr hexpr
    split
    · show Expr.conjunctsOfAll [expr] = _
      exact (List.append_nil _).trans (Expr.conjuncts_conjoin? hexpr)
    · rfl
  · rfl

theorem joinFilters_eq (q : Query) :
    q.joinFilters = q.revise q.source q.joins q.joinFilters.filters := by
  unfold joinFilters
  split
  · split
    · rfl
    · rfl
  · rfl

theorem joinFilters_optimizesTo (h : Query.Optimizable q) (hj : q.joins = []) :
    q.OptimizesTo q.joinFilters := by
  obtain ⟨-, hsources⟩ := Query.everyLevel_iff.mp h
  have hdemands := demands_joinFilters q
  rw [joinFilters_eq] at hdemands ⊢
  refine revise_optimizesTo h (.refl (hsources _ List.mem_cons_self)) ?_ hdemands
    fun hne => absurd hj hne
  rw [hj]
  exact .nil

/-- **Pushdown at one level optimizes the level.** -/
theorem pushDown_optimizesTo (h : Query.Optimizable q) : q.OptimizesTo q.pushDown := by
  unfold pushDown
  split
  · exact .refl h
  · split
    · rename_i hj
      exact joinFilters_optimizesTo h (List.isEmpty_iff.mp hj)
    · rename_i hj
      exact moveFilters_optimizesTo h fun hnil => hj (List.isEmpty_iff.mpr hnil)

end Level

end DeltaView
