import DeltaView.Proofs.Query.Optimize

/-!
# Levels over what is made of their sources

A step of optimization works on the sources of a level one by one and on its conditions, and leaves
the other clauses alone. Which conditions a source can test depends on those other clauses, so it is
the same after such a step.

* `Source.induct`: induction over a source and the levels below it.
* `Level.reviseBy`: a level over what a function makes of its sources. `moveFilters_eq`,
  `joinFilters_eq_reviseBy`, **`pass_eq`** and **`collapse_eq`** say so of the steps of optimization.
* `Source.testing`: a source that tests one condition more.
* `Source.TestsAs`: two sources that can test the same conditions, under the same label.
  **`testsAs_takeCondition`**, **`testsAs_pushDown`**: what pushdown makes of a source.
-/

namespace DeltaView

/-! ## Induction -/

/-- **Induction over a source**: a subquery may assume what is to be shown of the sources of its
level. -/
@[elab_as_elim]
theorem Source.induct {motive : Source → Prop}
    (collection : ∀ name label, motive (.collection name label))
    (subquery : ∀ (q : Query) label, (∀ s ∈ q.sources, motive s) → motive (.subquery q label))
    (s : Source) : motive s := by
  refine @Source.rec motive (fun q => ∀ s ∈ q.sources, motive s)
    (fun joins => ∀ j ∈ joins, motive j.source) (fun j => motive j.source) collection subquery
    ?_ ?_ ?_ (fun _ _ _ _ hsource => hsource) s
  · intro source _ joins _ _ _ _ _ _ _ _ _ _ hsource hjoins
    exact List.forall_mem_cons.mpr ⟨hsource, List.forall_mem_map.mpr hjoins⟩
  · exact fun _ hj => absurd hj List.not_mem_nil
  · exact fun _ _ hj hjoins => List.forall_mem_cons.mpr ⟨hj, hjoins⟩

namespace Level

/-! ## Levels over other sources -/

/-- The level over what a function makes of its sources, with other conditions. -/
def reviseBy (q : Query) (f : Source → Source) (filters : List Clause) : Query :=
  q.revise (f q.source) (q.joins.map fun j => { j with source := f j.source }) filters

section ReviseBy

variable (q : Query) (f g : Source → Source) (filters filters' : List Clause)

@[simp]
theorem sources_reviseBy : (q.reviseBy f filters).sources = q.sources.map f := by
  show f q.source :: List.map _ (List.map _ q.joins) = f q.source :: List.map f (List.map _ q.joins)
  rw [List.map_map, List.map_map]
  rfl

@[simp]
theorem filters_reviseBy : (q.reviseBy f filters).filters = filters := rfl

@[simp]
theorem source_reviseBy : (q.reviseBy f filters).source = f q.source := rfl

theorem joins_reviseBy_eq_nil : (q.reviseBy f filters).joins = [] ↔ q.joins = [] :=
  List.map_eq_nil_iff

theorem isEmpty_joins_reviseBy : (q.reviseBy f filters).joins.isEmpty = q.joins.isEmpty :=
  List.isEmpty_map

theorem reviseBy_reviseBy : (q.reviseBy f filters).reviseBy g filters' =
    q.reviseBy (fun s => g (f s)) filters' := by
  show q.revise _ (List.map _ (List.map _ q.joins)) _ = q.revise _ _ _
  rw [List.map_map]
  rfl

variable {q f g filters}

theorem reviseBy_congr (h : ∀ s ∈ q.sources, f s = g s) :
    q.reviseBy f filters = q.reviseBy g filters := by
  have hjoins : q.joins.map (fun j => { j with source := f j.source }) =
      q.joins.map fun j => { j with source := g j.source } :=
    List.map_congr_left fun j hj => congrArg (fun source => { j with source })
      (h j.source (List.mem_cons_of_mem _ (List.mem_map.mpr ⟨j, hj, rfl⟩)))
  unfold reviseBy
  rw [hjoins, h q.source List.mem_cons_self]

/-- A level over its own sources is the level with other conditions. -/
theorem reviseBy_of_sources (h : ∀ s ∈ q.sources, f s = s) :
    q.reviseBy f filters = { q with filters } := by
  rw [reviseBy_congr (g := fun s => s) h]
  show q.revise _ (List.map id q.joins) _ = _
  rw [List.map_id]
  rfl

theorem reviseBy_eq_self (h : ∀ s ∈ q.sources, f s = s) : q.reviseBy f q.filters = q :=
  reviseBy_of_sources h

/-- Where a level is over what a function makes of its sources, the function leaves these alone. -/
theorem sources_of_reviseBy_eq (h : q.reviseBy f filters = q) : ∀ s ∈ q.sources, f s = s := by
  have hsources := congrArg Level.sources h
  rw [sources_reviseBy] at hsources
  exact List.map_inj_left.mp (hsources.trans (List.map_id _).symm)

/-- The conditions that a subquery takes in are those that it takes in over other sources, if its
main source has the same label. -/
theorem takesIn_reviseBy (h : (f q.source).label = q.source.label) (label : String)
    (condition : Expr) :
    (q.reviseBy f filters).takesIn label condition = q.takesIn label condition := by
  have hkeeps : (q.reviseBy f filters).keepsFields label condition =
      q.keepsFields label condition := by
    unfold keepsFields
    rw [isEmpty_joins_reviseBy]
    rfl
  unfold takesIn
  rw [hkeeps, source_reviseBy, h]
  rfl

/-! ## The steps of optimization -/

theorem isForwarding_iff : q.isForwarding = true ↔ q = ofSource q.source := beq_iff_eq

/-- Whether a level only forwards its source does not depend on that source. -/
theorem isForwarding_reviseBy (f : Source → Source) :
    (q.reviseBy f q.filters).isForwarding = q.isForwarding := by
  obtain ⟨source, select, joins, filters, groupBy, having, orderBy, limit, offset, isDistinct,
    rowSelect, rowFilters, rowHaving⟩ := q
  rw [Bool.eq_iff_iff, isForwarding_iff, isForwarding_iff]
  simp [reviseBy, revise, ofSource]

/-- A level with a condition does more than forward its source. -/
theorem isForwarding_withFilter (q : Query) (e : Expr) : (q.withFilter e).isForwarding = false :=
  beq_eq_false_iff_ne.mpr fun heq =>
    List.append_ne_nil_of_right_ne_nil q.filters (List.cons_ne_nil _ [])
      (congrArg Level.filters heq)

theorem moveFilters_eq (q : Query) : q.moveFilters = q.reviseBy (·.takeCondition q.fresh)
    (clauseOf (q.remaining q.fresh) false ++ clauseOf (q.repeated q.fresh) true ++
      q.filters.filter (·.isResidual)) := rfl

theorem joinFilters_eq_reviseBy (q : Query) :
    q.joinFilters = q.reviseBy (fun s => s) q.joinFilters.filters :=
  q.joinFilters_eq.trans (reviseBy_of_sources fun _ _ => rfl).symm

end ReviseBy

end Level

namespace Query

/-- **A pass** pushes down in the sources of a level, then at the level. -/
theorem pass_eq (depth : Nat) (q : Query) :
    pass depth q = (q.reviseBy (·.pushDown depth) q.filters).pushDown := by
  have hjoins : ∀ joins : List (Join Source), Source.pushDownJoins joins depth =
      joins.map fun j => { j with source := j.source.pushDown depth } := by
    intro joins
    induction joins with
    | nil => rfl
    | cons j joins ih => exact congrArg (_ :: ·) ih
  have hlevel : pass depth q = (q.revise (q.source.pushDown depth)
      (Source.pushDownJoins q.joins depth) q.filters).pushDown := by
    cases q
    rfl
  rw [hlevel, hjoins]
  rfl

/-- **The collapse of a query** is the level over the collapse of its sources. -/
theorem collapse_eq (q : Query) : q.collapse = q.reviseBy Source.collapse q.filters := by
  have hjoins : ∀ joins : List (Join Source), Source.collapseJoins joins =
      joins.map fun j => { j with source := j.source.collapse } := by
    intro joins
    induction joins with
    | nil => rfl
    | cons j joins ih => exact congrArg (_ :: ·) ih
  have hlevel : q.collapse =
      q.revise q.source.collapse (Source.collapseJoins q.joins) q.filters := by
    cases q
    rfl
  rw [hlevel, hjoins]
  rfl

end Query

/-! ## Sources that can test the same conditions -/

/-- **A source that can test what another one can**, under the same label. -/
structure Source.TestsAs (s t : Source) : Prop where
  label : s.label = t.label
  tests : ∀ condition, (s.filtered? condition).isSome = (t.filtered? condition).isSome

namespace Source

variable {s t : Source}

theorem TestsAs.refl (s : Source) : s.TestsAs s := ⟨rfl, fun _ => rfl⟩

theorem TestsAs.trans {u : Source} (h : s.TestsAs t) (h' : t.TestsAs u) : s.TestsAs u :=
  ⟨h.label.trans h'.label, fun condition => (h.tests condition).trans (h'.tests condition)⟩

/-- Such sources take a condition for the same conjuncts. -/
theorem TestsAs.takesCondition (h : s.TestsAs t) (es : List Expr) :
    s.takesCondition es = t.takesCondition es := by
  unfold Source.takesCondition
  rw [h.label]
  cases Expr.conditionOn? t.label es with
  | none => rfl
  | some condition => exact h.tests condition

theorem isSome_filtered?_subquery (q : Query) (label : String) (condition : Expr) :
    ((subquery q label).filtered? condition).isSome = q.takesIn label condition := by
  show (if q.takesIn label condition then some (subquery (q.withFilter condition) label)
    else none).isSome = _
  split
  · rename_i htakes
    exact htakes.symm
  · rename_i hrefuses
    exact (eq_false_of_ne_true hrefuses).symm

/-- A subquery over other sources tests what it tested, if its main source has the same label. -/
theorem testsAs_reviseBy {q : Query} {f : Source → Source}
    (h : (f q.source).label = q.source.label) (filters : List Clause) (label : String) :
    (subquery (q.reviseBy f filters) label).TestsAs (subquery q label) where
  label := rfl
  tests condition := by
    rw [isSome_filtered?_subquery, isSome_filtered?_subquery, Level.takesIn_reviseBy h]

theorem testsAs_withFilter (q : Query) (e : Expr) (label : String) :
    (subquery (q.withFilter e) label).TestsAs (subquery q label) := by
  have h := testsAs_reviseBy (q := q) (f := fun s => s) rfl (q.filters ++ [{ expr := e }]) label
  rw [Level.reviseBy_of_sources fun _ _ => rfl] at h
  exact h

/-! ## Sources that take a condition -/

/-- The source with one condition more: a collection becomes a subquery for it. -/
def testing (e : Expr) : Source → Source
  | .collection name label => .subquery ((Level.ofSource (.collection name label)).withFilter e) label
  | .subquery q label => .subquery (q.withFilter e) label

theorem eq_testing_of_filtered? {s' : Source} {e : Expr} (h : s.filtered? e = some s') :
    s' = s.testing e := by
  rcases filtered?_eq_some h with ⟨hcollection, rfl⟩ | ⟨q, label, rfl, -, rfl⟩
  · cases s with
    | collection name label => rfl
    | subquery q label => exact absurd hcollection Bool.false_ne_true
  · rfl

theorem takeCondition_eq_or (es : List Expr) (s : Source) :
    s.takeCondition es = s ∨ ∃ e, s.takeCondition es = s.testing e := by
  rcases s.takeCondition_cases es with ⟨e, -, hf, -⟩ | ⟨hstays, -⟩
  · exact Or.inr ⟨e, eq_testing_of_filtered? hf⟩
  · exact Or.inl hstays

theorem testing_ne (e : Expr) (s : Source) : s.testing e ≠ s := by
  cases s with
  | collection name label => exact fun heq => Source.noConfusion heq
  | subquery q label =>
    intro heq
    have hfilters : q.filters ++ [{ expr := e }] = q.filters :=
      congrArg Level.filters (subquery.inj heq).1
    exact List.cons_ne_nil _ _ (List.append_right_eq_self.mp hfilters)

theorem testsAs_testing (e : Expr) (s : Source) : (s.testing e).TestsAs s := by
  cases s with
  | collection name label =>
    refine ⟨rfl, fun condition => ?_⟩
    rw [testing, (testsAs_withFilter _ e label).tests, isSome_filtered?_subquery]
    exact Level.takesIn_ofSource (.collection name label) condition
  | subquery q label => exact testsAs_withFilter q e label

/-- **A source that takes a condition** can test what it could. -/
theorem testsAs_takeCondition (es : List Expr) (s : Source) : (s.takeCondition es).TestsAs s := by
  rcases s.takeCondition_eq_or es with hstays | ⟨e, htakes⟩
  · rw [hstays]
    exact .refl s
  · rw [htakes]
    exact s.testsAs_testing e

end Source

/-! ## What a pass makes of a source -/

/-- At one level pushdown is a revision, by sources that can test the same conditions. -/
theorem Level.pushDown_eq_reviseBy (q : Query) : ∃ f filters, q.pushDown = q.reviseBy f filters ∧
    ∀ s : Source, (f s).TestsAs s := by
  unfold pushDown
  split
  · exact ⟨fun s => s, q.filters, (reviseBy_eq_self fun _ _ => rfl).symm, .refl⟩
  · split
    · exact ⟨_, _, q.joinFilters_eq_reviseBy, .refl⟩
    · exact ⟨_, _, q.moveFilters_eq, Source.testsAs_takeCondition q.fresh⟩

theorem Source.label_pushDown (s : Source) (depth : Nat) : (s.pushDown depth).label = s.label := by
  cases s with
  | collection name label => rfl
  | subquery q label =>
    cases depth with
    | zero => rfl
    | succ depth => rfl

/-- So is a whole pass. -/
theorem Query.pass_eq_reviseBy (depth : Nat) (q : Query) : ∃ f filters,
    pass depth q = q.reviseBy f filters ∧ ∀ s : Source, (f s).label = s.label := by
  obtain ⟨f, filters, heq, htests⟩ :=
    (q.reviseBy (·.pushDown depth) q.filters).pushDown_eq_reviseBy
  refine ⟨fun s => f (s.pushDown depth), filters, ?_, fun s => ?_⟩
  · rw [pass_eq, heq, Level.reviseBy_reviseBy]
  · rw [(htests _).label, Source.label_pushDown]

/-- **A source in which conditions are pushed down** can test what it could. -/
theorem Source.testsAs_pushDown (s : Source) (depth : Nat) : (s.pushDown depth).TestsAs s := by
  cases s with
  | collection name label => exact .refl _
  | subquery q label =>
    cases depth with
    | zero => exact .refl _
    | succ depth =>
      obtain ⟨f, filters, heq, hlabel⟩ := Query.pass_eq_reviseBy depth q
      show (subquery (Query.pass depth q) label).TestsAs _
      rw [heq]
      exact testsAs_reviseBy (hlabel _) filters label

end DeltaView
