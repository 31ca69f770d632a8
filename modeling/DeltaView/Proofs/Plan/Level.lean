import DeltaView.Proofs.Distinct
import DeltaView.Proofs.Group.Operator
import DeltaView.Proofs.Join.Orientation
import DeltaView.Proofs.Plan.OfQuery
import DeltaView.Query.Build

/-!
# The plan of one level

The plan of a level tests the conditions on the rows of its sources, and goes on from there in a
way that knows neither the conditions nor the sources.

* `Plan.Respects`: what a step makes of a plan shows the same rows if the plan does, and needs no
  more to be assumed. `rows_congr`: so do all plans on tables with the same rows.
* `Level.demands`, `demanded`, **`rows_planFilters`**: the conjuncts of the conditions, and the rows
  that are left when all of them are tested.
* `finish?`, **`plan?_eq_ok`**, `finish?_eq_ok`: a level is its checks, its conditions and the rest,
  which respects rows.
* `Plan.Agrees`, `revise`, **`revise_plan?`**: a level with other sources and conditions has a plan
  as well, if these have values and read no other source.
* `ofQuery?_labels`: a query that has a plan tells its sources apart.
* `isRank_of_ofQuery?`: its plan ends with a ranking if it has ORDER BY.
-/

namespace DeltaView

open Delta (Same)

namespace Plan

/-! ## Steps that respect rows -/

/-- **What a step makes of a plan depends on the rows of the plan alone**, and so does what has to
be assumed of it. -/
structure Respects (step : Plan → Plan) : Prop where
  same : ∀ (functions : RowFunctions) (tables tables' : Snapshot) (p p' : Plan),
    Same (p'.rows functions tables') (p.rows functions tables) →
    Same ((step p').rows functions tables') ((step p).rows functions tables)
  regular : ∀ (functions : RowFunctions) (snapshots : List Snapshot) (p p' : Plan),
    (∀ tables ∈ snapshots, Same (p'.rows functions tables) (p.rows functions tables)) →
    (p.Regular functions snapshots → p'.Regular functions snapshots) →
    (step p).Regular functions snapshots → (step p').Regular functions snapshots

namespace Respects

variable {step step' : Plan → Plan}

theorem id : Respects fun p => p := ⟨fun _ _ _ _ _ h => h, fun _ _ _ _ _ h => h⟩

theorem comp (h : Respects step) (h' : Respects step') : Respects fun p => step' (step p) where
  same _ _ _ _ _ hs := h'.same _ _ _ _ _ (h.same _ _ _ _ _ hs)
  regular _ _ _ _ hs hr :=
    h'.regular _ _ _ _ (fun tables ht => h.same _ _ _ _ _ (hs tables ht)) (h.regular _ _ _ _ hs hr)

theorem filter (condition : Expr) : Respects (.filter condition) :=
  ⟨fun _ _ _ _ _ h => h.filterItems _, fun _ _ _ _ _ h => h⟩

theorem filterBy (test : RowFunction) : Respects (.filterBy test) :=
  ⟨fun _ _ _ _ _ h => h.filterItems _, fun _ _ _ _ _ h => h⟩

theorem project (projection : Projection) : Respects (.project projection) :=
  ⟨fun _ _ _ _ _ h => h.mapItems _, fun _ _ _ _ _ h => h⟩

theorem group (terms : GroupTerms) : Respects (.group terms) where
  same _ _ _ _ _ h :=
    .of_eq (congrArg (Delta.mapItems (withGroupFields terms)) (GroupRule.table_congr h))
  regular _ _ _ _ hs hr := fun ⟨hp, hsteady⟩ =>
    ⟨hr hp, fun tables ht => (hsteady tables ht).congr (hs tables ht).symm⟩

theorem distinct : Respects .distinct where
  same _ _ _ _ _ h :=
    .of_eq (congrArg (Delta.mapItems Row.asSelected) (DistinctState.table_congr (h.mapItems _)))
  regular _ _ _ _ _ h := h

theorem rank (terms : List OrderTerm) (window : Window) : Respects (.rank terms window) where
  same _ _ _ _ _ h := by
    unfold rows ranked
    rw [Ranking.rankedRows_congr (h.mapItems _)]
  regular _ _ _ _ hs hr := fun ⟨hp, horder⟩ =>
    ⟨hr hp, horder.mono fun _ ⟨tables, ht, hv⟩ => ⟨tables, ht, hv.congr (hs tables ht)⟩⟩

theorem output : Respects .output := ⟨fun _ _ _ _ _ h => h.mapItems _, fun _ _ _ _ _ h => h⟩

theorem named (label : String) : Respects (.named label) :=
  ⟨fun _ _ _ _ _ h => h.mapItems _, fun _ _ _ _ _ h => h⟩

theorem foldl {α : Type} {f : Plan → α → Plan} (h : ∀ a, Respects fun p => f p a)
    (items : List α) : Respects fun p => items.foldl f p := by
  induction items with
  | nil => exact .id
  | cons a items ih => exact (h a).comp ih

end Respects

/-- **The rows of a plan depend on the rows of the tables alone.** -/
theorem rows_congr (functions : RowFunctions) {tables tables' : Snapshot}
    (h : ∀ name, Same (tables' name).rows (tables name).rows) :
    ∀ p : Plan, Same (p.rows functions tables') (p.rows functions tables)
  | .scan name => h name
  | .named label p => (Respects.named label).same _ _ _ _ _ (rows_congr functions h p)
  | .join _ _ _ p q =>
    JoinRule.table_congr _ (rows_congr functions h p) (rows_congr functions h q)
  | .filter condition p => (Respects.filter condition).same _ _ _ _ _ (rows_congr functions h p)
  | .filterBy test p => (Respects.filterBy test).same _ _ _ _ _ (rows_congr functions h p)
  | .project projection p => (Respects.project projection).same _ _ _ _ _ (rows_congr functions h p)
  | .group terms p => (Respects.group terms).same _ _ _ _ _ (rows_congr functions h p)
  | .distinct p => Respects.distinct.same _ _ _ _ _ (rows_congr functions h p)
  | .rank terms window p => (Respects.rank terms window).same _ _ _ _ _ (rows_congr functions h p)
  | .output p => Respects.output.same _ _ _ _ _ (rows_congr functions h p)

/-! ## Plans that end with a ranking -/

theorem isRank_foldl {α : Type} {f : Plan → α → Plan} (h : ∀ p a, (f p a).isRank = false)
    (items : List α) {p : Plan} (hp : p.isRank = false) : (items.foldl f p).isRank = false := by
  induction items generalizing p with
  | nil => exact hp
  | cons a items ih => exact ih (h p a)

/-- A plan without a ranking at its end has no window to move. -/
theorem atWindow_output {p : Plan} (h : p.isRank = false) (window : Option Window) :
    (Plan.output p).atWindow window = .output p := by
  cases p with
  | rank terms w p => exact absurd h (by simp [isRank])
  | _ => rfl

/-- **A plan with the same rows**, also when a window at its end moves, of which no more has to be
assumed. -/
structure Agrees (p p' : Plan) : Prop where
  same : ∀ (functions : RowFunctions) (tables : Snapshot) (window : Option Window),
    Same ((p'.atWindow window).rows functions tables) ((p.atWindow window).rows functions tables)
  regular : ∀ (functions : RowFunctions) (snapshots : List Snapshot),
    p.Regular functions snapshots → p'.Regular functions snapshots

namespace Agrees

variable {p p' p'' : Plan}

theorem refl (p : Plan) : p.Agrees p := ⟨fun _ _ _ => .refl _, fun _ _ h => h⟩

theorem trans (h : p.Agrees p') (h' : p'.Agrees p'') : p.Agrees p'' :=
  ⟨fun functions tables window =>
    (h'.same functions tables window).trans (h.same functions tables window),
    fun functions snapshots hr => h'.regular functions snapshots (h.regular functions snapshots hr)⟩

end Agrees

end Plan

namespace Level

/-! ## Conditions of a level -/

/-- The conjuncts of all conditions of a level. -/
def demands (q : Query) : List Expr := Expr.conjunctsOfAll (q.filters.map (·.expr))

/-- The rows of some sources on which all that a level demands holds. -/
def demanded (q : Query) (functions : RowFunctions) (tables : Snapshot) (sources : Plan) :
    Delta Row :=
  Delta.filterItems (fun r => q.demands.all (·.holds r.value)) (sources.rows functions tables)

theorem rows_foldl_filter (functions : RowFunctions) (tables : Snapshot) (conditions : List Clause)
    (p : Plan) :
    (conditions.foldl (fun p c => .filter c.expr p) p).rows functions tables =
      Delta.filterItems (fun r => conditions.all (·.expr.holds r.value))
        (p.rows functions tables) := by
  induction conditions generalizing p with
  | nil => exact (Delta.filterItems_eq_self fun _ _ => rfl).symm
  | cons c conditions ih =>
    rw [List.foldl_cons, ih]
    show Delta.filterItems _ (Delta.filterItems _ (p.rows functions tables)) = _
    rw [Delta.filterItems_filterItems]
    rfl

theorem rows_foldl_filterBy (functions : RowFunctions) (tables : Snapshot)
    (tests : List RowFunction) (p : Plan) :
    (tests.foldl (fun p f => .filterBy f p) p).rows functions tables =
      Delta.filterItems (fun r => tests.all fun f => (functions f r.value).isTruthy)
        (p.rows functions tables) := by
  induction tests generalizing p with
  | nil => exact (Delta.filterItems_eq_self fun _ _ => rfl).symm
  | cons f tests ih =>
    rw [List.foldl_cons, ih]
    show Delta.filterItems _ (Delta.filterItems _ (p.rows functions tables)) = _
    rw [Delta.filterItems_filterItems]
    rfl

/-- **The rows that are left after WHERE** are those on which all that is demanded holds. -/
theorem rows_planFilters (functions : RowFunctions) (tables : Snapshot) (q : Query)
    (sources : Plan) :
    (q.planFilters sources).rows functions tables =
      Delta.filterItems (fun r => q.rowFilters.all fun f => (functions f r.value).isTruthy)
        (q.demanded functions tables sources) := by
  unfold planFilters
  rw [rows_foldl_filterBy, rows_foldl_filter]
  refine congrArg _ (Delta.filterItems_congr fun e _ => ?_)
  unfold demands
  rw [← Expr.all_holds_eq_all, List.all_map]
  rfl

theorem regular_foldl {α : Type} {f : Plan → α → Plan} {functions : RowFunctions}
    {snapshots : List Snapshot}
    (h : ∀ p a, (f p a).Regular functions snapshots ↔ p.Regular functions snapshots)
    (items : List α) (p : Plan) :
    (items.foldl f p).Regular functions snapshots ↔ p.Regular functions snapshots := by
  induction items generalizing p with
  | nil => exact Iff.rfl
  | cons a items ih => exact (ih (f p a)).trans (h p a)

/-- Conditions assume nothing. -/
theorem regular_planFilters (functions : RowFunctions) (snapshots : List Snapshot) (q : Query)
    (sources : Plan) :
    (q.planFilters sources).Regular functions snapshots ↔ sources.Regular functions snapshots :=
  (regular_foldl (f := fun p test => .filterBy test p) (fun _ _ => Iff.rfl) _ _).trans
    (regular_foldl (f := fun p (c : Clause) => .filter c.expr p) (fun _ _ => Iff.rfl) _ _)

/-! ## The rest of a level -/

/-- The plan of a level from SELECT on. -/
def finish? (q : Query) (rows : Plan) : Except Error Plan := do
  let selected ← q.planSelect? rows
  let kept ← q.planHaving? selected
  let ordered ← q.planOrder? (if q.isDistinct then .distinct kept else kept)
  return .output ordered

/-- **A level is its checks, its conditions and the rest.** -/
theorem plan?_eq_ok {q : Query} {known : List String} {sources p : Plan} :
    q.plan? known sources = .ok p ↔ q.checkLabels known = .ok () ∧
      Expr.checkAll (q.filters.map (·.expr)) = .ok () ∧
      q.finish? (q.planFilters sources) = .ok p := by
  show (q.checkLabels known >>= fun _ => Expr.checkAll (q.filters.map (·.expr)) >>= fun _ =>
    q.finish? (q.planFilters sources)) = .ok p ↔ _
  rw [bind_eq_ok]
  refine ⟨fun ⟨_, hl, h⟩ => ?_, fun ⟨hl, hc, h⟩ => ⟨(), hl, bind_eq_ok.mpr ⟨(), hc, h⟩⟩⟩
  obtain ⟨_, hc, h⟩ := bind_eq_ok.mp h
  exact ⟨hl, hc, h⟩

theorem planSelect?_eq_ok {q : Query} {rows p : Plan} (h : q.planSelect? rows = .ok p) :
    ∃ step : Plan → Plan, p = step rows ∧ Plan.Respects step ∧
      ∀ rows, q.planSelect? rows = .ok (step rows) ∧ (step rows).isRank = false := by
  unfold planSelect? at h ⊢
  split at h
  · rename_i hg
    obtain ⟨terms, ht, rfl⟩ := map_eq_ok.mp h
    refine ⟨.group terms, rfl, .group terms, fun rows => ⟨?_, rfl⟩⟩
    rw [if_pos hg, ht]
    rfl
  · rename_i hg
    obtain ⟨projection, hp, rfl⟩ := map_eq_ok.mp h
    refine ⟨.project projection, rfl, .project projection, fun rows => ⟨?_, rfl⟩⟩
    rw [if_neg hg, hp]
    rfl

theorem planHaving?_eq_ok {q : Query} {rows p : Plan} (h : q.planHaving? rows = .ok p) :
    ∃ step : Plan → Plan, p = step rows ∧ Plan.Respects step ∧
      ∀ rows, q.planHaving? rows = .ok (step rows) ∧
        (rows.isRank = false → (step rows).isRank = false) := by
  obtain ⟨conditions, hc, h⟩ := bind_eq_ok.mp h
  obtain rfl := Except.ok.inj h
  refine ⟨fun rows => q.rowHaving.foldl (fun p f => .filterBy f p)
    (conditions.foldl (fun p c => .filter c p) rows), rfl,
    (Plan.Respects.foldl Plan.Respects.filter conditions).comp
      (Plan.Respects.foldl Plan.Respects.filterBy q.rowHaving),
    fun rows => ⟨bind_eq_ok.mpr ⟨conditions, hc, rfl⟩, fun hr => ?_⟩⟩
  exact Plan.isRank_foldl (fun _ _ => rfl) _ (Plan.isRank_foldl (fun _ _ => rfl) _ hr)

/-- ORDER BY ranks the rows, or leaves them as they are. -/
theorem planOrder?_eq_ok {q : Query} {rows p : Plan} (h : q.planOrder? rows = .ok p) :
    (q.orderBy = [] ∧ p = rows ∧ ∀ rows, q.planOrder? rows = .ok rows) ∨
      q.orderBy ≠ [] ∧ ∃ terms, p = .rank terms q.window rows ∧
        ∀ rows, q.planOrder? rows = .ok (.rank terms q.window rows) := by
  obtain ⟨terms, ht, h⟩ := bind_eq_ok.mp h
  have hlength := (mapM_eq_ok.mp ht).length_eq
  have hall : ∀ rows, q.planOrder? rows =
      .ok (if terms.isEmpty then rows else .rank terms q.window rows) := fun rows =>
    bind_eq_ok.mpr ⟨terms, ht, rfl⟩
  obtain rfl := Except.ok.inj h
  cases terms with
  | nil => exact Or.inl ⟨List.length_eq_zero_iff.mp hlength, rfl, hall⟩
  | cons t terms =>
    refine Or.inr ⟨fun hnil => ?_, t :: terms, rfl, hall⟩
    rw [hnil] at hlength
    exact absurd hlength (by simp)

/-- **From SELECT on a level respects rows**, also when its window moves. -/
theorem finish?_eq_ok {q : Query} {rows p : Plan} (h : q.finish? rows = .ok p) :
    ∃ step : Plan → Plan, p = step rows ∧ Plan.Respects step ∧
      (∀ window, Plan.Respects fun rows => (step rows).atWindow window) ∧
      ∀ rows, q.finish? rows = .ok (step rows) := by
  obtain ⟨selected, hs, h⟩ := bind_eq_ok.mp h
  obtain ⟨kept, hk, h⟩ := bind_eq_ok.mp h
  obtain ⟨ordered, ho, h⟩ := bind_eq_ok.mp h
  obtain rfl := Except.ok.inj h
  obtain ⟨select, rfl, hselect, hs⟩ := planSelect?_eq_ok hs
  obtain ⟨having, rfl, hhaving, hk⟩ := planHaving?_eq_ok hk
  have hdistinct : Plan.Respects fun p : Plan => if q.isDistinct then .distinct p else p := by
    cases q.isDistinct with
    | true => exact .distinct
    | false => exact .id
  have hrank : ∀ rows : Plan, (if q.isDistinct then Plan.distinct (having (select rows))
      else having (select rows)).isRank = false := fun rows => by
    split
    · rfl
    · exact (hk _).2 (hs rows).2
  have hsteps := (hselect.comp hhaving).comp hdistinct
  rcases planOrder?_eq_ok ho with ⟨-, rfl, horder⟩ | ⟨-, terms, rfl, horder⟩
  · refine ⟨_, rfl, hsteps.comp .output, fun window => ?_, fun rows =>
      bind_eq_ok.mpr ⟨_, (hs rows).1, bind_eq_ok.mpr ⟨_, (hk _).1,
        bind_eq_ok.mpr ⟨_, horder _, rfl⟩⟩⟩⟩
    simp only [Plan.atWindow_output (hrank _)]
    exact hsteps.comp .output
  · exact ⟨_, rfl, (hsteps.comp (.rank terms _)).comp .output,
      fun window => (hsteps.comp (.rank terms _)).comp .output, fun rows =>
        bind_eq_ok.mpr ⟨_, (hs rows).1, bind_eq_ok.mpr ⟨_, (hk _).1,
          bind_eq_ok.mpr ⟨_, horder _, rfl⟩⟩⟩⟩

/-! ## Other sources and conditions -/

theorem mem_conjunctsOfClauses {filters : List Clause} {c : Expr} :
    c ∈ Expr.conjunctsOfAll (filters.map (·.expr)) ↔ ∃ f ∈ filters, c ∈ f.expr.conjuncts := by
  rw [Expr.conjunctsOfAll_eq_flatMap, List.flatMap_map, List.mem_flatMap]

theorem mem_demands {q : Query} {c : Expr} :
    c ∈ q.demands ↔ ∃ f ∈ q.filters, c ∈ f.expr.conjuncts := mem_conjunctsOfClauses

/-- Conjuncts of a level are not taken apart any further. -/
theorem conjuncts_of_mem_demands {q : Query} {c : Expr} (h : c ∈ q.demands) : c.conjuncts = [c] :=
  Expr.conjuncts_of_mem_all _ h

theorem demands_withFilter (q : Query) (condition : Expr) :
    (q.withFilter condition).demands = q.demands ++ condition.conjuncts := by
  unfold demands withFilter
  rw [List.map_append, Expr.conjunctsOfAll_append]
  exact congrArg _ (List.append_nil _)

theorem checkLabels_eq_ok {q : Query} {known : List String} :
    q.checkLabels known = .ok () ↔
      ∀ e ∈ q.expressions, ∀ a ∈ e.labels, a = selectedField ∨ a ∈ known := by
  unfold checkLabels missingLabel?
  constructor
  · intro h e he a ha
    split at h
    · exact absurd h (by simp)
    · rename_i hnone
      have := List.find?_eq_none.mp hnone a (List.mem_flatMap.mpr ⟨e, he, ha⟩)
      by_contra hneither
      rw [not_or] at hneither
      exact this (by simp [hneither.1, hneither.2])
  · intro h
    have : (q.expressions.flatMap Expr.labels).find?
        (fun a => a != selectedField && !known.contains a) = none := by
      refine List.find?_eq_none.mpr fun a ha => ?_
      obtain ⟨e, he, ha⟩ := List.mem_flatMap.mp ha
      rcases h e he a ha with rfl | hk
      · simp
      · simp [hk]
    rw [this]

variable {q : Query} {source : Source} {joins : List (Join Source)} {filters : List Clause}
  {known : List String}

/-- The level with other sources and conditions. -/
def revise (q : Query) (source : Source) (joins : List (Join Source)) (filters : List Clause) :
    Query := { q with source, joins, filters }

theorem checkLabels_revise (h : q.checkLabels known = .ok ())
    (hd : ∀ c ∈ (q.revise source joins filters).demands,
      c ∈ q.demands ∨ ∀ a ∈ c.labels, a ∈ known) :
    (q.revise source joins filters).checkLabels known = .ok () := by
  rw [checkLabels_eq_ok] at h ⊢
  unfold expressions at h ⊢
  simp only [List.mem_append] at h ⊢
  rintro e ((((he | he) | he) | he) | he) a ha
  · obtain ⟨f, hf, rfl⟩ := List.mem_map.mp he
    obtain ⟨c, hc, hca⟩ := Expr.mem_labels_iff.mp ha
    rcases hd c (mem_demands.mpr ⟨f, hf, hc⟩) with hold | hknown
    · obtain ⟨g, hg, hcg⟩ := mem_demands.mp hold
      exact h g.expr (Or.inl (Or.inl (Or.inl (Or.inl (List.mem_map.mpr ⟨g, hg, rfl⟩))))) a
        (Expr.mem_labels_iff.mpr ⟨c, hcg, hca⟩)
    · exact Or.inr (hknown a hca)
  · exact h e (Or.inl (Or.inl (Or.inl (Or.inr he)))) a ha
  · exact h e (Or.inl (Or.inl (Or.inr he))) a ha
  · exact h e (Or.inl (Or.inr he)) a ha
  · exact h e (Or.inr he) a ha

/-- The rest of a level knows the label of its source and whether there are others. -/
theorem finish?_revise (hl : source.label = q.source.label) (hj : joins.isEmpty = q.joins.isEmpty)
    (rows : Plan) : (q.revise source joins filters).finish? rows = q.finish? rows := by
  have hp : (q.revise source joins filters).projection? = q.projection? := by
    simp only [projection?, revise, hl, hj]
  unfold finish? planSelect?
  rw [hp]
  rfl

/-- **A level with other sources and conditions has a plan as well**, which shows the same rows
where WHERE leaves the same rows, and assumes no more if the sources do not. -/
theorem revise_plan? {sources p : Plan} (h : q.plan? known sources = .ok p)
    (hl : source.label = q.source.label) (hj : joins.isEmpty = q.joins.isEmpty)
    (hd : ∀ c ∈ (q.revise source joins filters).demands,
      c ∈ q.demands ∨ (c.check = .ok () ∧ ∀ a ∈ c.labels, a ∈ known)) (sources' : Plan) :
    ∃ p', (q.revise source joins filters).plan? known sources' = .ok p' ∧
      (∀ (functions : RowFunctions) (tables tables' : Snapshot) (window : Option Window),
        Same ((q.revise source joins filters).demanded functions tables' sources')
          (q.demanded functions tables sources) →
        Same ((p'.atWindow window).rows functions tables')
          ((p.atWindow window).rows functions tables)) ∧
      ∀ (functions : RowFunctions) (snapshots : List Snapshot),
        (∀ tables ∈ snapshots, Same ((q.revise source joins filters).demanded functions tables
          sources') (q.demanded functions tables sources)) →
        (sources.Regular functions snapshots → sources'.Regular functions snapshots) →
        p.Regular functions snapshots → p'.Regular functions snapshots := by
  obtain ⟨hlabels, hcheck, hfinish⟩ := plan?_eq_ok.mp h
  rw [Expr.checkAll_eq_ok_iff_conjuncts] at hcheck
  obtain ⟨step, rfl, hstep, hwindow, hall⟩ := finish?_eq_ok hfinish
  have hrows : ∀ (functions : RowFunctions) (tables tables' : Snapshot),
      Same ((q.revise source joins filters).demanded functions tables' sources')
        (q.demanded functions tables sources) →
      Same (((q.revise source joins filters).planFilters sources').rows functions tables')
        ((q.planFilters sources).rows functions tables) := fun functions tables tables' hsame => by
    rw [rows_planFilters, rows_planFilters]
    exact hsame.filterItems _
  refine ⟨step ((q.revise source joins filters).planFilters sources'),
    plan?_eq_ok.mpr ⟨?_, ?_, ?_⟩, fun functions tables tables' window hsame => ?_,
    fun functions snapshots hsame hregular => ?_⟩
  · exact checkLabels_revise hlabels fun c hc => (hd c hc).imp_right And.right
  · exact (Expr.checkAll_eq_ok_iff_conjuncts _).mpr fun c hc => (hd c hc).elim (hcheck c) And.left
  · rw [finish?_revise hl hj]
    exact hall _
  · exact (hwindow window).same functions tables tables' _ _ (hrows functions tables tables' hsame)
  · refine hstep.regular functions snapshots _ _
      (fun tables ht => hrows functions tables tables (hsame tables ht)) ?_
    rw [regular_planFilters, regular_planFilters]
    exact hregular

end Level

/-! ## Levels and their sources -/

theorem Level.labels_eq (q : Query) :
    q.sources.map (·.label) = [q.source.label] ++ q.joins.map (·.source.label) :=
  congrArg (q.source.label :: ·) List.map_map

/-- The plan of a query: the plans of its sources, joined, and the plan of its level. -/
theorem Plan.ofQuery?_eq_ok {q : Query} {p : Plan} :
    ofQuery? q = .ok p ↔ q.checkClauses = .ok () ∧ ∃ main sources,
      ofSource? q.source = .ok main ∧ ofJoins? main [q.source.label] q.joins = .ok sources ∧
      q.plan? (q.sources.map (·.label)) sources = .ok p := by
  obtain ⟨source, select, joins, filters, groupBy, having, orderBy, limit, offset, isDistinct,
    rowSelect, rowFilters, rowHaving⟩ := q
  constructor
  · intro h
    obtain ⟨_, hc, h⟩ := bind_eq_ok.mp h
    obtain ⟨main, hm, h⟩ := bind_eq_ok.mp h
    obtain ⟨sources, hs, h⟩ := bind_eq_ok.mp h
    exact ⟨hc, main, sources, hm, hs, h⟩
  · rintro ⟨hc, main, sources, hm, hs, h⟩
    exact bind_eq_ok.mpr ⟨(), hc, bind_eq_ok.mpr ⟨main, hm, bind_eq_ok.mpr ⟨sources, hs, h⟩⟩⟩

theorem Plan.ofJoins?_sources {joins : List (Join Source)} {main p : Plan} {known : List String}
    (h : ofJoins? main known joins = .ok p) {j : Join Source} (hj : j ∈ joins) :
    ∃ p, ofSource? j.source = .ok p := by
  induction joins generalizing main known with
  | nil => exact absurd hj List.not_mem_nil
  | cons j' joins ih =>
    obtain ⟨kind, source, left, right⟩ := j'
    obtain ⟨joined, hjoined, h⟩ := bind_eq_ok.mp h
    obtain ⟨rows, -, h⟩ := bind_eq_ok.mp h
    rcases List.mem_cons.mp hj with rfl | hrest
    · exact ⟨joined, hjoined⟩
    · exact ih h hrest

/-- Every source of a query that has a plan has one. -/
theorem Plan.ofQuery?_sources {q : Query} {p : Plan} (h : ofQuery? q = .ok p) {s : Source}
    (hs : s ∈ q.sources) : ∃ p, ofSource? s = .ok p := by
  obtain ⟨-, main, sources, hmain, hsources, -⟩ := ofQuery?_eq_ok.mp h
  rcases List.mem_cons.mp hs with rfl | hjoined
  · exact ⟨main, hmain⟩
  · obtain ⟨j, hj, rfl⟩ := List.mem_map.mp hjoined
    exact ofJoins?_sources hsources hj

/-- What is joined has a name of its own, and so has a source that it is joined to. -/
theorem Plan.join?_labels {main joined p : Plan} {known : List String} {kind : JoinKind}
    {left right : Expr} {label : String}
    (h : join? main joined known kind left right label = .ok p) :
    label ∉ known ∧ label ≠ "" ∧ ∃ a ∈ known, a ≠ "" := by
  obtain ⟨c, hc, hknown, -⟩ := join?_condition h
  obtain ⟨hsuits, -⟩ := JoinCondition.orient_eq_ok.mp hc
  obtain ⟨a, ha, -, hnamed⟩ := hsuits.main
  exact ⟨hknown, hsuits.joined.ne_empty, a, ha, hnamed.ne_empty⟩

theorem Plan.ofJoins?_labels {joins : List (Join Source)} {main p : Plan} {known : List String}
    (h : ofJoins? main known joins = .ok p) (hnodup : known.Nodup) :
    (known ++ joins.map (·.source.label)).Nodup ∧ "" ∉ joins.map (·.source.label) := by
  induction joins generalizing main known with
  | nil => exact ⟨by rwa [List.map_nil, List.append_nil], List.not_mem_nil⟩
  | cons j joins ih =>
    obtain ⟨kind, source, left, right⟩ := j
    obtain ⟨joined, -, h⟩ := bind_eq_ok.mp h
    obtain ⟨rows, hrows, h⟩ := bind_eq_ok.mp h
    obtain ⟨hnew, hnamed, -⟩ := join?_labels hrows
    have hnodup' : (known ++ [source.label]).Nodup := List.nodup_append'.mpr
      ⟨hnodup, List.nodup_singleton _, List.disjoint_singleton.mpr hnew⟩
    obtain ⟨hrest, hnamed'⟩ := ih h hnodup'
    rw [List.map_cons, List.append_cons]
    exact ⟨hrest, List.not_mem_cons_of_ne_of_not_mem (Ne.symm hnamed) hnamed'⟩

/-- **A query that has a plan tells its sources apart**, by name if there are several. -/
theorem Plan.ofQuery?_labels {q : Query} {p : Plan} (h : ofQuery? q = .ok p) :
    (q.sources.map (·.label)).Nodup ∧ (q.joins ≠ [] → "" ∉ q.sources.map (·.label)) := by
  obtain ⟨-, main, sources, -, hsources, -⟩ := ofQuery?_eq_ok.mp h
  obtain ⟨hnodup, hnamed⟩ := ofJoins?_labels hsources (List.nodup_singleton _)
  rw [Level.labels_eq]
  refine ⟨hnodup, fun hne => ?_⟩
  obtain ⟨j, joins, hj⟩ := List.exists_cons_of_ne_nil hne
  obtain ⟨kind, source, left, right⟩ := j
  rw [hj] at hsources
  obtain ⟨joined, -, h⟩ := bind_eq_ok.mp hsources
  obtain ⟨rows, hrows, -⟩ := bind_eq_ok.mp h
  obtain ⟨-, -, a, ha, hmain⟩ := join?_labels hrows
  obtain rfl := List.mem_singleton.mp ha
  exact List.not_mem_cons_of_ne_of_not_mem (Ne.symm hmain) hnamed

/-- The plan of a query ends with a ranking if the query has ORDER BY. -/
theorem Plan.isRank_of_ofQuery? {q : Query} {p : Plan} (h : Plan.ofQuery? q = .ok (.output p)) :
    p.isRank = false ↔ q.orderBy = [] := by
  obtain ⟨-, main, sources, -, -, hplan⟩ := ofQuery?_eq_ok.mp h
  obtain ⟨-, -, hfinish⟩ := Level.plan?_eq_ok.mp hplan
  obtain ⟨selected, hselected, hfinish⟩ := bind_eq_ok.mp hfinish
  obtain ⟨kept, hkept, hfinish⟩ := bind_eq_ok.mp hfinish
  obtain ⟨ordered, hordered, hfinish⟩ := bind_eq_ok.mp hfinish
  obtain rfl := Plan.output.inj (Except.ok.inj hfinish)
  obtain ⟨select, rfl, -, hselect⟩ := Level.planSelect?_eq_ok hselected
  obtain ⟨having, rfl, -, hhaving⟩ := Level.planHaving?_eq_ok hkept
  have hrank := (hhaving _).2 (hselect (q.planFilters sources)).2
  rcases Level.planOrder?_eq_ok hordered with ⟨hnil, rfl, -⟩ | ⟨hne, terms, rfl, -⟩
  · refine iff_of_true ?_ hnil
    split
    · rfl
    · exact hrank
  · exact iff_of_false nofun hne

end DeltaView
