import DeltaView.Proofs.Query.Revision
import DeltaView.Query.Collapse

/-!
# Sources that test a condition

A source that takes a condition in applies it. For a subquery this means that testing the rows of
its main source is the same as testing what the subquery makes of them: nothing is grouped, cut off
or joined in between, and the fields that the condition reads pass through SELECT.

* `rows_rankAll`: to rank all rows commutes with a filter.
* `PassesOn`: the fields that a condition reads are what SELECT makes of their names last.
  `SelectsFaithfully`: nothing else has the name of a field that SELECT passes on.
* `finish?_of_takesIn`: what a subquery that takes a condition in does after WHERE.
* `holds_projected`: the condition holds of a row exactly if it holds of what is made of the row.
* **`withFilter_applies`**: a subquery with one condition more.
* **`forwarding_applies`**, `applies_forwarding`: a subquery that only forwards its source.
-/

namespace DeltaView

open Delta (Same)
open SourceTests (Covered)

namespace Plan

/-! ## Steps that commute with filters -/

/-- **A step that makes of filtered rows what is left of the rows by the same filter**, and needs no
more to be assumed of them. -/
structure Commutes (step : Plan → Plan) : Prop where
  same : ∀ (functions : RowFunctions) (tables : Snapshot) (p p' : Plan) (test : Row → Bool),
    Same (p'.rows functions tables) (Delta.filterItems test (p.rows functions tables)) →
    Same ((step p').rows functions tables)
      (Delta.filterItems test ((step p).rows functions tables))
  regular : ∀ (functions : RowFunctions) (snapshots : List Snapshot) (p p' : Plan)
    (test : Row → Bool),
    (∀ tables ∈ snapshots,
      Same (p'.rows functions tables) (Delta.filterItems test (p.rows functions tables))) →
    (p.Regular functions snapshots → p'.Regular functions snapshots) →
    (step p).Regular functions snapshots → (step p').Regular functions snapshots

theorem Commutes.id : Commutes fun p => p := ⟨fun _ _ _ _ _ h => h, fun _ _ _ _ _ _ h => h⟩

/-- A ranking without bounds shows every row that is there once. -/
theorem total_rankAll (functions : RowFunctions) (tables : Snapshot) (terms : List OrderTerm)
    (p : Plan) (r : Row) :
    Delta.total r ((Plan.rank terms .unbounded p).rows functions tables) =
      if 0 < Delta.total r (p.rows functions tables) then 1 else 0 := by
  have hrows : (Plan.rank terms .unbounded p).rows functions tables =
      (Ranking.rankedRows (OrderTerm.compareRows terms)
        (Delta.mapItems Row.unordered (p.rows functions tables))).map (·, 1) :=
    congrArg (List.map (·, 1)) (Window.slice_unbounded _)
  rw [hrows, Delta.total_once (Ranking.nodup_rankedRows _ _)]
  simp only [Ranking.mem_rankedRows, p.rows_unordered functions tables r]

/-- The values of filtered rows are values of the rows. -/
theorem hasValue_of_filterItems {functions : RowFunctions} {tables : Snapshot} {p p' : Plan}
    {test : Row → Bool}
    (h : Same (p'.rows functions tables) (Delta.filterItems test (p.rows functions tables)))
    {v : Value} (hv : Delta.HasValue (p'.rows functions tables) v) :
    Delta.HasValue (p.rows functions tables) v := by
  obtain ⟨r, hr, rfl⟩ := hv
  refine ⟨r, ?_, rfl⟩
  rw [p'.rows_unordered functions tables r, h r, Delta.total_filterItems] at hr
  rw [p.rows_unordered functions tables r]
  intro hzero
  rw [hzero, ite_self] at hr
  exact hr rfl

theorem Commutes.rankAll (terms : List OrderTerm) : Commutes (.rank terms .unbounded) where
  same := by
    intro functions tables p p' test h r
    rw [total_rankAll, h r, Delta.total_filterItems, Delta.total_filterItems, total_rankAll]
    by_cases ht : test r
    · rw [if_pos ht, if_pos ht]
    · rw [if_neg ht, if_neg ht]
      exact if_neg (Int.lt_irrefl 0)
  regular := by
    rintro functions snapshots p p' test hsame hr ⟨hp, horder⟩
    refine ⟨hr hp, horder.mono ?_⟩
    rintro v ⟨tables, ht, hv⟩
    exact ⟨tables, ht, hasValue_of_filterItems (hsame tables ht) hv⟩

/-! ## Rows of joined sources -/

theorem covered_of_joins {joins : List (Join Source)} {known : List String} {main p : Plan}
    (h : ofJoins? main known joins = .ok p) (functions : RowFunctions) (tables : Snapshot)
    (hm : Covered known (main.rows functions tables)) :
    Covered (known ++ joins.map (·.source.label)) (p.rows functions tables) := by
  induction joins generalizing known main with
  | nil =>
    obtain rfl := Except.ok.inj h
    rw [List.map_nil, List.append_nil]
    exact hm
  | cons j joins ih =>
    obtain ⟨kind, source, left, right⟩ := j
    obtain ⟨joined, hjoined, h⟩ := bind_eq_ok.mp h
    obtain ⟨rows, hrows, h⟩ := bind_eq_ok.mp h
    obtain ⟨mainKey, joinedKey, rfl, -⟩ := join?_eq_ok hrows
    rw [List.map_cons, List.append_cons]
    exact ih h (SourceTests.covered_table hm (covers_of_source hjoined functions tables))

end Plan

namespace Level

/-! ## Subqueries that take a condition in -/

variable {q : Query} {label : String} {condition : Expr}

theorem label_of_takesIn (ht : q.takesIn label condition = true) : q.source.label = label := by
  unfold takesIn at ht
  simp only [Bool.and_eq_true, beq_iff_eq] at ht
  exact ht.1.1.1.1.1.1.1.1

/-- The sources of a subquery that takes a condition in have names, if the main one has. -/
theorem named_of_takesIn (ht : q.takesIn label condition = true) (hlabel : label ≠ "") {p : Plan}
    (hp : Plan.ofQuery? q = .ok p) : "" ∉ q.sources.map (·.label) := by
  by_cases hj : q.joins = []
  · rw [labels_eq, hj, label_of_takesIn ht]
    simpa using hlabel.symm
  · exact (Plan.ofQuery?_labels hp).2 hj

/-- **After WHERE, a subquery that takes a condition in** makes one row of every row, and at most
ranks all of them. -/
theorem finish?_of_takesIn (ht : q.takesIn label condition = true) {rows p : Plan}
    (hp : q.finish? rows = .ok p) :
    ∃ projection order, q.projection? = .ok projection ∧ Plan.Commutes order ∧
      p = .output (order (.project projection rows)) ∧
      ∀ rows, q.finish? rows = .ok (.output (order (.project projection rows))) := by
  unfold takesIn at ht
  simp only [Bool.and_eq_true, Bool.or_eq_true, Bool.not_eq_true', List.isEmpty_iff,
    Option.isNone_iff_eq_none] at ht
  obtain ⟨⟨⟨⟨⟨⟨⟨⟨-, hgrouped⟩, hhaving⟩, horder⟩, -⟩, -⟩, hrowHaving⟩, hdistinct⟩, -⟩ := ht
  have hselect : ∀ rows, q.planSelect? rows = q.projection?.map fun p => .project p rows :=
    fun rows => by
      unfold planSelect?
      rw [hgrouped]
      exact if_neg Bool.false_ne_true
  have hkept : ∀ rows, q.planHaving? rows = .ok rows := fun rows => by
    unfold planHaving?
    rw [hhaving, hrowHaving]
    rfl
  have hfinish : ∀ rows, q.finish? rows = q.planSelect? rows >>= fun rows =>
      q.planOrder? rows >>= fun rows => .ok (.output rows) := fun rows => by
    unfold finish?
    simp only [hkept, hdistinct]
    rfl
  rw [hfinish] at hp
  obtain ⟨selected, hs, hp⟩ := bind_eq_ok.mp hp
  obtain ⟨ordered, ho, hp⟩ := bind_eq_ok.mp hp
  obtain rfl := Except.ok.inj hp
  rw [hselect] at hs
  obtain ⟨projection, hprojection, rfl⟩ := map_eq_ok.mp hs
  have hproject : ∀ rows, q.planSelect? rows = .ok (.project projection rows) := fun rows => by
    rw [hselect, hprojection]
    rfl
  rcases planOrder?_eq_ok ho with ⟨-, rfl, hall⟩ | ⟨hne, terms, rfl, hall⟩
  · refine ⟨projection, fun p => p, hprojection, .id, rfl, fun rows => ?_⟩
    rw [hfinish]
    exact bind_eq_ok.mpr ⟨_, hproject rows, bind_eq_ok.mpr ⟨_, hall _, rfl⟩⟩
  · have hwindow : q.window = .unbounded := by
      obtain ⟨hlimit, hoffset⟩ := horder.resolve_left hne
      unfold window
      rw [hlimit, hoffset]
      rfl
    rw [hwindow] at hall ⊢
    refine ⟨projection, .rank terms .unbounded, hprojection, .rankAll terms, rfl, fun rows => ?_⟩
    rw [hfinish]
    exact bind_eq_ok.mpr ⟨_, hproject rows, bind_eq_ok.mpr ⟨_, hall _, rfl⟩⟩

/-! ## Fields that pass through SELECT -/

/-- A field of a source is read there first, and further within. -/
theorem field_cons_cons (a n : String) (rest : List String) (v : Value) :
    Expr.field (a :: n :: rest) v =
      (((v.field? a).bind (Value.field? n)).bind (Value.path? rest)).getD .null := by
  show ((v.field? a).bind fun w => (w.field? n).bind (Value.path? rest)).getD .null = _
  rw [Option.bind_assoc]

theorem field_named (label n : String) (rest : List String) (v : Value) :
    Expr.field (label :: n :: rest) (.object [(label, v)]) =
      ((v.field? n).bind (Value.path? rest)).getD .null := by
  have hlabel : (Value.object [(label, v)]).field? label = some v := if_pos rfl
  rw [field_cons_cons, hlabel]
  rfl

/-- Null has no fields. -/
theorem path?_null (path : List String) : (Value.path? path .null).getD .null = .null := by
  cases path with
  | nil => rfl
  | cons n path => rfl

/-- Without SELECT and joins a row is passed on as it is. -/
theorem field_source (label : String) (rest : List String) (v : Value) :
    Expr.field (label :: rest) (.object [(label, (v.field? label).getD .null)]) =
      Expr.field (label :: rest) v := by
  have hlabel : (Value.object [(label, (v.field? label).getD .null)]).field? label =
      some ((v.field? label).getD .null) := if_pos rfl
  show (((Value.object _).field? label).bind (Value.path? rest)).getD .null =
    ((v.field? label).bind (Value.path? rest)).getD .null
  rw [hlabel, Option.bind_some]
  cases v.field? label with
  | none => exact path?_null rest
  | some w => rfl

/-- **Where SELECT passes on a field that a condition reads**, it gives the field's name to the field
last. Of several fields of one name the last one stays. -/
def PassesOn (q : Query) (condition : Expr) : Prop :=
  ∀ fields, q.select = some fields → ∀ n rest, q.source.label :: n :: rest ∈ condition.refs →
    fields.reverse.find? (·.label == n) = some ⟨n, .ref [q.source.label, n]⟩

/-- **Where SELECT passes a field of the main source on under its own name**, nothing else has that
name. -/
def SelectsFaithfully (q : Query) : Prop :=
  ∀ fields, q.select = some fields → ∀ f ∈ fields, f.expr = .ref [q.source.label, f.label] →
    ∀ g ∈ fields, g.label = f.label → g.expr = f.expr

/-- Fields with names of their own are passed on so. -/
theorem selectsFaithfully_of_nodup
    (h : ∀ fields, q.select = some fields → (fields.map (·.label)).Nodup) :
    q.SelectsFaithfully := by
  intro fields hselect f hf _ g hg hlabel
  rw [List.inj_on_of_nodup_map (h fields hselect) hg hf hlabel]

theorem keepsFields_of_takesIn (ht : q.takesIn label condition = true) :
    q.keepsFields label condition = true := by
  unfold takesIn at ht
  simp only [Bool.and_eq_true] at ht
  exact ht.2

/-- A field that is passed on and has its name for itself is the last one of its name. -/
theorem passesOn_of_selectsFaithfully (ht : q.takesIn label condition = true)
    (h : q.SelectsFaithfully) : q.PassesOn condition := by
  intro fields hselect n rest hpath
  have hkeeps := keepsFields_of_takesIn ht
  unfold keepsFields at hkeeps
  rw [hselect] at hkeeps
  have hlabel := label_of_takesIn ht
  have hpasses : (q.source.label != label || passesField fields label n) = true :=
    List.all_eq_true.mp hkeeps _ hpath
  rw [hlabel, bne_self_eq_false, Bool.false_or] at hpasses
  obtain ⟨f, hf, hpass⟩ := List.any_eq_true.mp hpasses
  rw [Bool.and_eq_true, beq_iff_eq, beq_iff_eq] at hpass
  obtain ⟨rfl, hexpr⟩ := hpass
  obtain ⟨g, hg⟩ : ∃ g, fields.reverse.find? (·.label == f.label) = some g :=
    Option.isSome_iff_exists.mp (List.find?_isSome.mpr
      ⟨f, List.mem_reverse.mpr hf, beq_self_eq_true _⟩)
  have hname : g.label = f.label :=
    beq_iff_eq.mp (List.find?_some (p := fun x : SelectField => x.label == f.label) hg)
  have hgexpr := h fields hselect f hf (hlabel.symm ▸ hexpr) g
    (List.mem_reverse.mp (List.mem_of_find?_eq_some hg)) hname
  rw [hg, ← hname, hlabel]
  rw [hexpr, ← hname] at hgexpr
  exact congrArg some (congrArg (SelectField.mk g.label) hgexpr)

/-- A field that SELECT passes on is the field of the source. -/
theorem field_selected {fields : List SelectField} {label n : String}
    (hpasses : fields.reverse.find? (·.label == n) = some ⟨n, .ref [label, n]⟩)
    (rest : List String) (functions : RowFunctions) (v : Value) :
    Expr.field (label :: n :: rest)
        (.object [(label, (Projection.fields fields).apply functions v)]) =
      Expr.field (label :: n :: rest) v := by
  have hvalue : Expr.eval v (.ref [label, n]) =
      ((v.field? label).bind (Value.field? n)).getD .null := by
    show Expr.field [label, n] v = _
    rw [field_cons_cons]
    cases (v.field? label).bind (Value.field? n) with
    | none => rfl
    | some w => rfl
  have hlookup : ((Projection.fields fields).apply functions v).field? n =
      some (((v.field? label).bind (Value.field? n)).getD .null) := by
    show (Value.ofFields (fields.map fun t => (t.label, t.expr.eval v))).field? n = _
    rw [Value.field?_ofFields, ← List.map_reverse,
      Value.lookup_map n SelectField.label fun t => t.expr.eval v, hpasses, Option.map_some, hvalue]
  rw [field_named, hlookup, field_cons_cons]
  cases (v.field? label).bind (Value.field? n) with
  | none => exact path?_null rest
  | some w => rfl

/-- **What a condition says of a row it says of what is made of the row**, in a subquery that takes
the condition in. -/
theorem holds_projected (ht : q.takesIn label condition = true)
    (hreads : ∀ a ∈ condition.labels, a = label) (hpasses : q.PassesOn condition)
    {projection : Projection} (hp : q.projection? = .ok projection) (functions : RowFunctions)
    {v : Value} (hv : label ≠ "" → v.field? "" = none) :
    condition.holds (.object [(label, projection.apply functions v)]) = condition.holds v := by
  have hkeeps := keepsFields_of_takesIn ht
  unfold takesIn at ht
  simp only [Bool.and_eq_true, beq_iff_eq, Option.isNone_iff_eq_none] at ht
  obtain ⟨⟨⟨⟨⟨⟨⟨⟨hsource, -⟩, -⟩, -⟩, hrowSelect⟩, -⟩, -⟩, -⟩, -⟩ := ht
  unfold projection? at hp
  unfold keepsFields at hkeeps
  rw [hrowSelect] at hp
  refine Expr.holds_congr fun path hpath => ?_
  rcases path with _ | ⟨a, rest⟩
  · rfl
  by_cases ha : a = label
  · subst ha
    cases hs : q.select with
    | none =>
      rw [hs] at hp hkeeps
      dsimp only at hp hkeeps
      rw [if_pos hkeeps, hsource] at hp
      obtain rfl := Except.ok.inj hp
      exact field_source a rest v
    | some fields =>
      rw [hs] at hp hkeeps
      dsimp only at hp hkeeps
      obtain ⟨-, -, rfl⟩ := map_eq_ok.mp hp
      rcases rest with _ | ⟨n, rest⟩
      · -- The whole row of a source is not passed on by a SELECT.
        have hwhole : (a != a) = true := List.all_eq_true.mp hkeeps _ hpath
        rw [bne_self_eq_false] at hwhole
        exact absurd hwhole Bool.false_ne_true
      · exact field_selected (hsource ▸ hpasses fields hs n rest (hsource.symm ▸ hpath)) rest
          functions v
  · -- A path that leads to no source leads nowhere in either row.
    obtain rfl : a = "" := by
      by_contra hempty
      exact ha (hreads a (Expr.mem_labels_of_mem_refs hpath hempty))
    refine Expr.field_congr rest (Eq.trans ?_ (hv (Ne.symm ha)).symm)
    exact if_neg (Ne.symm ha)

/-! ## One condition more -/

/-- The rows after WHERE with one condition more are those that satisfy it. -/
theorem rows_planFilters_withFilter (functions : RowFunctions) (tables : Snapshot) (q : Query)
    (condition : Expr) (sources : Plan) :
    ((q.withFilter condition).planFilters sources).rows functions tables =
      Delta.filterItems (fun r => condition.holds r.value)
        ((q.planFilters sources).rows functions tables) := by
  rw [rows_planFilters, rows_planFilters]
  unfold demanded
  rw [demands_withFilter, Delta.filterItems_filterItems, Delta.filterItems_filterItems,
    Delta.filterItems_filterItems]
  refine Delta.filterItems_congr fun e _ => ?_
  rw [List.all_append, ← Expr.holds_eq_all]
  rw [Bool.and_assoc]
  exact congrArg _ (Bool.and_comm ..)

/-- The rows that a subquery outputs under its label, filtered, are those it makes of the rows that
are left by the same filter. -/
theorem projected_applies {projection : Projection} {order : Plan → Plan}
    (horder : Plan.Commutes order) {rows rows' : Plan}
    (h : rows.Applies condition.holds rows')
    (hholds : ∀ (functions : RowFunctions) (tables : Snapshot), ∀ e ∈ rows.rows functions tables,
      condition.holds (.object [(label, projection.apply functions e.1.value)]) =
        condition.holds e.1.value) :
    (Plan.named label (.output (order (.project projection rows)))).Applies condition.holds
      (.named label (.output (order (.project projection rows')))) := by
  -- The test of what was selected, before it is put under the label.
  have hfilter : ∀ d : Delta Row, Delta.filterItems (fun r => condition.holds r.value)
      (Delta.mapItems (Row.named label) (Delta.mapItems Row.selected d)) =
      Delta.mapItems (Row.named label) (Delta.mapItems Row.selected (Delta.filterItems
        (fun r => condition.holds (.object [(label, r.value.selected)])) d)) := fun d => by
    rw [Delta.filterItems_mapItems, Delta.filterItems_mapItems]
    rfl
  have hproject : ∀ (functions : RowFunctions) (tables : Snapshot),
      Same ((Plan.project projection rows').rows functions tables)
        (Delta.filterItems (fun r => condition.holds (.object [(label, r.value.selected)]))
          ((Plan.project projection rows).rows functions tables)) := fun functions tables => by
    show Same (Delta.mapItems _ _) (Delta.filterItems _ (Delta.mapItems _ _))
    rw [Delta.filterItems_mapItems]
    refine ((h.same functions tables).mapItems _).trans
      (.of_eq (congrArg _ (Delta.filterItems_congr fun e he => ?_)))
    show _ = condition.holds (.object [(label, (Value.withSelected _ _).selected)])
    rw [Value.selected_withSelected, hholds functions tables e he]
  refine ⟨fun functions tables => ?_, fun functions snapshots => ?_⟩
  · show Same (Delta.mapItems _ (Delta.mapItems _ _))
      (Delta.filterItems _ (Delta.mapItems _ (Delta.mapItems _ _)))
    rw [hfilter]
    exact ((horder.same functions tables _ _ _ (hproject functions tables)).mapItems _).mapItems _
  · exact horder.regular functions snapshots _ _ _ (fun tables _ => hproject functions tables)
      (h.regular functions snapshots)

/-- WHERE with one condition more applies that condition to the rows that are left. -/
theorem planFilters_withFilter_applies (q : Query) (condition : Expr) (sources : Plan) :
    (q.planFilters sources).Applies condition.holds
      ((q.withFilter condition).planFilters sources) := by
  refine ⟨fun functions tables =>
    .of_eq (rows_planFilters_withFilter functions tables q condition sources),
    fun functions snapshots => ?_⟩
  rw [regular_planFilters, regular_planFilters]
  exact id

/-- A level passes its checks with one condition more, if the condition has a value and reads a
source of the level only. -/
theorem withFilter_checks {known : List String} (hlabels : q.checkLabels known = .ok ())
    (hchecks : Expr.checkAll (q.filters.map (·.expr)) = .ok ())
    (hreads : ∀ a ∈ condition.labels, a = label) (hmem : label ∈ known) (hcheck : condition.check = .ok ()) :
    (q.withFilter condition).checkLabels known = .ok () ∧
      Expr.checkAll ((q.withFilter condition).filters.map (·.expr)) = .ok () := by
  have hdemands : ∀ c ∈ (q.withFilter condition).demands,
      c ∈ q.demands ∨ c ∈ condition.conjuncts := fun c hmem' => by
    rw [demands_withFilter] at hmem'
    exact List.mem_append.mp hmem'
  constructor
  · refine checkLabels_revise hlabels fun c hmem' => ?_
    rcases hdemands c hmem' with hold | hnew
    · exact Or.inl hold
    · refine Or.inr fun a ha => ?_
      rw [hreads a (Expr.mem_labels_iff.mpr ⟨c, hnew, ha⟩)]
      exact hmem
  · refine (Expr.checkAll_eq_ok_iff_conjuncts _).mpr fun c hmem' => ?_
    rcases hdemands c hmem' with hold | hnew
    · exact (Expr.checkAll_eq_ok_iff_conjuncts _).mp hchecks c hold
    · exact (Expr.check_eq_ok_iff condition).mp hcheck c hnew

/-- **A subquery that takes a condition in applies it.** -/
theorem withFilter_applies (ht : q.takesIn label condition = true)
    (hreads : ∀ a ∈ condition.labels, a = label) (hcheck : condition.check = .ok ())
    (hpasses : q.PassesOn condition) :
    (Source.subquery q label).Applies condition.holds (.subquery (q.withFilter condition) label) where
  label := rfl
  rows := by
    intro named hnamed
    obtain ⟨p, hp, rfl⟩ := map_eq_ok.mp hnamed
    obtain ⟨hclauses, main, sources, hmain, hsources, hplan⟩ := Plan.ofQuery?_eq_ok.mp hp
    obtain ⟨hlabels, hchecks, hfinish⟩ := plan?_eq_ok.mp hplan
    obtain ⟨projection, order, hprojection, horder, rfl, hall⟩ := finish?_of_takesIn ht hfinish
    have hmem : label ∈ q.sources.map (·.label) := label_of_takesIn ht ▸ List.mem_cons_self
    obtain ⟨hlabels', hchecks'⟩ := withFilter_checks hlabels hchecks hreads hmem hcheck
    have hplan' : (q.withFilter condition).plan? (q.sources.map (·.label)) sources =
        .ok (.output (order (.project projection
          ((q.withFilter condition).planFilters sources)))) :=
      plan?_eq_ok.mpr ⟨hlabels', hchecks', (finish?_revise rfl rfl _).trans (hall _)⟩
    refine ⟨_, map_eq_ok.mpr ⟨_, Plan.ofQuery?_eq_ok.mpr
      ⟨hclauses, main, sources, hmain, hsources, hplan'⟩, rfl⟩,
      projected_applies horder (planFilters_withFilter_applies q condition sources)
        fun functions tables e he => ?_⟩
    refine holds_projected ht hreads hpasses hprojection functions fun hlabel => ?_
    have hnames := named_of_takesIn ht hlabel hp
    rw [rows_planFilters] at he
    have hcovered := Plan.covered_of_joins hsources functions tables
      (Plan.covers_of_source hmain functions tables)
    rw [← labels_eq] at hcovered
    exact (hcovered e (List.mem_of_mem_filter (List.mem_of_mem_filter he))).field?_eq_none hnames

end Level

/-! ## Subqueries that forward their source -/

namespace Row

/-- A row that is named and passed on is what it was, without an order key. -/
theorem selected_named (functions : RowFunctions) (a : String) (r : Row) :
    selected (Plan.withProjection functions (.source a) (named a r)) = r.unordered := by
  have hfield : (Projection.source a).apply functions (named a r).value = r.value := by
    show ((Value.lookup a [(a, r.value)]).getD .null) = r.value
    rw [Value.lookup, if_pos rfl]
    rfl
  have hvalue : (selected (Plan.withProjection functions (.source a) (named a r))).value =
      r.value := by
    show ((named a r).value.withSelected
      ((Projection.source a).apply functions (named a r).value)).selected = r.value
    rw [Value.selected_withSelected, hfield]
  show Row.mk r.key _ none = Row.mk r.key r.value none
  exact congrArg (Row.mk r.key · none) hvalue

/-- A row that is named, passed on and named again has the later name. -/
theorem named_selected_named (functions : RowFunctions) (a b : String) (r : Row) :
    named b (selected (Plan.withProjection functions (.source a) (named a r))) = named b r := by
  rw [selected_named]
  rfl

end Row

namespace Plan

theorem ofQuery?_ofSource (s : Source) :
    ofQuery? (.ofSource s) =
      (ofSource? s).map fun p => .output (.project (.source s.label) p) := by
  unfold Level.ofSource ofQuery?
  cases ofSource? s with
  | error e => rfl
  | ok p => rfl

/-- A source under another label names the same rows. -/
theorem ofSource?_withLabel {s : Source} {p : Plan} (h : ofSource? s = .ok p) (label : String) :
    ∃ rows, p = .named s.label rows ∧ ofSource? (s.withLabel label) = .ok (.named label rows) := by
  cases s with
  | collection name a =>
    obtain rfl := Except.ok.inj h
    exact ⟨_, rfl, rfl⟩
  | subquery q a =>
    obtain ⟨p, hp, rfl⟩ := map_eq_ok.mp h
    exact ⟨p, rfl, map_eq_ok.mpr ⟨p, hp, rfl⟩⟩

theorem rows_forwarded (functions : RowFunctions) (tables : Snapshot) (a b : String) (p : Plan) :
    (Plan.named b (.output (.project (.source a) (.named a p)))).rows functions tables =
      (Plan.named b p).rows functions tables := by
  show Delta.mapItems _ (Delta.mapItems _ (Delta.mapItems _ (Delta.mapItems _ _))) = _
  rw [Delta.mapItems_mapItems, Delta.mapItems_mapItems, Delta.mapItems_mapItems]
  exact Delta.mapItems_congr fun e _ => Row.named_selected_named functions a b e.1

end Plan

namespace Source

variable {test : Value → Bool}

theorem label_withLabel (s : Source) (label : String) : (s.withLabel label).label = label := by
  cases s with
  | collection name a => rfl
  | subquery q a => rfl

/-- **A subquery that only forwards its source** has the rows of that source. -/
theorem forwarding_applies (h : ∀ v, test v = true) (s : Source) (label : String) :
    (subquery (.ofSource s) label).Applies test (s.withLabel label) where
  label := s.label_withLabel label
  rows := by
    intro named hnamed
    obtain ⟨p, hp, rfl⟩ := map_eq_ok.mp hnamed
    rw [Plan.ofQuery?_ofSource] at hp
    obtain ⟨source, hsource, rfl⟩ := map_eq_ok.mp hp
    obtain ⟨rows, rfl, hlabel⟩ := Plan.ofSource?_withLabel hsource label
    exact ⟨.named label rows, hlabel, .of_untested h
      (fun functions tables => .of_eq (Plan.rows_forwarded functions tables _ _ _).symm)
      fun _ _ hr => hr⟩

/-- A source may be forwarded. -/
theorem applies_forwarding (h : ∀ v, test v = true) (s : Source) :
    s.Applies test (subquery (.ofSource s) s.label) where
  label := rfl
  rows := by
    intro p hp
    obtain ⟨rows, rfl, -⟩ := Plan.ofSource?_withLabel hp s.label
    refine ⟨_, map_eq_ok.mpr ⟨_, ?_, rfl⟩, .of_untested h
      (fun functions tables => .of_eq (Plan.rows_forwarded functions tables s.label s.label rows))
      fun _ _ hr => hr⟩
    rw [Plan.ofQuery?_ofSource, hp]
    rfl

end Source

end DeltaView
