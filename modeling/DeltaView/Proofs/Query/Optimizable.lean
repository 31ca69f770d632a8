import DeltaView.Proofs.Query.TakeIn
import DeltaView.Query.Pushdown

/-!
# Queries that can be optimized

What is asked of a query for the optimizer to keep its results, at every level of it. Only what may
be moved or dropped is asked about: a level without joins keeps its conditions.

* `Query.EveryLevel`: something is asked of all levels of a query.
* `Level.fresh`, `Level.residual`: the conjuncts that have not been moved yet, and the others.
* `Source.AlongMain`: something is asked of a source, of its main source, and so on inward.
  `Source.Firm`, `Source.Faithful`: no join leaves these absent; SELECT passes their fields on.
* `Level.OptimizableHere`, `Query.Optimizable`: one level, and all levels.
* `Source.Succeeds`, **`revise_optimizableHere`**: it is kept where sources are succeeded by others
  and no conjunct is new.
* **`optimizable_of_inner`**: with inner joins alone, less is asked.
* `filtered?_succeeds`, `filtered?_optimizable`: so it is in a source that takes a condition in.
* `Query.OptimizesTo`, **`revise_optimizesTo`**: what optimization keeps, at a level over sources for
  which it has been kept.
-/

namespace DeltaView

/-! ## All levels -/

mutual

/-- Every level of a source is as asked. -/
def Source.EveryLevel (asked : Query → Prop) : Source → Prop
  | .collection _ _ => True
  | .subquery q _ => Source.EveryLevelOf asked q

def Source.EveryLevelOf (asked : Query → Prop) : Query → Prop
  | ⟨source, select, joins, filters, groupBy, having, orderBy, limit, offset, isDistinct, rowSelect,
      rowFilters, rowHaving⟩ =>
    asked ⟨source, select, joins, filters, groupBy, having, orderBy, limit, offset, isDistinct,
      rowSelect, rowFilters, rowHaving⟩ ∧ Source.EveryLevel asked source ∧
      Source.EveryLevelOfJoins asked joins

def Source.EveryLevelOfJoins (asked : Query → Prop) : List (Join Source) → Prop
  | [] => True
  | ⟨_, source, _, _⟩ :: joins =>
    Source.EveryLevel asked source ∧ Source.EveryLevelOfJoins asked joins

end

/-- **Every level of a query is as asked.** -/
def Query.EveryLevel (asked : Query → Prop) (q : Query) : Prop := Source.EveryLevelOf asked q

section EveryLevel

variable {asked asked' : Query → Prop}

theorem Source.everyLevelOfJoins_iff {joins : List (Join Source)} :
    Source.EveryLevelOfJoins asked joins ↔ ∀ j ∈ joins, j.source.EveryLevel asked := by
  induction joins with
  | nil => exact ⟨fun _ _ h => absurd h List.not_mem_nil, fun _ => trivial⟩
  | cons j joins ih =>
    rw [List.forall_mem_cons, ← ih]
    exact Iff.rfl

theorem Query.everyLevel_iff {q : Query} :
    Query.EveryLevel asked q ↔ asked q ∧ ∀ s ∈ q.sources, s.EveryLevel asked := by
  unfold Level.sources
  rw [List.forall_mem_cons, List.forall_mem_map, ← Source.everyLevelOfJoins_iff]
  obtain ⟨source, select, joins, filters, groupBy, having, orderBy, limit, offset, isDistinct,
    rowSelect, rowFilters, rowHaving⟩ := q
  exact Iff.rfl

mutual

/-- What is asked of all levels gives at every level what follows for the query from there. -/
theorem Source.EveryLevel.imp (himp : ∀ q, Query.EveryLevel asked q → asked' q) :
    ∀ {s : Source}, s.EveryLevel asked → s.EveryLevel asked'
  | .collection _ _, _ => trivial
  | .subquery _ _, h => Query.EveryLevel.imp himp h

theorem Query.EveryLevel.imp (himp : ∀ q, Query.EveryLevel asked q → asked' q) :
    ∀ {q : Query}, Query.EveryLevel asked q → Query.EveryLevel asked' q
  | ⟨_, _, _, _, _, _, _, _, _, _, _, _, _⟩, h =>
    ⟨himp _ h, Source.EveryLevel.imp himp h.2.1, Source.EveryLevelOfJoins.imp himp h.2.2⟩

theorem Source.EveryLevelOfJoins.imp (himp : ∀ q, Query.EveryLevel asked q → asked' q) :
    ∀ {joins : List (Join Source)}, Source.EveryLevelOfJoins asked joins →
      Source.EveryLevelOfJoins asked' joins
  | [], _ => trivial
  | ⟨_, _, _, _⟩ :: _, h =>
    ⟨Source.EveryLevel.imp himp h.1, Source.EveryLevelOfJoins.imp himp h.2⟩

end

end EveryLevel

/-! ## Conjuncts that may be moved -/

namespace Level

/-- The conjuncts of the conditions that have not been moved yet. -/
def fresh (q : Query) : List Expr :=
  Expr.conjunctsOfAll ((q.filters.filter (!·.isResidual)).map (·.expr))

/-- The conjuncts of the conditions that were moved and are tested once more. -/
def residual (q : Query) : List Expr :=
  Expr.conjunctsOfAll ((q.filters.filter (·.isResidual)).map (·.expr))

theorem mem_demands_iff {q : Query} {c : Expr} : c ∈ q.demands ↔ c ∈ q.fresh ∨ c ∈ q.residual := by
  unfold demands fresh residual
  simp only [mem_conjunctsOfClauses, List.mem_filter, Bool.not_eq_true']
  constructor
  · rintro ⟨f, hf, hc⟩
    cases hr : f.isResidual with
    | false => exact Or.inl ⟨f, ⟨hf, hr⟩, hc⟩
    | true => exact Or.inr ⟨f, ⟨hf, hr⟩, hc⟩
  · rintro (⟨f, ⟨hf, -⟩, hc⟩ | ⟨f, ⟨hf, -⟩, hc⟩)
    · exact ⟨f, hf, hc⟩
    · exact ⟨f, hf, hc⟩

theorem fresh_withFilter (q : Query) (condition : Expr) :
    (q.withFilter condition).fresh = q.fresh ++ condition.conjuncts := by
  unfold fresh withFilter
  rw [List.filter_append, List.map_append, Expr.conjunctsOfAll_append]
  exact congrArg _ (List.append_nil _)

end Level

/-! ## Along the main sources -/

mutual

/-- **The level of a source is as asked, and so is that of its main source**, and so on inward. What
goes by the label of the main source is taken for it. -/
def Source.AlongMain (asked : Query → Prop) : Source → Prop
  | .collection _ _ => True
  | .subquery q _ => Source.AlongMainOf asked q

def Source.AlongMainOf (asked : Query → Prop) : Query → Prop
  | ⟨source, select, joins, filters, groupBy, having, orderBy, limit, offset, isDistinct, rowSelect,
      rowFilters, rowHaving⟩ =>
    asked ⟨source, select, joins, filters, groupBy, having, orderBy, limit, offset, isDistinct,
      rowSelect, rowFilters, rowHaving⟩ ∧ Source.AlongMain asked source ∧
      Source.AlongMainOfJoins asked source.label joins

def Source.AlongMainOfJoins (asked : Query → Prop) (label : String) : List (Join Source) → Prop
  | [] => True
  | ⟨_, source, _, _⟩ :: joins =>
    (source.label = label → Source.AlongMain asked source) ∧
      Source.AlongMainOfJoins asked label joins

end

section AlongMain

variable {asked : Query → Prop}

theorem Source.alongMainOfJoins_iff {label : String} {joins : List (Join Source)} :
    Source.AlongMainOfJoins asked label joins ↔
      ∀ j ∈ joins, j.source.label = label → j.source.AlongMain asked := by
  induction joins with
  | nil => exact ⟨fun _ _ h => absurd h List.not_mem_nil, fun _ => trivial⟩
  | cons j joins ih =>
    rw [List.forall_mem_cons, ← ih]
    exact Iff.rfl

theorem Source.alongMain_subquery {q : Query} {label : String} :
    (Source.subquery q label).AlongMain asked ↔
      asked q ∧ ∀ s ∈ q.sources, s.label = q.source.label → s.AlongMain asked := by
  unfold Level.sources
  rw [List.forall_mem_cons, List.forall_mem_map, ← Source.alongMainOfJoins_iff,
    forall_prop_of_true rfl]
  obtain ⟨source, select, joins, filters, groupBy, having, orderBy, limit, offset, isDistinct,
    rowSelect, rowFilters, rowHaving⟩ := q
  exact Iff.rfl

mutual

/-- What is asked of all levels is asked along the main sources. -/
theorem Source.alongMain_of_everyLevel : ∀ {s : Source}, s.EveryLevel asked → s.AlongMain asked
  | .collection _ _, _ => trivial
  | .subquery _ _, h => Source.alongMain_of_everyLevelOf h

theorem Source.alongMain_of_everyLevelOf : ∀ {q : Query},
    Source.EveryLevelOf asked q → Source.AlongMainOf asked q
  | ⟨_, _, _, _, _, _, _, _, _, _, _, _, _⟩, h =>
    ⟨h.1, Source.alongMain_of_everyLevel h.2.1, Source.alongMain_of_everyLevelOfJoins h.2.2⟩

theorem Source.alongMain_of_everyLevelOfJoins {label : String} : ∀ {joins : List (Join Source)},
    Source.EveryLevelOfJoins asked joins → Source.AlongMainOfJoins asked label joins
  | [], _ => trivial
  | ⟨_, _, _, _⟩ :: _, h =>
    ⟨fun _ => Source.alongMain_of_everyLevel h.1, Source.alongMain_of_everyLevelOfJoins h.2⟩

end

end AlongMain

/-- **No join leaves the main source of a source absent**, nor the main source of that. -/
abbrev Source.Firm (s : Source) : Prop := s.AlongMain fun q => q.source.label ∉ q.nullableLabels

/-- **SELECT passes on the fields of the main source faithfully**, and of the main source of that. -/
abbrev Source.Faithful (s : Source) : Prop := s.AlongMain Level.SelectsFaithfully

/-! ## What is asked of a query -/

/-- **What is asked of one level.** Where it has joins, its conditions are moved. Conjuncts without
a source are dropped, so they have a value and hold. A conjunct on one source may go inward as far
as main sources go, so fields come out of there as they are; and what it refuses is refused again
later, or else no join leaves that source absent. -/
structure Level.OptimizableHere (q : Query) : Prop where
  constantsHold : q.joins ≠ [] → ∀ c ∈ q.fresh, c.scope = .constant →
    c.check = .ok () ∧ c.holds (.object []) = true
  faithful : q.joins ≠ [] → ∀ c ∈ q.fresh, ∀ s ∈ q.sources, c.scope = .single s.label → s.Faithful
  refusesAbsent : q.joins ≠ [] → ∀ c ∈ q.fresh, ∀ s ∈ q.sources, c.scope = .single s.label →
    (s.label ∉ q.nullableLabels ∧ s.Firm) ∨
      ∀ row : Value, row.field? s.label = none → c.holds row = false

/-- **Every level of a source is as asked.** -/
abbrev Source.Optimizable (s : Source) : Prop := s.EveryLevel Level.OptimizableHere

/-- **Every level of a query is as asked.** -/
abbrev Query.Optimizable (q : Query) : Prop := Query.EveryLevel Level.OptimizableHere q

/-- With inner joins no source is ever absent. -/
theorem Level.nullableFrom_of_inner {joins : List (Join Source)}
    (h : ∀ j ∈ joins, j.kind = .inner) (known : List String) : nullableFrom known joins = [] := by
  induction joins generalizing known with
  | nil => rfl
  | cons j joins ih =>
    obtain ⟨hkind, hrest⟩ := List.forall_mem_cons.mp h
    unfold nullableFrom
    rw [ih hrest, hkind]
    rfl

/-- **With inner joins alone**, it is enough that subqueries pass fields on faithfully and that what
is dropped has a value and holds. -/
theorem Query.optimizable_of_inner {q : Query}
    (h : Query.EveryLevel (fun q => (∀ j ∈ q.joins, j.kind = .inner) ∧
      (∀ s ∈ q.sources, s.Faithful) ∧ (q.joins ≠ [] → ∀ c ∈ q.fresh, c.scope = .constant →
        c.check = .ok () ∧ c.holds (.object []) = true)) q) :
    Query.Optimizable q := by
  refine Query.EveryLevel.imp (fun q hq => ?_) h
  obtain ⟨⟨hinner, hfaithful, hconstants⟩, hsources⟩ := Query.everyLevel_iff.mp hq
  have hfirm : ∀ q : Query, (∀ j ∈ q.joins, j.kind = .inner) → ∀ a, a ∉ q.nullableLabels := by
    intro q hinner a ha
    unfold Level.nullableLabels at ha
    rw [Level.nullableFrom_of_inner hinner] at ha
    exact List.not_mem_nil ha
  refine ⟨hconstants, fun _ _ _ s hs _ => hfaithful s hs, fun _ c _ s hs _ => Or.inl ?_⟩
  refine ⟨hfirm q hinner _, Source.alongMain_of_everyLevel ?_⟩
  exact (hsources s hs).imp fun q hlevel => hfirm q (Query.everyLevel_iff.mp hlevel).1.1 _

/-! ## Sources that stand in for others -/

/-- **What a source was made into**: it has a plan only where the source has one, and stays firm and
faithful. -/
structure Source.Succeeds (s s' : Source) : Prop where
  plans : s'.PlansAs s
  firm : s.Firm → s'.Firm
  faithful : s.Faithful → s'.Faithful

theorem Source.Succeeds.refl (s : Source) : s.Succeeds s := ⟨.refl s, id, id⟩

theorem Source.Succeeds.trans {s s' s'' : Source} (h : s.Succeeds s') (h' : s'.Succeeds s'') :
    s.Succeeds s'' :=
  ⟨h'.plans.trans h.plans, fun hs => h'.firm (h.firm hs), fun hs => h'.faithful (h.faithful hs)⟩

theorem Source.Succeeds.label {s s' : Source} (h : s.Succeeds s') : s'.label = s.label :=
  h.plans.label.symm

namespace Level

variable {q : Query} {source : Source} {joins joins' : List (Join Source)} {filters : List Clause}

theorem nullableFrom_of_over {related : Source → Source → Prop}
    (hlabel : ∀ s s', related s s' → s'.label = s.label)
    (h : List.Forall₂ (Join.Over related) joins joins') (known : List String) :
    nullableFrom known joins' = nullableFrom known joins := by
  induction h generalizing known with
  | nil => rfl
  | cons hj _ ih =>
    obtain ⟨kind, -, -, hsource⟩ := hj
    unfold nullableFrom
    rw [hlabel _ _ hsource, ih]

theorem nullableFrom_subset {before : List String} : ∀ {joins : List (Join Source)},
    nullableFrom before joins ⊆ before ++ joins.map (·.source.label)
  | [], _, h => absurd h List.not_mem_nil
  | j :: joins, a, h => by
    rw [List.map_cons, List.append_cons]
    rcases List.mem_append.mp h with h | h
    · refine List.mem_append_left _ ?_
      rcases List.mem_append.mp h with h | h
      · split at h
        · exact List.mem_append_right _ h
        · exact absurd h List.not_mem_nil
      · split at h
        · exact List.mem_append_left _ h
        · exact absurd h List.not_mem_nil
    · exact nullableFrom_subset h

section Revised

variable (hsource : q.source.Succeeds source)
  (hjoins : List.Forall₂ (Join.Over Source.Succeeds) q.joins joins)

include hsource hjoins

theorem nullableLabels_revise :
    (q.revise source joins filters).nullableLabels = q.nullableLabels := by
  show nullableFrom [source.label] joins = nullableFrom [q.source.label] q.joins
  rw [hsource.label, nullableFrom_of_over (fun _ _ => Source.Succeeds.label) hjoins]

theorem exists_succeeds {s' : Source} (hs' : s' ∈ (q.revise source joins filters).sources) :
    ∃ s ∈ q.sources, s.Succeeds s' := by
  rcases List.mem_cons.mp hs' with rfl | hjoined
  · exact ⟨q.source, List.mem_cons_self, hsource⟩
  · obtain ⟨j', hj', rfl⟩ := List.mem_map.mp hjoined
    obtain ⟨j, hj, hsucceeds⟩ := exists_of_over hjoins hj'
    exact ⟨j.source, List.mem_cons_of_mem _ (List.mem_map.mpr ⟨j, hj, rfl⟩), hsucceeds⟩

/-- What is asked along the main sources is kept where it is asked of the level with other sources
and these keep it. -/
theorem alongMain_revise {asked : Query → Prop} {label : String}
    (hasked : asked q → asked (q.revise source joins filters))
    (hkept : ∀ s s' : Source, s.Succeeds s' → s.AlongMain asked → s'.AlongMain asked)
    (h : (Source.subquery q label).AlongMain asked) :
    (Source.subquery (q.revise source joins filters) label).AlongMain asked := by
  rw [Source.alongMain_subquery] at h ⊢
  show _ ∧ ∀ s' : Source, s' ∈ _ → s'.label = source.label → s'.AlongMain asked
  rw [hsource.label]
  refine ⟨hasked h.1, fun s' hs' hlabel => ?_⟩
  obtain ⟨s, hs, hsucceeds⟩ := exists_succeeds hsource hjoins hs'
  exact hkept s s' hsucceeds (h.2 s hs (hsucceeds.label.symm.trans hlabel))

/-- A level over sources that succeed others succeeds the level. -/
theorem revise_succeeds (label : String)
    (hplans : Query.PlansAs (q.revise source joins filters) q) :
    (Source.subquery q label).Succeeds (.subquery (q.revise source joins filters) label) where
  plans := hplans.subquery label
  firm := alongMain_revise hsource hjoins (fun hfirm => by
    rw [nullableLabels_revise hsource hjoins]
    show source.label ∉ _
    rw [hsource.label]
    exact hfirm) fun _ _ hs => hs.firm
  faithful := alongMain_revise hsource hjoins (fun hselect fields hf => by
    show ∀ f ∈ fields, f.expr = .ref [source.label, f.label] → _
    rw [hsource.label]
    exact hselect fields hf) fun _ _ hs => hs.faithful

/-- What is asked of a level is kept where its sources are succeeded by others and nothing that may
be moved is new. -/
theorem revise_optimizableHere (h : q.OptimizableHere)
    (hfresh : q.joins ≠ [] → (q.revise source joins filters).fresh ⊆ q.fresh) :
    (q.revise source joins filters).OptimizableHere := by
  have hjoined : joins ≠ [] → q.joins ≠ [] := by
    rintro hne hnil
    rw [hnil, List.forall₂_nil_left_iff] at hjoins
    exact hne hjoins
  refine ⟨fun hne c hc => ?_, fun hne c hc s' hs' hscope => ?_, fun hne c hc s' hs' hscope => ?_⟩
  · exact h.constantsHold (hjoined hne) c (hfresh (hjoined hne) hc)
  · obtain ⟨s, hs, hsucceeds⟩ := exists_succeeds hsource hjoins hs'
    rw [hsucceeds.label] at hscope
    exact hsucceeds.faithful (h.faithful (hjoined hne) c (hfresh (hjoined hne) hc) s hs hscope)
  · obtain ⟨s, hs, hsucceeds⟩ := exists_succeeds hsource hjoins hs'
    rw [nullableLabels_revise hsource hjoins]
    rw [hsucceeds.label] at hscope ⊢
    exact (h.refusesAbsent (hjoined hne) c (hfresh (hjoined hne) hc) s hs hscope).imp_left
      fun ⟨hnull, hfirm⟩ => ⟨hnull, hsucceeds.firm hfirm⟩

end Revised

/-! ## Sources that take a condition in -/

/-- What is asked of a subquery is kept where it takes in conjuncts on its main source. -/
theorem withFilter_optimizableHere (h : q.OptimizableHere) {condition : Expr}
    (hscope : ∀ c ∈ condition.conjuncts, c.scope = .single q.source.label)
    (hfaithful : ∀ s ∈ q.sources, s.label = q.source.label → s.Faithful)
    (hrefuses : ∀ c ∈ condition.conjuncts,
      (q.source.label ∉ q.nullableLabels ∧ ∀ s ∈ q.sources, s.label = q.source.label → s.Firm) ∨
        ∀ row : Value, row.field? q.source.label = none → c.holds row = false) :
    (q.withFilter condition).OptimizableHere := by
  have hmem : ∀ c ∈ (q.withFilter condition).fresh, c ∈ q.fresh ∨ c ∈ condition.conjuncts := by
    intro c hc
    rw [fresh_withFilter] at hc
    exact List.mem_append.mp hc
  have hmain : ∀ c ∈ condition.conjuncts, ∀ s : Source, c.scope = .single s.label →
      s.label = q.source.label := fun c hc s hsingle =>
    Scope.single.inj (hsingle.symm.trans (hscope c hc))
  refine ⟨fun hne c hc hconstant => ?_, fun hne c hc s hs hsingle => ?_,
    fun hne c hc s hs hsingle => ?_⟩
  · rcases hmem c hc with hold | hnew
    · exact h.constantsHold hne c hold hconstant
    · exact absurd ((hscope c hnew).symm.trans hconstant) (by simp)
  · rcases hmem c hc with hold | hnew
    · exact h.faithful hne c hold s hs hsingle
    · exact hfaithful s hs (hmain c hnew s hsingle)
  · rcases hmem c hc with hold | hnew
    · exact h.refusesAbsent hne c hold s hs hsingle
    · have hlabel := hmain c hnew s hsingle
      rw [hlabel]
      exact (hrefuses c hnew).imp_left fun ⟨hnull, hfirm⟩ => ⟨hnull, hfirm s hs hlabel⟩

theorem ofSource_optimizableHere (s : Source) : (ofSource s).OptimizableHere where
  constantsHold hne := absurd rfl hne
  faithful hne := absurd rfl hne
  refusesAbsent hne := absurd rfl hne

/-- Without a condition a subquery has a plan where it has one with it. -/
theorem withFilter_plansAs (q : Query) (condition : Expr) :
    Query.PlansAs (q.withFilter condition) q := by
  intro p hp
  have hdemands : q.demands ⊆ (q.withFilter condition).demands := by
    rw [demands_withFilter]
    exact List.subset_append_left _ _
  have hplan : ∃ p', Plan.ofQuery? ((q.withFilter condition).revise q.source q.joins q.filters) =
      .ok p' :=
    revise_plansAs (.refl q.source)
      (List.forall₂_same.mpr fun j _ => .intro j.kind j.left j.right (.refl _))
      (fun c hc => Or.inl (hdemands hc)) hp
  exact hplan

end Level

namespace Source

variable {s s' : Source} {condition : Expr}

/-- A source that takes a condition in is a subquery with that condition, of the subquery that the
source is or of the collection. -/
theorem filtered?_eq_some (hf : s.filtered? condition = some s') :
    (s.isCollection = true ∧ s' = .subquery ((Level.ofSource s).withFilter condition) s.label) ∨
      ∃ q label, s = .subquery q label ∧ q.takesIn label condition = true ∧
        s' = .subquery (q.withFilter condition) label := by
  cases s with
  | collection name label => exact Or.inl ⟨rfl, (Option.some.inj hf).symm⟩
  | subquery q label =>
    have hf : (if q.takesIn label condition then
      some (subquery (q.withFilter condition) label) else none) = some s' := hf
    split at hf
    · rename_i ht
      exact Or.inr ⟨q, label, rfl, ht, (Option.some.inj hf).symm⟩
    · exact absurd hf (by simp)

theorem label_filtered? (hf : s.filtered? condition = some s') : s'.label = s.label := by
  rcases filtered?_eq_some hf with ⟨-, rfl⟩ | ⟨q, label, rfl, -, rfl⟩
  · rfl
  · rfl

theorem selectsFaithfully_ofSource (s : Source) : (Level.ofSource s).SelectsFaithfully := by
  intro fields hselect
  exact absurd hselect (by simp [Level.ofSource])

theorem filtered?_succeeds (hf : s.filtered? condition = some s') : s.Succeeds s' := by
  rcases filtered?_eq_some hf with ⟨hcollection, rfl⟩ | ⟨q, label, rfl, -, rfl⟩
  · cases s with
    | subquery q label => exact absurd hcollection Bool.false_ne_true
    | collection name label =>
      refine ⟨⟨rfl, fun p _ => ⟨_, rfl, trivial⟩⟩, fun _ => ?_, fun _ => ?_⟩
      · exact ⟨List.not_mem_nil, trivial, trivial⟩
      · exact ⟨selectsFaithfully_ofSource _, trivial, trivial⟩
  · refine ⟨(Level.withFilter_plansAs q condition).subquery label, fun hs => ?_, fun hs => ?_⟩
    · have hq := alongMain_subquery.mp hs
      exact alongMain_subquery.mpr hq
    · have hq := alongMain_subquery.mp hs
      exact alongMain_subquery.mpr hq

/-- **A source that takes in conjuncts on it keeps what is asked of it**, if it is faithful, and firm
where they accept rows without it. -/
theorem filtered?_optimizable (h : s.Optimizable) (hf : s.filtered? condition = some s')
    (hscope : ∀ c ∈ condition.conjuncts, c.scope = .single s.label) (hfaithful : s.Faithful)
    (hrefuses : ∀ c ∈ condition.conjuncts, s.Firm ∨
      ∀ row : Value, row.field? s.label = none → c.holds row = false) : s'.Optimizable := by
  rcases filtered?_eq_some hf with ⟨hcollection, rfl⟩ | ⟨q, label, rfl, ht, rfl⟩
  · have hmem : ∀ t ∈ (Level.ofSource s).sources, t = s := fun t ht => List.mem_singleton.mp ht
    refine Query.everyLevel_iff.mpr ⟨Level.withFilter_optimizableHere
      (Level.ofSource_optimizableHere s) hscope ?_ fun c hc => (hrefuses c hc).imp_left fun hfirm =>
        ⟨List.not_mem_nil, ?_⟩, ?_⟩
    · exact fun t ht _ => hmem t ht ▸ hfaithful
    · exact fun t ht _ => hmem t ht ▸ hfirm
    · exact fun t ht => hmem t ht ▸ h
  · obtain ⟨hhere, hsources⟩ := Query.everyLevel_iff.mp h
    have hlabel : q.source.label = label := Level.label_of_takesIn ht
    refine Query.everyLevel_iff.mpr ⟨Level.withFilter_optimizableHere hhere ?_
      (alongMain_subquery.mp hfaithful).2 ?_, hsources⟩
    · rw [hlabel]
      exact hscope
    · intro c hc
      refine (hrefuses c hc).imp (fun hfirm => alongMain_subquery.mp hfirm) fun hrefuse => ?_
      rw [hlabel]
      exact hrefuse

end Source

/-! ## What optimization keeps -/

/-- **A source that another one was optimized to**: it has the same rows, has a plan exactly where
the other one has, and is as asked. -/
structure Source.OptimizesTo (s s' : Source) : Prop where
  applies : s.Applies (fun _ => true) s'
  succeeds : s.Succeeds s'
  optimizable : s'.Optimizable

/-- **A query that another one was optimized to.** -/
structure Query.OptimizesTo (q q' : Query) : Prop where
  agrees : q.Agrees q'
  succeeds : ∀ label, (Source.subquery q label).Succeeds (.subquery q' label)
  optimizable : Query.Optimizable q'

theorem Source.OptimizesTo.refl {s : Source} (h : s.Optimizable) : s.OptimizesTo s :=
  ⟨.refl (fun _ => rfl) s, .refl s, h⟩

theorem Source.OptimizesTo.toMatches {s s' : Source} (h : s.OptimizesTo s') : s.Matches s' :=
  ⟨h.applies, h.succeeds.plans⟩

namespace Query.OptimizesTo

variable {q q' q'' : Query}

theorem refl (h : Query.Optimizable q) : q.OptimizesTo q := ⟨.refl q, fun _ => .refl _, h⟩

theorem trans (h : q.OptimizesTo q') (h' : q'.OptimizesTo q'') : q.OptimizesTo q'' :=
  ⟨h.agrees.trans h'.agrees, fun label => (h.succeeds label).trans (h'.succeeds label),
    h'.optimizable⟩

theorem subquery (h : q.OptimizesTo q') (label : String) :
    (Source.subquery q label).OptimizesTo (.subquery q' label) :=
  ⟨.subquery (fun _ => rfl) h.agrees label, h.succeeds label, h.optimizable⟩

theorem toMatches (h : q.OptimizesTo q') : q.Matches q' :=
  ⟨h.agrees, Query.plansAs_of_subquery (h.succeeds "").plans⟩

end Query.OptimizesTo

/-- **A level over optimized sources, which demands the same**, is one that it was optimized to. -/
theorem Level.revise_optimizesTo {q : Query} (h : Query.Optimizable q) {source : Source}
    {joins : List (Join Source)} {filters : List Clause} (hsource : q.source.OptimizesTo source)
    (hjoins : List.Forall₂ (Join.Over Source.OptimizesTo) q.joins joins)
    (hdemands : (q.revise source joins filters).demands = q.demands)
    (hfresh : q.joins ≠ [] → (q.revise source joins filters).fresh ⊆ q.fresh) :
    q.OptimizesTo (q.revise source joins filters) := by
  obtain ⟨hhere, -⟩ := Query.everyLevel_iff.mp h
  have hsucceeds : List.Forall₂ (Join.Over Source.Succeeds) q.joins joins :=
    hjoins.imp fun _ _ hj => hj.imp fun _ _ hs => hs.succeeds
  have hmatches := revise_matches hsource.toMatches
    (hjoins.imp fun _ _ hj => hj.imp fun _ _ hs => hs.toMatches) hdemands
  refine ⟨hmatches.agrees, fun label => revise_succeeds hsource.succeeds hsucceeds label
    hmatches.plans, Query.everyLevel_iff.mpr ⟨revise_optimizableHere hsource.succeeds hsucceeds
      hhere hfresh, fun s' hs' => ?_⟩⟩
  rcases List.mem_cons.mp hs' with rfl | hjoined
  · exact hsource.optimizable
  · obtain ⟨j', hj', rfl⟩ := List.mem_map.mp hjoined
    obtain ⟨j, -, hoptimizes⟩ := exists_of_over hjoins hj'
    exact hoptimizes.optimizable

end DeltaView
