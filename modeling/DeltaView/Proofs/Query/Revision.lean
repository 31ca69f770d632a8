import DeltaView.Proofs.Plan.Level
import DeltaView.Proofs.Query.Tested
import DeltaView.Query.Pushdown

/-!
# Levels over tested sources

A condition of a level may be left to its sources. `Level.agrees_of_applies` says when: every source
applies the test of its label, and the conditions that stay imply, together with these tests, those
that were there before, and by themselves the tests of the sources that may be absent.

* `Query.Agrees`, `Query.PlansAs`: a query that has a plan where another one has, with the same rows
  or with any.
* `Plan.Applies`, `Source.Applies`: the rows of a plan, or of a source, that pass a test.
* `Source.Relates`, `ofJoins?_relates`, **`Level.revise_relates`**: a level over sources that are
  related in some way, where the relation is kept by joins.
* **`Level.agrees_of_applies`**: a level over sources that apply tests.
* `Query.Matches`, **`Level.revise_matches`**: the same rows, with a plan exactly where there was one.
-/

namespace DeltaView

open Delta (Same)
open SourceTests (Kept Covered)

/-- **Wherever the one query has a plan the other has one too**, with the same rows. -/
def Query.Agrees (q q' : Query) : Prop :=
  ∀ p, Plan.ofQuery? q = .ok p → ∃ p', Plan.ofQuery? q' = .ok p' ∧ p.Agrees p'

namespace Query.Agrees

variable {q q' q'' : Query}

theorem refl (q : Query) : q.Agrees q := fun p hp => ⟨p, hp, .refl p⟩

theorem trans (h : q.Agrees q') (h' : q'.Agrees q'') : q.Agrees q'' := by
  intro p hp
  obtain ⟨p', hp', hagrees⟩ := h p hp
  obtain ⟨p'', hp'', hagrees'⟩ := h' p' hp'
  exact ⟨p'', hp'', hagrees.trans hagrees'⟩

end Query.Agrees

/-- **Wherever the one query has a plan the other has one too.** -/
def Query.PlansAs (q q' : Query) : Prop :=
  ∀ p, Plan.ofQuery? q = .ok p → ∃ p', Plan.ofQuery? q' = .ok p'

/-! ## Tested sources -/

theorem filterItems_of_untested {test : Value → Bool} (h : ∀ v, test v = true) (d : Delta Row) :
    Delta.filterItems (fun r => test r.value) d = d :=
  Delta.filterItems_eq_self fun e _ => h e.1.value

/-- **A plan with the rows of another one that pass a test**, of which no more has to be assumed. -/
structure Plan.Applies (test : Value → Bool) (p p' : Plan) : Prop where
  same : ∀ (functions : RowFunctions) (tables : Snapshot),
    Same (p'.rows functions tables)
      (Delta.filterItems (fun r => test r.value) (p.rows functions tables))
  regular : ∀ (functions : RowFunctions) (snapshots : List Snapshot),
    p.Regular functions snapshots → p'.Regular functions snapshots

namespace Plan.Applies

variable {test test' : Value → Bool} {p p' p'' : Plan}

/-- A test that refuses nothing leaves the rows as they are. -/
theorem of_untested (h : ∀ v, test v = true)
    (hsame : ∀ (functions : RowFunctions) (tables : Snapshot),
      Same (p'.rows functions tables) (p.rows functions tables))
    (hregular : ∀ (functions : RowFunctions) (snapshots : List Snapshot),
      p.Regular functions snapshots → p'.Regular functions snapshots) : p.Applies test p' := by
  refine ⟨fun functions tables => ?_, hregular⟩
  rw [filterItems_of_untested h]
  exact hsame functions tables

theorem trans (h : p.Applies test p') (h' : p'.Applies test' p'') :
    p.Applies (fun v => test v && test' v) p'' := by
  refine ⟨fun functions tables => (h'.same functions tables).trans ?_,
    fun functions snapshots hr => h'.regular functions snapshots (h.regular functions snapshots hr)⟩
  exact ((h.same functions tables).filterItems _).trans
    (.of_eq (Delta.filterItems_filterItems _ _ _))

end Plan.Applies

/-- **A source in whose place another one may stand**: it has a plan wherever the other one has, in
some relation to it, under the same label. -/
structure Source.Relates (related : Plan → Plan → Prop) (s s' : Source) : Prop where
  label : s'.label = s.label
  rows : ∀ p, Plan.ofSource? s = .ok p → ∃ p', Plan.ofSource? s' = .ok p' ∧ related p p'

/-- A source that has a plan wherever another one has, under the same label. -/
abbrev Source.PlansAs : Source → Source → Prop := Source.Relates fun _ _ => True

/-- **A source with the rows of another one that pass a test**, under the same label. -/
abbrev Source.Applies (test : Value → Bool) : Source → Source → Prop :=
  Source.Relates (Plan.Applies test)

namespace Source.PlansAs

theorem refl (s : Source) : s.PlansAs s := ⟨rfl, fun p hp => ⟨p, hp, trivial⟩⟩

theorem trans {s s' s'' : Source} (h : s.PlansAs s') (h' : s'.PlansAs s'') : s.PlansAs s'' where
  label := h'.label.trans h.label
  rows := by
    intro p hp
    obtain ⟨p', hp', -⟩ := h.rows p hp
    exact h'.rows p' hp'

end Source.PlansAs

theorem Query.PlansAs.subquery {q q' : Query} (h : q.PlansAs q') (label : String) :
    (Source.subquery q label).PlansAs (.subquery q' label) where
  label := rfl
  rows := by
    intro named hnamed
    obtain ⟨p, hp, rfl⟩ := map_eq_ok.mp hnamed
    obtain ⟨p', hp'⟩ := h p hp
    exact ⟨.named label p', map_eq_ok.mpr ⟨p', hp', rfl⟩, trivial⟩

theorem Query.plansAs_of_subquery {q q' : Query} {label : String}
    (h : (Source.subquery q label).PlansAs (.subquery q' label)) : q.PlansAs q' := by
  intro p hp
  obtain ⟨named, hnamed, -⟩ := h.rows _ (map_eq_ok.mpr ⟨p, hp, rfl⟩)
  obtain ⟨p', hp', -⟩ := map_eq_ok.mp hnamed
  exact ⟨p', hp'⟩

namespace Source.Applies

/-- A source applies a test that refuses nothing. -/
theorem refl {test : Value → Bool} (h : ∀ v, test v = true) (s : Source) : s.Applies test s where
  label := rfl
  rows p hp := ⟨p, hp, .of_untested h (fun _ _ => .refl _) fun _ _ hr => hr⟩

theorem trans {test test' : Value → Bool} {s s' s'' : Source} (h : s.Applies test s')
    (h' : s'.Applies test' s'') : s.Applies (fun v => test v && test' v) s'' where
  label := h'.label.trans h.label
  rows := by
    intro p hp
    obtain ⟨p', hp', happlies⟩ := h.rows p hp
    obtain ⟨p'', hp'', happlies'⟩ := h'.rows p' hp'
    exact ⟨p'', hp'', happlies.trans happlies'⟩

theorem congr {test test' : Value → Bool} {s s' : Source} (h : s.Applies test s')
    (heq : ∀ v, test v = test' v) : s.Applies test' s' := by
  obtain rfl : test = test' := funext heq
  exact h

/-- Queries that agree have the same rows under a label. -/
theorem subquery {test : Value → Bool} (h : ∀ v, test v = true) {q q' : Query} (hq : q.Agrees q')
    (label : String) : (Source.subquery q label).Applies test (.subquery q' label) where
  label := rfl
  rows := by
    intro named hnamed
    obtain ⟨p, hp, rfl⟩ := map_eq_ok.mp hnamed
    obtain ⟨p', hp', hagrees⟩ := hq p hp
    refine ⟨.named label p', map_eq_ok.mpr ⟨p', hp', rfl⟩,
      .of_untested h (fun functions tables => ?_) hagrees.regular⟩
    have := hagrees.same functions tables none
    rw [Plan.atWindow_none, Plan.atWindow_none] at this
    exact this.mapItems _

end Source.Applies

/-- **A source with the same rows**, which has a plan exactly where the other one has. -/
structure Source.Matches (s s' : Source) : Prop where
  applies : s.Applies (fun _ => true) s'
  plans : s'.PlansAs s

/-- **A query with the same rows**, which has a plan exactly where the other one has. -/
structure Query.Matches (q q' : Query) : Prop where
  agrees : q.Agrees q'
  plans : q'.PlansAs q

theorem Source.Matches.refl (s : Source) : s.Matches s := ⟨.refl (fun _ => rfl) s, .refl s⟩

theorem Source.Matches.trans {s s' s'' : Source} (h : s.Matches s') (h' : s'.Matches s'') :
    s.Matches s'' := ⟨h.applies.trans h'.applies, h'.plans.trans h.plans⟩

namespace Query.Matches

variable {q q' q'' : Query}

theorem refl (q : Query) : q.Matches q := ⟨.refl q, fun p hp => ⟨p, hp⟩⟩

theorem trans (h : q.Matches q') (h' : q'.Matches q'') : q.Matches q'' := by
  refine ⟨h.agrees.trans h'.agrees, fun p'' hp'' => ?_⟩
  obtain ⟨p', hp'⟩ := h'.plans p'' hp''
  exact h.plans p' hp'

theorem subquery (h : q.Matches q') (label : String) :
    (Source.subquery q label).Matches (.subquery q' label) :=
  ⟨.subquery (fun _ => rfl) h.agrees label, h.plans.subquery label⟩

/-- The one query has a plan exactly where the other one has. -/
theorem plan_iff (h : q.Matches q') :
    (∃ p', Plan.ofQuery? q' = .ok p') ↔ ∃ p, Plan.ofQuery? q = .ok p := by
  constructor
  · rintro ⟨p', hp'⟩
    exact h.plans p' hp'
  · rintro ⟨p, hp⟩
    obtain ⟨p', hp', -⟩ := h.agrees p hp
    exact ⟨p', hp'⟩

end Query.Matches

/-- Joins that differ in their sources alone, which are related. -/
inductive Join.Over (related : Source → Source → Prop) : Join Source → Join Source → Prop
  | intro (kind : JoinKind) (left right : Expr) {s s' : Source} (h : related s s') :
    Over related ⟨kind, s, left, right⟩ ⟨kind, s', left, right⟩

/-- Joins that differ in their sources, which are related by label. -/
abbrev Join.Relates (related : String → Plan → Plan → Prop) : Join Source → Join Source → Prop :=
  Join.Over fun s s' => s.Relates (related s.label) s'

/-- Joins that differ in their sources, of which the second applies the test of its label. -/
abbrev Join.Applies (test : SourceTests) : Join Source → Join Source → Prop :=
  Join.Relates fun label => Plan.Applies (test label)

/-! ## Rows of sources -/

/-- The rows of a plan are of some sources, whatever the tables hold. -/
def Plan.Covers (labels : List String) (p : Plan) : Prop :=
  ∀ (functions : RowFunctions) (tables : Snapshot), Covered labels (p.rows functions tables)

theorem Plan.covers_of_source {s : Source} {p : Plan} (h : ofSource? s = .ok p) :
    p.Covers [s.label] := by
  intro functions tables
  have hnamed : ∀ (label : String) (d : Delta Row),
      Covered [label] (Delta.mapItems (Row.named label) d) := by
    intro label d e he
    obtain ⟨r, -, rfl⟩ := List.mem_map.mp he
    exact Value.covers_named label r.1.value
  cases s with
  | collection name label =>
    obtain rfl := Except.ok.inj h
    exact hnamed label _
  | subquery q label =>
    obtain ⟨p, -, rfl⟩ := map_eq_ok.mp h
    exact hnamed label _

/-- What is known of the rows of all sources under a label is known of those in a relation. -/
theorem Source.Relates.covered {related : Plan → Plan → Prop} {s s' : Source}
    (h : s.Relates related s') :
    s.Relates (fun p p' => related p p' ∧ p.Covers [s.label] ∧ p'.Covers [s.label]) s' where
  label := h.label
  rows := by
    intro p hp
    obtain ⟨p', hp', hrelated⟩ := h.rows p hp
    exact ⟨p', hp', hrelated, Plan.covers_of_source hp, h.label ▸ Plan.covers_of_source hp'⟩

variable {test : SourceTests} {labels nullable : List String}
  {related : String → Plan → Plan → Prop} {joins joins' : List (Join Source)}

theorem Join.Over.imp {related related' : Source → Source → Prop} {j j' : Join Source}
    (h : Join.Over related j j') (himp : ∀ s s', related s s' → related' s s') :
    Join.Over related' j j' := by
  obtain ⟨kind, left, right, h⟩ := h
  exact .intro kind left right (himp _ _ h)

theorem Join.Over.flip {related : Source → Source → Prop} {j j' : Join Source}
    (h : Join.Over related j j') : Join.Over (fun s s' => related s' s) j' j := by
  obtain ⟨kind, left, right, h⟩ := h
  exact .intro kind left right h

theorem Join.Relates.covered {j j' : Join Source} (h : j.Relates related j') :
    j.Relates (fun a p p' => related a p p' ∧ p.Covers [a] ∧ p'.Covers [a]) j' :=
  h.imp fun _ _ => Source.Relates.covered

theorem labels_of_over {sourceRelated : Source → Source → Prop}
    (hlabel : ∀ s s', sourceRelated s s' → s'.label = s.label)
    (h : List.Forall₂ (Join.Over sourceRelated) joins joins') :
    joins'.map (·.source.label) = joins.map (·.source.label) := by
  induction h with
  | nil => rfl
  | cons hj _ ih =>
    obtain ⟨-, -, -, hsource⟩ := hj
    exact congrArg₂ (· :: ·) (hlabel _ _ hsource) ih

theorem labels_of_relates (h : List.Forall₂ (Join.Relates related) joins joins') :
    joins'.map (·.source.label) = joins.map (·.source.label) :=
  labels_of_over (fun _ _ hs => hs.label) h

/-- Every joined source of the one list is related to one of the other. -/
theorem exists_of_over {sourceRelated : Source → Source → Prop}
    (h : List.Forall₂ (Join.Over sourceRelated) joins joins') {j' : Join Source}
    (hj' : j' ∈ joins') : ∃ j ∈ joins, sourceRelated j.source j'.source := by
  induction h with
  | nil => exact absurd hj' List.not_mem_nil
  | cons hj _ ih =>
    rcases List.mem_cons.mp hj' with rfl | hrest
    · obtain ⟨-, -, -, hsource⟩ := hj
      exact ⟨_, List.mem_cons_self, hsource⟩
    · obtain ⟨j, hmem, hsource⟩ := ih hrest
      exact ⟨j, List.mem_cons_of_mem _ hmem, hsource⟩

/-! ## Joins of related sources -/

/-- **What a join keeps, if its sides are of different sources** and those it may leave absent are
known to be nullable. -/
def Plan.KeptByJoins (labels nullable : List String) (related : String → Plan → Plan → Prop)
    (invariant : List String → Plan → Plan → Prop) : Prop :=
  ∀ (known : List String) (label : String) (kind : JoinKind) (mainKey joinedKey : Expr)
    (main main' joined joined' : Plan), known ++ [label] ⊆ labels → label ∉ known →
    (kind.keepsLeft = true → label ∈ nullable) → (kind.keepsRight = true → known ⊆ nullable) →
    invariant known main main' → related label joined joined' →
    invariant (known ++ [label]) (.join kind mainKey joinedKey main joined)
      (.join kind mainKey joinedKey main' joined')

/-- **Joins over related sources** have a plan as well, in a relation that joins keep. -/
theorem Plan.ofJoins?_relates {invariant : List String → Plan → Plan → Prop}
    (hstep : joins ≠ [] → KeptByJoins labels nullable related invariant)
    (h : List.Forall₂ (Join.Relates related) joins joins') {known : List String}
    {main main' p : Plan} (hsub : known ++ joins.map (·.source.label) ⊆ labels)
    (hn : Level.nullableFrom known joins ⊆ nullable) (hp : ofJoins? main known joins = .ok p)
    (hmain : invariant known main main') :
    ∃ p', ofJoins? main' known joins' = .ok p' ∧
      invariant (known ++ joins.map (·.source.label)) p p' := by
  induction h generalizing known main main' with
  | nil =>
    obtain rfl := Except.ok.inj hp
    refine ⟨main', rfl, ?_⟩
    rw [List.map_nil, List.append_nil]
    exact hmain
  | cons hj _ ih =>
    obtain ⟨kind, left, right, hsource⟩ := hj
    obtain ⟨joined, hjoined, hp⟩ := bind_eq_ok.mp hp
    obtain ⟨rows, hrows, hp⟩ := bind_eq_ok.mp hp
    obtain ⟨joined', hjoined', hrelated⟩ := hsource.rows joined hjoined
    obtain ⟨hnew, -, -⟩ := join?_labels hrows
    obtain ⟨mainKey, joinedKey, rfl, hjoin⟩ := join?_eq_ok hrows
    rw [List.map_cons, List.append_cons] at hsub ⊢
    unfold Level.nullableFrom at hn
    obtain ⟨hn, hnrest⟩ := List.append_subset.mp hn
    obtain ⟨hnleft, hnright⟩ := List.append_subset.mp hn
    have hkept := hstep (List.cons_ne_nil _ _)
    -- One join more, over the related source.
    have hnext := hkept known _ kind mainKey joinedKey main main' joined joined'
      (List.append_subset.mp hsub).1 hnew (fun hkeeps => ?_) (fun hkeeps => ?_) hmain hrelated
    · obtain ⟨p', hp', hinvariant⟩ := ih (fun _ => hkept) hsub hnrest hp hnext
      refine ⟨p', bind_eq_ok.mpr ⟨joined', hjoined', bind_eq_ok.mpr
        ⟨.join kind mainKey joinedKey main' joined', ?_, ?_⟩⟩, hinvariant⟩
      · rw [hsource.label]
        exact hjoin main' joined'
      · rw [hsource.label]
        exact hp'
    · rw [if_pos hkeeps] at hnleft
      exact hnleft List.mem_cons_self
    · rw [if_pos hkeeps] at hnright
      exact hnright

namespace Level

/-! ## One level -/

variable {q : Query} {source : Source} {joins : List (Join Source)} {filters : List Clause}

/-- What is left of the rows that were tested on the way, once the conditions that stay are tested
as well. -/
theorem same_of_kept {d d' : Delta Row} (h : Kept test nullable labels d d')
    {before after : Value → Bool}
    (hall : ∀ v : Value, v.Covers labels → before v = (test.passesAll labels v && after v))
    (hnullable : ∀ v, after v = true → ∀ a ∈ labels, a ∈ nullable → test a v = true) :
    Same (Delta.filterItems (fun r => after r.value) d')
      (Delta.filterItems (fun r => before r.value) d) := by
  have hfirm := h.passedAll (labels.filter fun a => a ∉ nullable) (List.filter_subset_self _)
    fun a ha => of_decide_eq_true (List.mem_filter.mp ha).2
  -- The sources that may be absent are tested by the conditions, the others have been tested.
  have hafter : Delta.filterItems (fun r => after r.value) (Delta.filterItems (fun r =>
      test.passesAll (labels.filter fun a => a ∉ nullable) r.value) d') =
      Delta.filterItems (fun r => before r.value) d' := by
    rw [Delta.filterItems_filterItems]
    refine Delta.filterItems_congr fun r hr => ?_
    rw [hall _ (h.covered' r hr), Bool.eq_iff_iff, Bool.and_eq_true, Bool.and_eq_true]
    refine and_congr_left fun hr => ?_
    unfold SourceTests.passesAll
    rw [List.all_eq_true, List.all_eq_true]
    constructor
    · intro hpass a ha
      by_cases hn : a ∈ nullable
      · exact hnullable r.1.value hr a ha hn
      · exact hpass a (List.mem_filter.mpr ⟨ha, decide_eq_true hn⟩)
    · intro hpass a ha
      exact hpass a (List.mem_filter.mp ha).1
  refine (hfirm.symm.filterItems _).trans ?_
  rw [hafter]
  exact h.toAlike.filter fun v hcovers hv =>
    (Bool.and_eq_true_iff.mp ((hall v hcovers).symm.trans hv)).1

/-- **A level over related sources** has a plan as well, if its conditions are among those of the
level, or have values and read sources of the level. It shows the same rows where WHERE leaves the
same rows. -/
theorem revise_relates {invariant : List String → Plan → Plan → Prop}
    (hstep : q.joins ≠ [] →
      Plan.KeptByJoins (q.sources.map (·.label)) q.nullableLabels related invariant)
    (hsource : q.source.Relates (related q.source.label) source)
    (hjoins : List.Forall₂ (Join.Relates related) q.joins joins)
    (hmain : ∀ p p', related q.source.label p p' → invariant [q.source.label] p p')
    (hdemands : ∀ c ∈ (q.revise source joins filters).demands, c ∈ q.demands ∨
      (c.check = .ok () ∧ ∀ a ∈ c.labels, a ∈ q.sources.map (·.label))) {p : Plan}
    (hp : Plan.ofQuery? q = .ok p) :
    ∃ sources sources' p', Plan.ofQuery? (q.revise source joins filters) = .ok p' ∧
      invariant (q.sources.map (·.label)) sources sources' ∧
      (∀ (functions : RowFunctions) (tables tables' : Snapshot) (window : Option Window),
        Same ((q.revise source joins filters).demanded functions tables' sources')
          (q.demanded functions tables sources) →
        Same ((p'.atWindow window).rows functions tables')
          ((p.atWindow window).rows functions tables)) ∧
      ∀ (functions : RowFunctions) (snapshots : List Snapshot),
        (∀ tables ∈ snapshots, Same ((q.revise source joins filters).demanded functions tables
          sources') (q.demanded functions tables sources)) →
        (sources.Regular functions snapshots → sources'.Regular functions snapshots) →
        p.Regular functions snapshots → p'.Regular functions snapshots := by
  obtain ⟨hclauses, main, sources, hmain', hsources, hplan⟩ := Plan.ofQuery?_eq_ok.mp hp
  rw [labels_eq] at hstep
  obtain ⟨main', hmain'', hrelated⟩ := hsource.rows main hmain'
  obtain ⟨sources', hsources', hinvariant⟩ := Plan.ofJoins?_relates hstep hjoins
    (List.Subset.refl _) (List.Subset.refl _) hsources (hmain main main' hrelated)
  have hempty : joins.isEmpty = q.joins.isEmpty := by
    rw [Bool.eq_iff_iff, List.isEmpty_iff_length_eq_zero, List.isEmpty_iff_length_eq_zero,
      hjoins.length_eq]
  obtain ⟨p', hp', hsame, hregular⟩ := revise_plan? hplan hsource.label hempty hdemands sources'
  refine ⟨sources, sources', p', Plan.ofQuery?_eq_ok.mpr
    ⟨hclauses, main', sources', hmain'', ?_, ?_⟩, ?_, hsame, hregular⟩
  · show Plan.ofJoins? main' [source.label] joins = .ok sources'
    rw [hsource.label]
    exact hsources'
  · have hlabels : (q.revise source joins filters).sources.map (·.label) =
        q.sources.map (·.label) := by
      rw [labels_eq, labels_eq]
      exact congrArg₂ (fun a rest => [a] ++ rest) hsource.label (labels_of_relates hjoins)
    rw [hlabels]
    exact hp'
  · rw [labels_eq]
    exact hinvariant

/-- A level over sources that have plans has one as well. -/
theorem revise_plansAs (hsource : q.source.PlansAs source)
    (hjoins : List.Forall₂ (Join.Over Source.PlansAs) q.joins joins)
    (hdemands : ∀ c ∈ (q.revise source joins filters).demands, c ∈ q.demands ∨
      (c.check = .ok () ∧ ∀ a ∈ c.labels, a ∈ q.sources.map (·.label))) {p : Plan}
    (hp : Plan.ofQuery? q = .ok p) :
    ∃ p', Plan.ofQuery? (q.revise source joins filters) = .ok p' := by
  have hkept : Plan.KeptByJoins (q.sources.map (·.label)) q.nullableLabels (fun _ _ _ => True)
      fun _ _ _ => True := fun _ _ _ _ _ _ _ _ _ _ _ _ _ _ _ => trivial
  obtain ⟨-, -, p', hp', -⟩ :=
    revise_relates (fun _ => hkept) hsource hjoins (fun _ _ _ => trivial) hdemands hp
  exact ⟨p', hp'⟩

/-- Sources that apply tests, with rows on which the tests are kept, where no more is assumed. -/
def KeepsTests (test : SourceTests) (nullable known : List String) (p p' : Plan) : Prop :=
  (∀ (functions : RowFunctions) (tables : Snapshot),
    Kept test nullable known (p.rows functions tables) (p'.rows functions tables)) ∧
  ∀ (functions : RowFunctions) (snapshots : List Snapshot),
    p.Regular functions snapshots → p'.Regular functions snapshots

theorem keepsTests_keptByJoins (hs : test.Sound nullable labels) :
    Plan.KeptByJoins labels nullable
      (fun a p p' => p.Applies (test a) p' ∧ p.Covers [a] ∧ p'.Covers [a])
      (KeepsTests test nullable) := by
  intro known label kind mainKey joinedKey main main' joined joined' hsub hnew hleft hright hmain
    hjoined
  obtain ⟨hknown, hlabel⟩ := List.append_subset.mp hsub
  obtain ⟨happlies, hcovers, hcovers'⟩ := hjoined
  refine ⟨fun functions tables => ?_, fun functions snapshots hr =>
    ⟨hmain.2 functions snapshots hr.1, happlies.regular functions snapshots hr.2⟩⟩
  refine (hmain.1 functions tables).join _ hs hknown hlabel ?_
    (fun hkeeps => List.cons_subset.mpr ⟨hleft hkeeps, List.nil_subset _⟩) hright
    (.source (hcovers functions tables) (hcovers' functions tables)
      (happlies.same functions tables))
  intro a ha hmem
  obtain rfl := List.mem_singleton.mp hmem
  exact hnew ha

/-- **A level over sources that apply tests agrees with the level** whose conditions are those that
stay and the tests, if the conditions that stay refuse what the tests of absent sources refuse. -/
theorem agrees_of_applies
    (hs : q.joins ≠ [] → test.Sound q.nullableLabels (q.sources.map (·.label)))
    (hsource : q.source.Applies (test q.source.label) source)
    (hjoins : List.Forall₂ (Join.Applies test) q.joins joins)
    (hdemands : (q.revise source joins filters).demands ⊆ q.demands)
    (hall : ∀ v : Value, v.Covers (q.sources.map (·.label)) → q.demands.all (·.holds v) =
      (test.passesAll (q.sources.map (·.label)) v &&
        (q.revise source joins filters).demands.all (·.holds v)))
    (hnullable : ∀ v, (q.revise source joins filters).demands.all (·.holds v) = true →
      ∀ a ∈ q.sources.map (·.label), a ∈ q.nullableLabels → test a v = true) :
    q.Agrees (q.revise source joins filters) := by
  intro p hp
  obtain ⟨sources, sources', p', hp', hkept, hsame, hregular⟩ :=
    revise_relates (fun hne => keepsTests_keptByJoins (hs hne)) hsource.covered
      (hjoins.imp fun _ _ => Join.Relates.covered) (fun p p' ⟨happlies, hcovers, hcovers'⟩ =>
        ⟨fun functions tables => .source (hcovers functions tables) (hcovers' functions tables)
          (happlies.same functions tables), happlies.regular⟩) (fun _ hc => Or.inl (hdemands hc)) hp
  have hdemanded : ∀ (functions : RowFunctions) (tables : Snapshot),
      Same ((q.revise source joins filters).demanded functions tables sources')
        (q.demanded functions tables sources) := fun functions tables =>
    same_of_kept (hkept.1 functions tables) hall hnullable
  exact ⟨p', hp', fun functions tables window =>
    hsame functions tables tables window (hdemanded functions tables),
    fun functions snapshots => hregular functions snapshots
      (fun tables _ => hdemanded functions tables) (hkept.2 functions snapshots)⟩

/-- A level over sources with the same rows, which demands the same, agrees with the level. -/
theorem agrees_of_untested (hsource : q.source.Applies (fun _ => true) source)
    (hjoins : List.Forall₂ (Join.Applies fun _ _ => true) q.joins joins)
    (hdemands : (q.revise source joins filters).demands = q.demands) :
    q.Agrees (q.revise source joins filters) := by
  intro p hp
  have hsound : q.joins ≠ [] →
      SourceTests.Sound (fun _ _ => true) q.nullableLabels (q.sources.map (·.label)) := fun hne =>
    ⟨(Plan.ofQuery?_labels hp).2 hne, fun _ _ _ _ _ _ _ => rfl, fun _ _ _ => Or.inl fun _ => rfl⟩
  refine agrees_of_applies hsound hsource hjoins (hdemands ▸ List.Subset.refl _)
    (fun v _ => ?_) (fun _ _ _ _ _ => rfl) p hp
  have hpass : SourceTests.passesAll (fun _ _ => true) (q.sources.map (·.label)) v = true :=
    List.all_eq_true.mpr fun _ _ => rfl
  rw [hpass, hdemands, Bool.true_and]

/-- **A level over sources with the same rows, which demands the same**, matches the level. -/
theorem revise_matches (hsource : q.source.Matches source)
    (hjoins : List.Forall₂ (Join.Over Source.Matches) q.joins joins)
    (hdemands : (q.revise source joins filters).demands = q.demands) :
    q.Matches (q.revise source joins filters) := by
  refine ⟨agrees_of_untested hsource.applies
    (hjoins.imp fun _ _ hj => hj.imp fun _ _ hs => hs.applies) hdemands, fun p hp => ?_⟩
  have hback : List.Forall₂ (Join.Over Source.PlansAs) joins q.joins :=
    (hjoins.imp fun _ _ hj => (hj.imp fun _ _ hs => hs.plans).flip).flip
  have hplan : ∃ p', Plan.ofQuery? ((q.revise source joins filters).revise q.source q.joins
      q.filters) = .ok p' :=
    revise_plansAs hsource.plans hback (fun c hc => Or.inl (hdemands ▸ hc)) hp
  exact hplan

end Level

end DeltaView
