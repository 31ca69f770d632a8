import DeltaView.Proofs.Query.Revision

/-!
# Rows that need not be loaded

A query reports conditions on the collections that it reads directly. Rows of such a collection
that do not satisfy its condition may be left out, unless an outer join may leave the collection
absent and the condition accepts rows without it.

* `Query.needs`: the rows that satisfy what is reported. `Query.fedBy`: the query with each of its
  direct sources read from a collection of its own.
* `Source.rows_congr_collections`: a source depends on the collections that it reads alone.
* `Query.Loads`: tables from which rows may have been left out.
* **`Query.loads_same`**: the query has the same rows on them.
-/

namespace DeltaView

open Delta (Same)
open SourceTests (Alike Covered)

/-! ## Collections that a query reads -/

namespace Source

mutual

/-- The collections that a source reads. -/
def collections : Source → List String
  | .collection name _ => [name]
  | .subquery q _ => collectionsOfLevel q

def collectionsOfLevel : Query → List String
  | ⟨source, _, joins, _, _, _, _, _, _, _, _, _, _⟩ =>
    collections source ++ collectionsOfJoins joins

def collectionsOfJoins : List (Join Source) → List String
  | [] => []
  | ⟨_, source, _, _⟩ :: joins => collections source ++ collectionsOfJoins joins

end

variable {functions : RowFunctions} {tables tables' : Snapshot}

mutual

/-- **A source depends on the collections that it reads** alone. -/
theorem rows_congr_collections : ∀ {s : Source} {p : Plan}, Plan.ofSource? s = .ok p →
    (∀ name ∈ s.collections, Same (tables' name).rows (tables name).rows) →
    Same (p.rows functions tables') (p.rows functions tables)
  | .collection name label, p, h, htables => by
    obtain rfl := Except.ok.inj h
    exact (htables name List.mem_cons_self).mapItems _
  | .subquery q label, p, h, htables => by
    obtain ⟨p, hp, rfl⟩ := map_eq_ok.mp h
    exact (rows_congr_of_level hp htables).mapItems _

theorem rows_congr_of_level : ∀ {q : Query} {p : Plan}, Plan.ofQuery? q = .ok p →
    (∀ name ∈ collectionsOfLevel q, Same (tables' name).rows (tables name).rows) →
    Same (p.rows functions tables') (p.rows functions tables)
  | ⟨source, _, joins, _, _, _, _, _, _, _, _, _, _⟩, p, h, htables => by
    obtain ⟨-, main, sources, hmain, hsources, hplan⟩ := Plan.ofQuery?_eq_ok.mp h
    obtain ⟨-, -, hfinish⟩ := Level.plan?_eq_ok.mp hplan
    obtain ⟨step, rfl, hstep, -, -⟩ := Level.finish?_eq_ok hfinish
    refine hstep.same functions tables tables' _ _ ?_
    rw [Level.rows_planFilters, Level.rows_planFilters]
    refine Same.filterItems (Same.filterItems (rows_congr_of_joins hsources
      (fun name hname => htables name (List.mem_append_right _ hname)) ?_) _) _
    exact rows_congr_collections hmain fun name hname =>
      htables name (List.mem_append_left _ hname)

theorem rows_congr_of_joins : ∀ {joins : List (Join Source)} {known : List String} {main p : Plan},
    Plan.ofJoins? main known joins = .ok p →
    (∀ name ∈ collectionsOfJoins joins, Same (tables' name).rows (tables name).rows) →
    Same (main.rows functions tables') (main.rows functions tables) →
    Same (p.rows functions tables') (p.rows functions tables)
  | [], _, _, p, h, _, hmain => by
    obtain rfl := Except.ok.inj h
    exact hmain
  | ⟨_, source, _, _⟩ :: joins, _, _, p, h, htables, hmain => by
    obtain ⟨joined, hjoined, h⟩ := bind_eq_ok.mp h
    obtain ⟨rows, hrows, h⟩ := bind_eq_ok.mp h
    obtain ⟨mainKey, joinedKey, rfl, -⟩ := Plan.join?_eq_ok hrows
    refine rows_congr_of_joins h (fun name hname => htables name (List.mem_append_right _ hname)) ?_
    exact JoinRule.table_congr _ hmain (rows_congr_collections hjoined fun name hname =>
      htables name (List.mem_append_left _ hname))

end

/-! ## Sources read from other collections -/

/-- The source read from another collection, if it is a collection; `feed` says which, by label. -/
def fedBy (feed : String → String) : Source → Source
  | .collection _ label => .collection (feed label) label
  | .subquery q label => .subquery q label

end Source

namespace Query

variable {functions : RowFunctions} {tables tables' : Snapshot} {feed : String → String} {q : Query}

/-- The query with each of its direct sources read from a collection of its own. -/
def fedBy (feed : String → String) (q : Query) : Query :=
  { q with
    source := q.source.fedBy feed
    joins := q.joins.map fun j => { j with source := j.source.fedBy feed } }

/-! ## Reported conditions -/

/-- Does a row satisfy the condition that is reported for one of its sources? -/
def reported (q : Query) : SourceTests := fun a v =>
  (q.sourceFilters.find? (·.1 == a)).all fun f => f.2.holds v

/-- Does a row of a collection satisfy the condition that is reported for it under a label? -/
def needs (q : Query) (a : String) (v : Value) : Bool := q.reported a (.object [(a, v)])

theorem conditionOn?_of_mem_sourceFilters {a : String} {e : Expr} (h : (a, e) ∈ q.sourceFilters) :
    Expr.conditionOn? a q.demands = some e := by
  obtain ⟨b, -, hb⟩ := List.mem_filterMap.mp h
  split at hb
  · obtain ⟨c, hc, heq⟩ := Option.map_eq_some_iff.mp hb
    obtain ⟨rfl, rfl⟩ := Prod.mk.inj heq
    exact hc
  · exact absurd hb (by simp)

/-- What is reported for a source is nothing, or the conjuncts on it. -/
theorem reported_cases (q : Query) (a : String) :
    (∀ v, q.reported a v = true) ∨ ∃ e, (a, e) ∈ q.sourceFilters ∧
      (∀ v, q.reported a v = e.holds v) ∧ e.conjuncts = Expr.conditionsOn a q.demands := by
  unfold reported
  cases hfind : q.sourceFilters.find? (·.1 == a) with
  | none => exact Or.inl fun _ => rfl
  | some f =>
    obtain ⟨b, e⟩ := f
    have hlabel := List.find?_some hfind
    obtain rfl : b = a := eq_of_beq hlabel
    have hmem := List.mem_of_find?_eq_some hfind
    exact Or.inr ⟨e, hmem, fun _ => rfl, Expr.conjuncts_conditionOn?
      (fun _ => Level.conjuncts_of_mem_demands) (conditionOn?_of_mem_sourceFilters hmem)⟩

/-- Rows on which all that is demanded holds satisfy what is reported. -/
theorem reported_of_demands {v : Value} (h : q.demands.all (·.holds v) = true) (a : String) :
    q.reported a v = true := by
  rcases q.reported_cases a with hall | ⟨e, -, heq, hconjuncts⟩
  · exact hall v
  · rw [heq, Expr.holds_eq_all, hconjuncts]
    exact List.all_eq_true.mpr fun c hc =>
      List.all_eq_true.mp h c (Expr.mem_conditionsOn.mp hc).1

/-- **What is reported for sources that may be absent** refuses rows without them. -/
def ReportsRefuse (q : Query) : Prop :=
  ∀ a e, (a, e) ∈ q.sourceFilters → a ∈ q.nullableLabels →
    ∀ row : Value, row.field? a = none → e.holds row = false

theorem reported_sound (hnamed : "" ∉ q.sources.map (·.label)) (h : q.ReportsRefuse) :
    q.reported.Sound q.nullableLabels (q.sources.map (·.label)) where
  named := hnamed
  ownField a _ v w hfield hv hw := by
    rcases q.reported_cases a with hall | ⟨e, -, heq, hconjuncts⟩
    · rw [hall, hall]
    · have hreads : e.ReadsOnly a := Expr.readsOnly_of_conjuncts fun c hc =>
        Expr.readsOnly_of_scope (Expr.mem_conditionsOn.mp (hconjuncts ▸ hc)).2
      rw [heq, heq, hreads.holds_congr hfield (hv.trans hw.symm)]
  absent a _ hn := by
    rcases q.reported_cases a with hall | ⟨e, hmem, heq, -⟩
    · exact Or.inl hall
    · exact Or.inr fun v hv => (heq v).trans (h a e hmem hn v hv)

/-! ## Tables from which rows are left out -/

/-- **Tables that hold the rows that a query needs.** The collections that it reads directly have
the same rows of those that satisfy what is reported; those of subqueries have the same rows. -/
structure Loads (feed : String → String) (q : Query) (tables tables' : Snapshot) : Prop where
  direct : ∀ name a, Source.collection name a ∈ q.sources →
    Same (Delta.filterItems (fun r => q.needs a r.value) (tables' (feed a)).rows)
      (Delta.filterItems (fun r => q.needs a r.value) (tables name).rows)
  nested : ∀ inner a, Source.subquery inner a ∈ q.sources →
    ∀ name ∈ Source.collectionsOfLevel inner, Same (tables' name).rows (tables name).rows

/-- The rows of a source that satisfy what is reported are the same. -/
theorem Loads.source (h : q.Loads feed tables tables') {s : Source} (hs : s ∈ q.sources) :
    s.Relates (fun p p' => Same
      (Delta.filterItems (fun r => q.reported s.label r.value) (p'.rows functions tables'))
      (Delta.filterItems (fun r => q.reported s.label r.value) (p.rows functions tables)))
      (s.fedBy feed) := by
  cases s with
  | collection name a =>
    refine ⟨rfl, fun p hp => ⟨_, rfl, ?_⟩⟩
    obtain rfl := Except.ok.inj hp
    show Same (Delta.filterItems _ (Delta.mapItems _ _)) (Delta.filterItems _ (Delta.mapItems _ _))
    rw [Delta.filterItems_mapItems, Delta.filterItems_mapItems]
    exact (h.direct name a hs).mapItems _
  | subquery inner a =>
    refine ⟨rfl, fun p hp => ⟨p, hp, ?_⟩⟩
    exact (Source.rows_congr_collections hp (h.nested inner a hs)).filterItems _

/-- What a join keeps of sources that are alike once what is reported is tested. -/
theorem alike_keptByJoins (functions : RowFunctions) (tables tables' : Snapshot)
    {test : SourceTests} {nullable labels : List String} (hs : test.Sound nullable labels) :
    Plan.KeptByJoins labels nullable
      (fun a p p' => Same
        (Delta.filterItems (fun r => test a r.value) (p'.rows functions tables'))
        (Delta.filterItems (fun r => test a r.value) (p.rows functions tables)) ∧
        p.Covers [a] ∧ p'.Covers [a])
      fun known p p' => Alike test known (p.rows functions tables) (p'.rows functions tables') := by
  intro known label kind mainKey joinedKey main main' joined joined' hsub hnew hleft hright hmain
    hjoined
  obtain ⟨hknown, hlabel⟩ := List.append_subset.mp hsub
  obtain ⟨hsame, hcovers, hcovers'⟩ := hjoined
  refine hmain.join _ hs hknown hlabel (fun a ha hmem => ?_)
    (fun hkeeps => List.cons_subset.mpr ⟨hleft hkeeps, List.nil_subset _⟩) hright
    (.source (hcovers functions tables) (hcovers' functions tables') hsame)
  obtain rfl := List.mem_singleton.mp hmem
  exact hnew ha

/-- The query on tables that hold what it needs, where these are known. -/
theorem Loads.rows_same (functions : RowFunctions) (h : q.Loads feed tables tables')
    (hrefuse : q.ReportsRefuse) {p : Plan} (hp : Plan.ofQuery? q = .ok p) :
    ∃ p', Plan.ofQuery? (q.fedBy feed) = .ok p' ∧ ∀ window,
      Same ((p'.atWindow window).rows functions tables')
        ((p.atWindow window).rows functions tables) := by
  have hnamed := (Plan.ofQuery?_labels hp).2
  have hjoins : List.Forall₂ (Join.Relates fun a p p' => Same
      (Delta.filterItems (fun r => q.reported a r.value) (p'.rows functions tables'))
      (Delta.filterItems (fun r => q.reported a r.value) (p.rows functions tables))) q.joins
      (q.joins.map fun j => { j with source := j.source.fedBy feed }) := by
    rw [List.forall₂_map_right_iff, List.forall₂_same]
    exact fun j hj => .intro j.kind j.left j.right
      (h.source (List.mem_cons_of_mem _ (List.mem_map.mpr ⟨j, hj, rfl⟩)))
  obtain ⟨sources, sources', p', hp', halike, hsame, -⟩ := Level.revise_relates
    (fun hj => alike_keptByJoins functions tables tables' (reported_sound (hnamed hj) hrefuse))
    (h.source List.mem_cons_self).covered (hjoins.imp fun _ _ => Join.Relates.covered)
    (fun p p' ⟨hsame, hcovers, hcovers'⟩ =>
      .source (hcovers functions tables) (hcovers' functions tables') hsame)
    (fun _ hc => Or.inl hc) hp
  refine ⟨p', hp', fun window => hsame functions tables tables' window ?_⟩
  -- What is demanded implies what is reported, so rows that may differ are refused either way.
  exact halike.filter fun v _ hv => List.all_eq_true.mpr fun a _ => reported_of_demands hv a

/-- **A query has the same rows on tables that hold what it needs**, if what it reports for sources
that may be absent refuses rows without them. -/
theorem loads_same (hrefuse : q.ReportsRefuse) {p : Plan} (hp : Plan.ofQuery? q = .ok p)
    (feed : String → String) :
    ∃ p', Plan.ofQuery? (q.fedBy feed) = .ok p' ∧
      ∀ (functions : RowFunctions) (tables tables' : Snapshot), q.Loads feed tables tables' →
        ∀ window, Same ((p'.atWindow window).rows functions tables')
          ((p.atWindow window).rows functions tables) := by
  have hempty : q.Loads feed (fun _ => []) fun _ => [] :=
    ⟨fun _ _ _ => .refl _, fun _ _ _ _ _ => .refl _⟩
  obtain ⟨p', hp', -⟩ := hempty.rows_same (fun _ v => v) hrefuse hp
  refine ⟨p', hp', fun functions tables tables' h window => ?_⟩
  obtain ⟨p'', hp'', hsame⟩ := h.rows_same functions hrefuse hp
  obtain rfl := Except.ok.inj (hp'.symm.trans hp'')
  exact hsame window

end Query

end DeltaView
