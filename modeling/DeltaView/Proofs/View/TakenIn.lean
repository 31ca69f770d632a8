import DeltaView.Proofs.Query.Pushdown
import DeltaView.Proofs.View.Optimized

/-!
# Views of subqueries that take a condition in

A condition on the rows of a subquery may be tested on the rows that the subquery reads, if
`Level.takesIn` says so. This module compares the two as views: the rows of the subquery, filtered
where they are read, and the subquery with the condition put to its own.

* `Level.filteredRows`: the query that filters the rows of a subquery. `ofQuery?_filteredRows` is its
  plan.
* **`taken_in_same`**: both have a view or none has one, and both show the same rows under the same
  keys, if SELECT gives the names of the fields that the condition reads to these fields last.
* `taken_in_differs`: not otherwise, although the subquery takes the condition in.
-/

namespace DeltaView

/-- The rows of a subquery under a label that satisfy a condition. -/
def Level.filteredRows (q : Query) (label : String) (condition : Expr) : Query :=
  (Level.ofSource (.subquery q label)).withFilter condition

namespace Plan

variable {q : Query} {label : String} {condition : Expr}

/-- The rows of a subquery have a plan with a condition on them where the subquery has a plan and the
condition a value. -/
theorem ofQuery?_filteredRows (hreads : ∀ a ∈ condition.labels, a = label) {filtered : Plan} :
    ofQuery? (q.filteredRows label condition) = .ok filtered ↔
      ∃ p, ofQuery? q = .ok p ∧ condition.check = .ok () ∧
        filtered = .output (.project (.source label) (.filter condition (.named label p))) := by
  have hlabels : (q.filteredRows label condition).checkLabels [label] = .ok () := by
    refine Level.checkLabels_eq_ok.mpr fun e he a ha => Or.inr ?_
    obtain rfl : e = condition := List.mem_singleton.mp he
    exact List.mem_singleton.mpr (hreads a ha)
  have hchecks : Expr.checkAll ((q.filteredRows label condition).filters.map (·.expr)) = .ok () ↔
      condition.check = .ok () :=
    Expr.checkAll_eq_ok_iff.trans List.forall_mem_singleton
  have hfinish : ∀ rows, (q.filteredRows label condition).finish? rows =
      .ok (.output (.project (.source label) rows)) := fun _ => rfl
  constructor
  · intro h
    obtain ⟨-, named, rows, hnamed, hrows, hplan⟩ := ofQuery?_eq_ok.mp h
    obtain ⟨p, hp, rfl⟩ := map_eq_ok.mp hnamed
    obtain rfl := Except.ok.inj hrows
    obtain ⟨-, hcheck, hplan⟩ := Level.plan?_eq_ok.mp hplan
    rw [hfinish] at hplan
    exact ⟨p, hp, hchecks.mp hcheck, (Except.ok.inj hplan).symm⟩
  · rintro ⟨p, hp, hcheck, rfl⟩
    exact ofQuery?_eq_ok.mpr ⟨rfl, _, _, map_eq_ok.mpr ⟨p, hp, rfl⟩, rfl,
      Level.plan?_eq_ok.mpr ⟨hlabels, hchecks.mpr hcheck, hfinish _⟩⟩

/-- What is left of a row that was named, filtered and selected again. -/
theorem rows_filteredRows (functions : RowFunctions) (tables : Snapshot) {p p' : Plan}
    (h : Delta.Same ((Plan.named label p').rows functions tables)
      (Delta.filterItems (fun r => condition.holds r.value)
        ((Plan.named label p).rows functions tables))) :
    Delta.Same (p'.rows functions tables)
      ((Plan.output (.project (.source label) (.filter condition (.named label p)))).rows functions
        tables) := by
  have hback : Delta.mapItems Row.selected (Delta.mapItems (withProjection functions (.source label))
      (Delta.mapItems (Row.named label) (p'.rows functions tables))) =
      Delta.mapItems Row.unordered (p'.rows functions tables) := by
    rw [Delta.mapItems_mapItems, Delta.mapItems_mapItems]
    exact Delta.mapItems_congr fun e _ => Row.selected_named functions label e.1
  refine (p'.rows_unordered functions tables).symm.trans ?_
  rw [← hback]
  exact (h.mapItems _).mapItems _

end Plan

namespace History

variable {functions : RowFunctions} {plain : Optimizer} {q : Query} {label : String}
  {condition : Expr}

/-- **Testing a condition on the rows that a subquery outputs, or on those that it reads**, is the
same, if the subquery takes the condition in and passes on the fields that the condition reads. Both
have a view or none has one. The rows of the plans are the same on all tables, and the same rows come
out of the graphs, where the tables have the same rows. -/
theorem taken_in_same (functions : RowFunctions) (objects objects' : Nat → Nat) (autocommit : Bool)
    (hplain : plain.isEnabled = false) (ht : q.takesIn label condition = true)
    (hreads : ∀ a ∈ condition.labels, a = label) (hpasses : q.PassesOn condition) :
    let outside := q.filteredRows label condition
    let inside := q.withFilter condition
    ((∃ v, LiveView.ofQuery? functions objects plain autocommit inside = .ok v) ↔
      ∃ v, LiveView.ofQuery? functions objects' plain autocommit outside = .ok v) ∧
    (∀ p, Plan.ofQuery? q = .ok p → condition.check = .ok () →
      ∃ p', Plan.ofQuery? inside = .ok p' ∧ ∀ tables : Snapshot,
        Delta.Same ((Plan.named label p').rows functions tables)
          (Delta.filterItems (fun r => condition.holds r.value)
            ((Plan.named label p).rows functions tables))) ∧
    ∀ p, Plan.ofQuery? outside = .ok p → ∀ g h : History, g.Settled functions plain outside none →
      h.Settled functions plain inside none → p.Regular functions g.snapshots →
      p.Regular functions h.snapshots →
      (∀ name, Delta.Same (h.view.snapshot name).rows (g.view.snapshot name).rows) →
      Delta.Same (Delta.mapItems Row.unordered h.output) (Delta.mapItems Row.unordered g.output) := by
  intro outside inside
  have hinside : ∀ p, Plan.ofQuery? q = .ok p → condition.check = .ok () →
      ∃ p', Plan.ofQuery? inside = .ok p' ∧
        (Plan.named label p).Applies condition.holds (.named label p') := fun p hp hcheck => by
    have happlies := Level.withFilter_applies ht hreads hcheck hpasses
    obtain ⟨named, hnamed, happlies⟩ := happlies.rows _ (map_eq_ok.mpr ⟨p, hp, rfl⟩)
    obtain ⟨p', hp', rfl⟩ := map_eq_ok.mp hnamed
    exact ⟨p', hp', happlies⟩
  refine ⟨?_, fun p hp hcheck => ?_, ?_⟩
  · rw [LiveView.exists_ofQuery?_iff, LiveView.exists_ofQuery?_iff,
      Optimizer.optimize_of_disabled hplain, Optimizer.optimize_of_disabled hplain]
    constructor
    · rintro ⟨p', hp'⟩
      obtain ⟨p, hp⟩ := Level.withFilter_plansAs q condition p' hp'
      have hfiltered : (Source.subquery q label).filtered? condition =
          some (.subquery inside label) := if_pos ht
      have hcheck := Source.check_of_filtered? hfiltered (map_eq_ok.mpr ⟨p', hp', rfl⟩)
      exact ⟨_, (Plan.ofQuery?_filteredRows hreads).mpr ⟨p, hp, hcheck, rfl⟩⟩
    · rintro ⟨filtered, hfiltered⟩
      obtain ⟨p, hp, hcheck, rfl⟩ := (Plan.ofQuery?_filteredRows hreads).mp hfiltered
      obtain ⟨p', hp', -⟩ := hinside p hp hcheck
      exact ⟨p', hp'⟩
  · obtain ⟨p', hp', happlies⟩ := hinside p hp hcheck
    exact ⟨p', hp', happlies.same functions⟩
  · intro filtered hfiltered g h hg hh hrg hrh htables
    obtain ⟨p, hp, hcheck, rfl⟩ := (Plan.ofQuery?_filteredRows hreads).mp hfiltered
    obtain ⟨p', hp', happlies⟩ := hinside p hp hcheck
    have hplan : ∀ q : Query, plain.optimize q = q := Optimizer.optimize_of_disabled hplain
    have hregular : p'.Regular functions h.snapshots := happlies.regular functions h.snapshots hrh
    have hh := (hh.shows ((hplan inside).symm ▸ hp') hregular).1
    have hg := (hg.shows ((hplan outside).symm ▸ hfiltered) hrg).1
    rw [Plan.atWindow_none] at hh hg
    refine hh.trans (.trans ?_ hg.symm)
    exact (Plan.rows_filteredRows functions _ (happlies.same functions _)).trans
      (Plan.rows_congr functions htables _)

/-- Users with their posts, of which a field of the user goes out under a name that was given to
another one before. -/
theorem taken_in_same_of_join :
    let functions : RowFunctions := fun _ v => v
    let condition : Expr := .ref ["u", "x"]
    let q : Query :=
      { source := .collection "users" "u"
        select := some [⟨"x", .ref ["p", "text"]⟩, ⟨"x", .ref ["u", "x"]⟩]
        joins := [⟨.inner, .collection "posts" "p", .ref ["u", "id"], .ref ["p", "author"]⟩] }
    q.takesIn "u" condition = true ∧ q.PassesOn condition ∧
      ∃ p, ∃ g h : History, Plan.ofQuery? (q.filteredRows "u" condition) = .ok p ∧
        g.Settled functions ⟨false, 10, 32⟩ (q.filteredRows "u" condition) none ∧
        h.Settled functions ⟨false, 10, 32⟩ (q.withFilter condition) none ∧
        p.Regular functions g.snapshots ∧ p.Regular functions h.snapshots ∧
        (∀ name, Delta.Same (h.view.snapshot name).rows (g.view.snapshot name).rows) ∧
        Delta.Same (Delta.mapItems Row.unordered h.output)
          (Delta.mapItems Row.unordered g.output) := by
  intro functions condition q
  let user (id x : Int64) : Value := .object [("id", .int id), ("x", .int x)]
  let post (author : Int64) : Value := .object [("author", .int author), ("text", .string "a")]
  let ops : List Operation := [.apply "users" ⟨.insert, .int 1, user 1 5, none⟩,
    .apply "users" ⟨.insert, .int 2, user 2 0, none⟩,
    .apply "posts" ⟨.insert, .int 3, post 1, none⟩]
  let last : Operation := .apply "posts" ⟨.insert, .int 4, post 2, none⟩
  let tables : Table String (Table Value Value) :=
    [("users", [(.int 1, user 1 5), (.int 2, user 2 0)]),
      ("posts", [(.int 3, post 1), (.int 4, post 2)])]
  have hplan : Plan.ofQuery? (q.filteredRows "u" condition) =
      .ok (.output (.project (.source "u") (.filter condition (.named "u"
        (.output (.project (.fields [⟨"x", .ref ["p", "text"]⟩, ⟨"x", .ref ["u", "x"]⟩])
          (.join .inner (.ref ["u", "id"]) (.ref ["p", "author"]) (.named "u" (.scan "users"))
            (.named "p" (.scan "posts"))))))))) := by decide +kernel
  have ht : q.takesIn "u" condition = true := by decide
  have hreads : ∀ a ∈ condition.labels, a = "u" := by decide
  have hpasses : q.PassesOn condition := by
    intro fields hselect n rest hpath
    obtain rfl := Option.some.inj hselect
    have hpath : "u" :: n :: rest = ["u", "x"] := List.mem_singleton.mp hpath
    simp only [List.cons.injEq, true_and] at hpath
    obtain ⟨rfl, -⟩ := hpath
    decide
  obtain ⟨g, hg, htables⟩ : ∃ g : History,
      g.Settled functions ⟨false, 10, 32⟩ (q.filteredRows "u" condition) none ∧
      g.view.tables = tables :=
    exists_settled (show (settled? functions id ⟨false, 10, 32⟩ true (q.filteredRows "u" condition) ops
      last).map _ = _ by decide +kernel)
  obtain ⟨h, hh, htables'⟩ : ∃ h : History,
      h.Settled functions ⟨false, 10, 32⟩ (q.withFilter condition) none ∧ h.view.tables = tables :=
    exists_settled (show (settled? functions id ⟨false, 10, 32⟩ true (q.withFilter condition) ops
      last).map _ = _ by decide +kernel)
  have hsnapshot : ∀ name, Delta.Same (h.view.snapshot name).rows (g.view.snapshot name).rows := by
    intro name
    unfold LiveView.snapshot
    rw [htables, htables']
  refine ⟨ht, hpasses, _, g, h, hplan, hg, hh, ⟨trivial, trivial⟩, ⟨trivial, trivial⟩, hsnapshot, ?_⟩
  obtain ⟨-, -, houtput⟩ := taken_in_same functions id id true
    (show Optimizer.isEnabled ⟨false, 10, 32⟩ = false from rfl) ht hreads hpasses
  exact houtput _ hplan g h hg hh ⟨trivial, trivial⟩ ⟨trivial, trivial⟩ hsnapshot

/-- **A field that goes out under its own name may be replaced by another one of that name**: a user
satisfies the condition, but the row that the subquery makes of the user does not. -/
theorem taken_in_differs :
    let functions : RowFunctions := fun _ v => v
    let condition : Expr := .ref ["u", "x"]
    let q : Query :=
      { source := .collection "users" "u"
        select := some [⟨"x", .ref ["u", "x"]⟩, ⟨"x", .literal (.int 0)⟩] }
    q.takesIn "u" condition = true ∧ (∀ a ∈ condition.labels, a = "u") ∧
      ∃ p, ∃ g h : History, Plan.ofQuery? (q.filteredRows "u" condition) = .ok p ∧
        g.Settled functions ⟨false, 10, 32⟩ (q.filteredRows "u" condition) none ∧
        h.Settled functions ⟨false, 10, 32⟩ (q.withFilter condition) none ∧
        p.Regular functions g.snapshots ∧ p.Regular functions h.snapshots ∧
        (∀ name, Delta.Same (h.view.snapshot name).rows (g.view.snapshot name).rows) ∧
        ¬ Delta.Same (Delta.mapItems Row.unordered h.output)
          (Delta.mapItems Row.unordered g.output) := by
  intro functions condition q
  let user : Value := .object [("x", .int 1)]
  let last : Operation := .apply "users" ⟨.insert, .int 1, user, none⟩
  let tables : Table String (Table Value Value) := [("users", [(.int 1, user)])]
  let row : Row := { key := .plain (.int 1), value := .object [("x", .int 0)] }
  have hplan : Plan.ofQuery? (q.filteredRows "u" condition) =
      .ok (.output (.project (.source "u") (.filter condition (.named "u"
        (.output (.project (.fields [⟨"x", .ref ["u", "x"]⟩, ⟨"x", .literal (.int 0)⟩])
          (.named "u" (.scan "users")))))))) := by decide +kernel
  obtain ⟨g, hg, heq⟩ : ∃ g : History,
      g.Settled functions ⟨false, 10, 32⟩ (q.filteredRows "u" condition) none ∧
      (g.view.tables, Delta.total row (Delta.mapItems Row.unordered g.output)) = (tables, 0) :=
    exists_settled (show (settled? functions id ⟨false, 10, 32⟩ true (q.filteredRows "u" condition) []
      last).map _ = _ by decide +kernel)
  obtain ⟨h, hh, heq'⟩ : ∃ h : History,
      h.Settled functions ⟨false, 10, 32⟩ (q.withFilter condition) none ∧
      (h.view.tables, Delta.total row (Delta.mapItems Row.unordered h.output)) = (tables, 1) :=
    exists_settled (show (settled? functions id ⟨false, 10, 32⟩ true (q.withFilter condition) []
      last).map _ = _ by decide +kernel)
  obtain ⟨htables, hnone⟩ := Prod.mk.inj heq
  obtain ⟨htables', hone⟩ := Prod.mk.inj heq'
  refine ⟨by decide, by decide, _, g, h, hplan, hg, hh, trivial, trivial, fun name => ?_,
    fun hsame => ?_⟩
  · unfold LiveView.snapshot
    rw [htables, htables']
  · have := hsame row
    rw [hnone, hone] at this
    exact absurd this (by decide)

end History

end DeltaView
