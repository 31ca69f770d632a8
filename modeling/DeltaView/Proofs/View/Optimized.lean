import DeltaView.Proofs.Query.Residual
import DeltaView.Proofs.View.History

/-!
# Views of optimized queries

A view of an optimized query shows what a view of the query shows, in whatever batches the changes
of the tables come to either of them.

* `Optimizer.KeepsResults`: what this says of the rows of the plans, and of what comes out of the
  graphs.
* **`optimized_output_same`**: it holds where all conditions can be moved.
* **`residual_output_same`**: it holds for a condition on a collection that an outer join may leave
  absent, if the condition refuses rows without it. `residual_output_differs`: not otherwise.
* **`constants_dropped_same`**: it holds for conditions that depend on no source, which are dropped
  where sources are joined, if these have a value and hold. `constants_dropped_differs`: not
  otherwise, since they are not evaluated.
-/

namespace DeltaView

/-- **The optimizer keeps the results of a query** that has a plan. The optimized query has a view,
its plan has the same rows on all tables and for every window, and the same rows come out of both
graphs, where the tables have the same rows and the same window was asked for. -/
structure Optimizer.KeepsResults (optimizer : Optimizer) (functions : RowFunctions) (q : Query)
    (p : Plan) : Prop where
  view : ∀ objects autocommit, ∃ v, LiveView.ofQuery? functions objects optimizer autocommit q = .ok v
  plan : ∃ p', Plan.ofQuery? (optimizer.optimize q) = .ok p' ∧
    ∀ (tables : Snapshot) (window : Option Window),
      Delta.Same ((p'.atWindow window).rows functions tables)
        ((p.atWindow window).rows functions tables)
  output : ∀ (plain : Optimizer) (g h : History) (window : Option Window),
    plain.isEnabled = false → g.Settled functions plain q window →
    h.Settled functions optimizer q window → p.Regular functions g.snapshots →
    p.Regular functions h.snapshots →
    (∀ name, Delta.Same (h.view.snapshot name).rows (g.view.snapshot name).rows) →
    Delta.Same (Delta.mapItems Row.unordered h.output) (Delta.mapItems Row.unordered g.output)

/-- **A query has a view exactly where what it is optimized to has a plan.** -/
theorem LiveView.exists_ofQuery?_iff (functions : RowFunctions) (objects : Nat → Nat)
    (optimizer : Optimizer) (autocommit : Bool) (q : Query) :
    (∃ v, ofQuery? functions objects optimizer autocommit q = .ok v) ↔
      ∃ p, Plan.ofQuery? (optimizer.optimize q) = .ok p := by
  constructor
  · rintro ⟨v, hv⟩
    obtain ⟨p, hp, -⟩ := bind_eq_ok.mp hv
    exact ⟨p, hp⟩
  · rintro ⟨p, hp⟩
    obtain ⟨v, hv, -⟩ : ∃ v, _ ∧ (History.start v).Holds functions p [] none :=
      History.start_holds functions objects hp autocommit
    exact ⟨v, hv⟩

namespace History

variable {functions : RowFunctions} {p p' : Plan} {plain optimizer : Optimizer} {q q' : Query}
  {g h : History} {window : Option Window}

/-- Settled histories of plans that agree have put out the same rows, if the tables have the same
rows and the same window was asked for last. -/
theorem Settled.same (hagrees : p.Agrees p')
    (hp : Plan.ofQuery? (plain.optimize q) = .ok p)
    (hp' : Plan.ofQuery? (optimizer.optimize q') = .ok p')
    (hg : g.Settled functions plain q window) (hh : h.Settled functions optimizer q' window)
    (hrg : p.Regular functions g.snapshots) (hrh : p.Regular functions h.snapshots)
    (htables : ∀ name, Delta.Same (h.view.snapshot name).rows (g.view.snapshot name).rows) :
    Delta.Same (Delta.mapItems Row.unordered h.output) (Delta.mapItems Row.unordered g.output) := by
  have hshows := (hh.shows hp' (hagrees.regular functions h.snapshots hrh)).1
  refine hshows.trans ((hagrees.same functions _ _).trans ?_)
  exact (Plan.rows_congr functions htables _).trans (hg.shows hp hrg).1.symm

/-- An optimizer that makes a query that agrees with the one it is given keeps its results. -/
theorem keepsResults_of_agrees (functions : RowFunctions)
    (hagrees : q.Agrees (optimizer.optimize q)) (hp : Plan.ofQuery? q = .ok p) :
    optimizer.KeepsResults functions q p := by
  obtain ⟨p', hp', hagrees⟩ := hagrees p hp
  refine ⟨fun objects autocommit => ?_, ⟨p', hp', hagrees.same functions⟩, ?_⟩
  · exact (LiveView.exists_ofQuery?_iff ..).mpr ⟨p', hp'⟩
  · intro plain g h window hplain hg hh hrg hrh htables
    have hsame := Optimizer.optimize_of_disabled hplain q
    exact hg.same hagrees (hsame.symm ▸ hp) hp' hh hrg hrh htables

/-- **An optimized query has a view where the query has one, and the same rows come out of both.**
The rows of the plans are the same on all tables and for every window. -/
theorem optimized_output_same (functions : RowFunctions) (optimizer : Optimizer)
    (hq : Query.Pushable q) (hp : Plan.ofQuery? q = .ok p) :
    optimizer.KeepsResults functions q p :=
  keepsResults_of_agrees functions (optimizer.optimize_agrees hq) hp

/-- Users with the posts that have a text, by a left join: a post without one is left out before
the join or after it. -/
theorem optimized_output_of_left_join :
    let functions : RowFunctions := fun _ v => v
    let q : Query :=
      { source := .collection "users" "u"
        joins := [⟨.left, .collection "posts" "p", .ref ["u", "id"], .ref ["p", "author"]⟩]
        filters := [⟨.ref ["p", "text"], false⟩] }
    ∃ p, ∃ g h : History, Query.Pushable q ∧ Plan.ofQuery? q = .ok p ∧
      g.Settled functions ⟨false, 10, 32⟩ q none ∧ h.Settled functions ⟨true, 10, 32⟩ q none ∧
      p.Regular functions g.snapshots ∧ p.Regular functions h.snapshots ∧
      (∀ name, Delta.Same (h.view.snapshot name).rows (g.view.snapshot name).rows) ∧
      Delta.Same (Delta.mapItems Row.unordered h.output)
        (Delta.mapItems Row.unordered g.output) := by
  intro functions q
  let user : Value := .object [("id", .int 1)]
  let post (text : Value) : Value := .object [("author", .int 1), ("text", text)]
  let ops : List Operation := [.apply "users" ⟨.insert, .int 1, user, none⟩,
    .apply "posts" ⟨.insert, .int 2, post (.string "a"), none⟩]
  let last : Operation := .apply "posts" ⟨.insert, .int 3, post .null, none⟩
  let tables : Table String (Table Value Value) := [("users", [(.int 1, user)]),
    ("posts", [(.int 2, post (.string "a")), (.int 3, post .null)])]
  have hplan : Plan.ofQuery? q = .ok (.output (.project .whole (.filter (.ref ["p", "text"])
      (.join .left (.ref ["u", "id"]) (.ref ["p", "author"]) (.named "u" (.scan "users"))
        (.named "p" (.scan "posts")))))) := by decide +kernel
  have hdemands : ∀ c ∈ q.demands, c = .ref ["p", "text"] := by decide
  have hhere : q.PushableHere := by
    refine ⟨by decide, by decide, fun _ hselect => absurd hselect (by simp [q]), fun c hc => ?_,
      fun c hc a ha row hrow => ?_⟩
    · exact ⟨"p", by rw [hdemands c hc]; decide, by decide⟩
    · obtain rfl := hdemands c hc
      have hscope : (Expr.ref ["p", "text"]).scope = .single "p" := by decide
      obtain rfl := Scope.single.inj (hscope.symm.trans ha)
      exact Expr.holds_ref_of_absent ["text"] hrow
  have hpushable : Query.Pushable q :=
    Query.pushable_iff.mpr ⟨hhere, List.forall_mem_cons.mpr
      ⟨trivial, List.forall_mem_cons.mpr ⟨trivial, List.forall_mem_nil _⟩⟩⟩
  obtain ⟨g, hg, htables⟩ : ∃ g : History, g.Settled functions ⟨false, 10, 32⟩ q none ∧
      g.view.tables = tables :=
    exists_settled (show (settled? functions id ⟨false, 10, 32⟩ true q ops last).map _ = _ by
      decide +kernel)
  obtain ⟨h, hh, htables'⟩ : ∃ h : History, h.Settled functions ⟨true, 10, 32⟩ q none ∧
      h.view.tables = tables :=
    exists_settled (show (settled? functions id ⟨true, 10, 32⟩ true q ops last).map _ = _ by
      decide +kernel)
  have hsnapshot : ∀ name, Delta.Same (h.view.snapshot name).rows (g.view.snapshot name).rows := by
    intro name
    unfold LiveView.snapshot
    rw [htables, htables']
  exact ⟨_, g, h, hpushable, hplan, hg, hh, ⟨trivial, trivial⟩, ⟨trivial, trivial⟩, hsnapshot,
    (optimized_output_same functions ⟨true, 10, 32⟩ hpushable hplan).output ⟨false, 10, 32⟩ g h none
      rfl hg hh ⟨trivial, trivial⟩ ⟨trivial, trivial⟩ hsnapshot⟩

/-! ## Conditions that are tested twice -/

/-- **A condition on a collection that an outer join may leave absent**, which refuses all rows
without it, is tested before the join and once more after it without a change of the results. -/
theorem residual_output_same (functions : RowFunctions) (optimizer : Optimizer)
    {m n a b label : String} {kind : JoinKind} {left right condition : Expr}
    (hsource : q.source = .collection m a)
    (hjoins : q.joins = [⟨kind, .collection n b, left, right⟩])
    (hfilters : q.filters = [⟨condition, false⟩]) (hnullable : label ∈ q.nullableLabels)
    (hreads : ∀ c ∈ condition.conjuncts,
      c.scope = .single label ∨ (c.scope = .constant ∧ ∀ row, c.holds row = true))
    (hrefuses : ∀ row : Value, row.field? label = none → condition.holds row = false)
    (hp : Plan.ofQuery? q = .ok p) : optimizer.KeepsResults functions q p := by
  have hfresh : q.fresh = condition.conjuncts := by
    unfold Level.fresh
    rw [hfilters]
    exact List.append_nil _
  have hdemands : q.demands = condition.conjuncts := by
    unfold Level.demands
    rw [hfilters]
    exact List.append_nil _
  have hjoined : q.joins ≠ [] := by
    rw [hjoins]
    exact List.cons_ne_nil _ _
  obtain ⟨hdistinct, hnamed⟩ := Plan.ofQuery?_labels hp
  have hsingle : q.OfSingleConditions := by
    refine ⟨?_, hjoined, ?_, fun c hc => ?_⟩
    · unfold Level.sources
      rw [hsource, hjoins]
      exact List.forall_mem_cons.mpr ⟨rfl, List.forall_mem_singleton.mpr rfl⟩
    · rw [hfilters]
      exact List.forall_mem_singleton.mpr rfl
    · refine (hreads c (hdemands ▸ hc)).imp (fun hscope => ⟨label, ?_, hscope⟩) And.left
      rw [Level.labels_eq]
      exact Level.nullableFrom_subset hnullable
  have hmovable : q.MovableHere := by
    refine ⟨hnamed hjoined, hdistinct, fun c hc hscope => ?_, ?_⟩
    · rcases hreads c (hfresh ▸ hc) with hlabel | ⟨-, hholds⟩
      · exact absurd (hlabel.symm.trans hscope) (by simp)
      · exact hholds
    · rintro a - ⟨c, hc, hscope⟩ row hrow
      rw [hfresh] at hc ⊢
      obtain rfl : label = a := by
        rcases hreads c hc with hlabel | ⟨hconstant, -⟩
        · exact Scope.single.inj (hlabel.symm.trans hscope)
        · exact absurd (hconstant.symm.trans hscope) (by simp)
      -- What refuses the row is a conjunct on the source, since constants hold.
      have hfalse := hrefuses row hrow
      rw [Expr.holds_eq_all, List.all_eq_false] at hfalse
      obtain ⟨d, hd, hrefused⟩ := hfalse
      refine List.all_eq_false.mpr ⟨d, Expr.mem_conditionsOn.mpr ⟨hd, ?_⟩, hrefused⟩
      exact (hreads d hd).resolve_right fun hconstant => hrefused (hconstant.2 row)
  exact keepsResults_of_agrees functions (optimizer.optimize_agrees_of_single hsingle hmovable) hp

/-- Users with their posts that have a text and no team, by a left join: only one of the conjuncts
refuses a row without a post. -/
theorem residual_output_of_two_conjuncts :
    let functions : RowFunctions := fun _ v => v
    let condition : Expr := .and [.call "isNull" [.ref ["p", "team"]], .ref ["p", "text"]]
    let q : Query :=
      { source := .collection "users" "u"
        joins := [⟨.left, .collection "posts" "p", .ref ["u", "id"], .ref ["p", "author"]⟩]
        filters := [⟨condition, false⟩] }
    "p" ∈ q.nullableLabels ∧ (∀ c ∈ condition.conjuncts, c.scope = .single "p") ∧
      (∀ row : Value, row.field? "p" = none → condition.holds row = false) ∧
      ∃ p, Plan.ofQuery? q = .ok p ∧ Optimizer.KeepsResults ⟨true, 10, 32⟩ functions q p := by
  intro functions condition q
  have hplan : Plan.ofQuery? q = .ok (.output (.project .whole (.filter condition
      (.join .left (.ref ["u", "id"]) (.ref ["p", "author"]) (.named "u" (.scan "users"))
        (.named "p" (.scan "posts")))))) := by decide +kernel
  have hnullable : "p" ∈ q.nullableLabels := by decide
  have hscope : ∀ c ∈ condition.conjuncts, c.scope = .single "p" := by decide
  have hrefuses : ∀ row : Value, row.field? "p" = none → condition.holds row = false := by
    intro row hrow
    rw [Expr.holds_eq_all]
    refine List.all_eq_false.mpr ⟨.ref ["p", "text"], by decide, ?_⟩
    rw [Expr.holds_ref_of_absent ["text"] hrow]
    exact Bool.false_ne_true
  exact ⟨hnullable, hscope, hrefuses, _, hplan, residual_output_same functions ⟨true, 10, 32⟩ rfl
    rfl rfl hnullable (fun c hc => Or.inl (hscope c hc)) hrefuses hplan⟩

/-- **A condition that accepts rows without the collection** is another matter. A user's post that
has a team is refused before the join, which leaves the user without a post. -/
theorem residual_output_differs :
    let functions : RowFunctions := fun _ v => v
    let condition : Expr := .call "isNull" [.ref ["p", "team"]]
    let q : Query :=
      { source := .collection "users" "u"
        joins := [⟨.left, .collection "posts" "p", .ref ["u", "id"], .ref ["p", "author"]⟩]
        filters := [⟨condition, false⟩] }
    "p" ∈ q.nullableLabels ∧ (∀ c ∈ condition.conjuncts, c.scope = .single "p") ∧
      ∃ p, ∃ g h : History, Plan.ofQuery? q = .ok p ∧
        g.Settled functions ⟨false, 10, 32⟩ q none ∧ h.Settled functions ⟨true, 10, 32⟩ q none ∧
        p.Regular functions g.snapshots ∧ p.Regular functions h.snapshots ∧
        (∀ name, Delta.Same (h.view.snapshot name).rows (g.view.snapshot name).rows) ∧
        ¬ Delta.Same (Delta.mapItems Row.unordered h.output)
          (Delta.mapItems Row.unordered g.output) := by
  intro functions condition q
  let user : Value := .object [("id", .int 1)]
  let post : Value := .object [("author", .int 1), ("team", .string "a")]
  let ops : List Operation := [.apply "users" ⟨.insert, .int 1, user, none⟩]
  let last : Operation := .apply "posts" ⟨.insert, .int 2, post, none⟩
  let tables : Table String (Table Value Value) :=
    [("users", [(.int 1, user)]), ("posts", [(.int 2, post)])]
  let alone : Row :=
    { key := .joined (some (.plain (.int 1))) none, value := .object [("u", user)] }
  have hplan : Plan.ofQuery? q = .ok (.output (.project .whole (.filter condition
      (.join .left (.ref ["u", "id"]) (.ref ["p", "author"]) (.named "u" (.scan "users"))
        (.named "p" (.scan "posts")))))) := by decide +kernel
  obtain ⟨g, hg, heq⟩ : ∃ g : History, g.Settled functions ⟨false, 10, 32⟩ q none ∧
      (g.view.tables, Delta.total alone (Delta.mapItems Row.unordered g.output)) = (tables, 0) :=
    exists_settled (show (settled? functions id ⟨false, 10, 32⟩ true q ops last).map _ = _ by
      decide +kernel)
  obtain ⟨h, hh, heq'⟩ : ∃ h : History, h.Settled functions ⟨true, 10, 32⟩ q none ∧
      (h.view.tables, Delta.total alone (Delta.mapItems Row.unordered h.output)) = (tables, 1) :=
    exists_settled (show (settled? functions id ⟨true, 10, 32⟩ true q ops last).map _ = _ by
      decide +kernel)
  obtain ⟨htables, hnone⟩ := Prod.mk.inj heq
  obtain ⟨htables', hone⟩ := Prod.mk.inj heq'
  refine ⟨by decide, by decide, _, g, h, hplan, hg, hh, ⟨trivial, trivial⟩, ⟨trivial, trivial⟩,
    fun name => ?_, fun hsame => ?_⟩
  · unfold LiveView.snapshot
    rw [htables, htables']
  · have := hsame alone
    rw [hnone, hone] at this
    exact absurd this (by decide)

/-! ## Conditions that are dropped -/

/-- **A query that can be optimized has a view exactly where it has one unoptimized**, and both show
the same results, whatever conditions without a source it has. What can be optimized drops only
such conditions that have a value and hold. Of inner joins no more is asked than this, and that the
SELECT of a subquery gives the name of a field that it passes on to no other one
(`Query.optimizable_of_inner`). -/
theorem constants_dropped_same (functions : RowFunctions) (objects objects' : Nat → Nat)
    (optimizer : Optimizer) (autocommit : Bool) (hplain : plain.isEnabled = false)
    (hq : Query.Optimizable q) :
    ((∃ v, LiveView.ofQuery? functions objects optimizer autocommit q = .ok v) ↔
      ∃ v, LiveView.ofQuery? functions objects' plain autocommit q = .ok v) ∧
      ∀ p, Plan.ofQuery? q = .ok p → optimizer.KeepsResults functions q p := by
  have hmatches := optimizer.optimize_matches hq
  constructor
  · rw [LiveView.exists_ofQuery?_iff, LiveView.exists_ofQuery?_iff,
      Optimizer.optimize_of_disabled hplain]
    exact hmatches.plan_iff
  · intro p hp
    exact keepsResults_of_agrees functions hmatches.agrees hp

/-- Users with their posts that have a text, and under a condition that is always true. -/
theorem constants_dropped_of_inner_join :
    let functions : RowFunctions := fun _ v => v
    let q : Query :=
      { source := .collection "users" "u"
        joins := [⟨.inner, .collection "posts" "p", .ref ["u", "id"], .ref ["p", "author"]⟩]
        filters := [⟨.and [.eq (.literal (.int 1)) (.literal (.int 1)), .ref ["p", "text"]],
          false⟩] }
    Query.Optimizable q ∧
      (∃ v, LiveView.ofQuery? functions id ⟨true, 10, 32⟩ true q = .ok v) ∧
      ∃ p, Plan.ofQuery? q = .ok p ∧ Optimizer.KeepsResults ⟨true, 10, 32⟩ functions q p := by
  intro functions q
  have hplan : Plan.ofQuery? q = .ok (.output (.project .whole (.filter
      (.and [.eq (.literal (.int 1)) (.literal (.int 1)), .ref ["p", "text"]])
      (.join .inner (.ref ["u", "id"]) (.ref ["p", "author"]) (.named "u" (.scan "users"))
        (.named "p" (.scan "posts")))))) := by decide +kernel
  have hq : Query.Optimizable q := by
    refine Query.optimizable_of_inner (Query.everyLevel_iff.mpr ⟨⟨?_, ?_, fun _ => ?_⟩, ?_⟩)
    · exact List.forall_mem_singleton.mpr rfl
    · exact List.forall_mem_cons.mpr ⟨trivial, List.forall_mem_singleton.mpr trivial⟩
    · decide +kernel
    · exact List.forall_mem_cons.mpr ⟨trivial, List.forall_mem_singleton.mpr trivial⟩
  obtain ⟨hviews, hkeeps⟩ := constants_dropped_same functions id id ⟨true, 10, 32⟩ true
    (show Optimizer.isEnabled ⟨false, 10, 32⟩ = false from rfl) hq
  refine ⟨hq, hviews.mpr ?_, _, hplan, hkeeps _ hplan⟩
  exact (LiveView.exists_ofQuery?_iff ..).mpr ⟨_, hplan⟩

/-- **A condition that is dropped may be one that refuses every row**: a user's post is shown, and
unoptimized it is not. It may also have no value: such a query has a view only if it is optimized. -/
theorem constants_dropped_differs :
    let functions : RowFunctions := fun _ v => v
    let q : Expr → Query := fun condition =>
      { source := .collection "users" "u"
        joins := [⟨.inner, .collection "posts" "p", .ref ["u", "id"], .ref ["p", "author"]⟩]
        filters := [⟨condition, false⟩] }
    let never : Expr := .eq (.literal (.int 1)) (.literal (.int 2))
    (∃ p, ∃ g h : History, Plan.ofQuery? (q never) = .ok p ∧
      g.Settled functions ⟨false, 10, 32⟩ (q never) none ∧
      h.Settled functions ⟨true, 10, 32⟩ (q never) none ∧
      p.Regular functions g.snapshots ∧ p.Regular functions h.snapshots ∧
      (∀ name, Delta.Same (h.view.snapshot name).rows (g.view.snapshot name).rows) ∧
      ¬ Delta.Same (Delta.mapItems Row.unordered h.output)
        (Delta.mapItems Row.unordered g.output)) ∧
      (∃ v, LiveView.ofQuery? functions id ⟨true, 10, 32⟩ true (q (.call "bogus" [])) = .ok v) ∧
      ¬ ∃ v, LiveView.ofQuery? functions id ⟨false, 10, 32⟩ true (q (.call "bogus" [])) = .ok v := by
  intro functions q never
  let user : Value := .object [("id", .int 1)]
  let post : Value := .object [("author", .int 1)]
  let ops : List Operation := [.apply "users" ⟨.insert, .int 1, user, none⟩]
  let last : Operation := .apply "posts" ⟨.insert, .int 2, post, none⟩
  let tables : Table String (Table Value Value) :=
    [("users", [(.int 1, user)]), ("posts", [(.int 2, post)])]
  let both : Row :=
    { key := .joined (some (.plain (.int 1))) (some (.plain (.int 2)))
      value := .object [("p", post), ("u", user)] }
  have hplan : Plan.ofQuery? (q never) = .ok (.output (.project .whole (.filter never
      (.join .inner (.ref ["u", "id"]) (.ref ["p", "author"]) (.named "u" (.scan "users"))
        (.named "p" (.scan "posts")))))) := by decide +kernel
  have hbogus : Plan.ofQuery? (Optimizer.optimize ⟨true, 10, 32⟩ (q (.call "bogus" []))) =
      .ok (.output (.project .whole (.join .inner (.ref ["u", "id"]) (.ref ["p", "author"])
        (.named "u" (.scan "users")) (.named "p" (.scan "posts"))))) := by decide +kernel
  have hbogus' : Plan.ofQuery? (q (.call "bogus" [])) = .error (.unsupportedFunction "bogus") := by
    decide +kernel
  obtain ⟨g, hg, heq⟩ : ∃ g : History, g.Settled functions ⟨false, 10, 32⟩ (q never) none ∧
      (g.view.tables, Delta.total both (Delta.mapItems Row.unordered g.output)) = (tables, 0) :=
    exists_settled (show (settled? functions id ⟨false, 10, 32⟩ true (q never) ops last).map _ = _ by
      decide +kernel)
  obtain ⟨h, hh, heq'⟩ : ∃ h : History, h.Settled functions ⟨true, 10, 32⟩ (q never) none ∧
      (h.view.tables, Delta.total both (Delta.mapItems Row.unordered h.output)) = (tables, 1) :=
    exists_settled (show (settled? functions id ⟨true, 10, 32⟩ true (q never) ops last).map _ = _ by
      decide +kernel)
  obtain ⟨htables, hnone⟩ := Prod.mk.inj heq
  obtain ⟨htables', hone⟩ := Prod.mk.inj heq'
  refine ⟨⟨_, g, h, hplan, hg, hh, ⟨trivial, trivial⟩, ⟨trivial, trivial⟩, fun name => ?_,
    fun hsame => ?_⟩, ?_, ?_⟩
  · unfold LiveView.snapshot
    rw [htables, htables']
  · have := hsame both
    rw [hnone, hone] at this
    exact absurd this (by decide)
  · exact (LiveView.exists_ofQuery?_iff ..).mpr ⟨_, hbogus⟩
  · rw [LiveView.exists_ofQuery?_iff, Optimizer.optimize_of_disabled rfl, hbogus']
    rintro ⟨p, hp⟩
    exact absurd hp (by simp)

end History

end DeltaView
