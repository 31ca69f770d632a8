import DeltaView.Proofs.Query.Collapse
import DeltaView.Proofs.Query.Convergence

/-!
# Optimizing once more

The collapse comes after all passes, so what it leaves may give another pass something to do. It
does so in two ways. A subquery that only renames its source refuses conditions, since these go by
the name that it gives; without it they can be moved. And levels below the reach of the passes come
within it when a level above them is dropped. Apart from this, optimizing once more changes nothing.

* `Level.ReadsPlainly`: no joined source is a subquery that only renames its source.
* `Source.height`: how many levels a source has, or may get, one below the other.
* `everyLevel_pass`, `height_pass`: passes keep what is asked of all levels, and the height.
* **`pushDown_collapse`**: the collapse gives passes that reach all levels nothing to do.
* **`optimize_optimize`**, `optimize_optimize_differs`: when optimizing once more changes nothing.
-/

namespace DeltaView

/-! ## What a pass makes of sources -/

namespace Query

variable {q : Query} {depth : Nat}

/-- What a pass makes of a source it also makes of one that takes a condition, at a level with
joins. -/
theorem forall_sources_pass {kept : Source → Prop}
    (hpush : ∀ s ∈ q.sources, kept (s.pushDown depth))
    (htake : q.joins ≠ [] → ∀ s es, kept s → kept (s.takeCondition es)) :
    ∀ t ∈ (pass depth q).sources, kept t := by
  rw [pass_eq]
  by_cases hj : q.joins = []
  · rw [Level.pushDown_of_single ((Level.joins_reviseBy_eq_nil q _ _).mpr hj),
      Level.joinFilters_eq_reviseBy, Level.sources_reviseBy, List.map_id', Level.sources_reviseBy,
      List.forall_mem_map]
    exact hpush
  · rw [Level.pushDown_of_joins ((not_congr (Level.joins_reviseBy_eq_nil q _ _)).mpr hj),
      Level.moveFilters_eq, Level.sources_reviseBy, List.forall_mem_map, Level.sources_reviseBy,
      List.forall_mem_map]
    exact fun s hs => htake hj _ _ (hpush s hs)

theorem joins_pass_eq_nil : (pass depth q).joins = [] ↔ q.joins = [] := by
  obtain ⟨f, filters, heq, -⟩ := pass_eq_reviseBy depth q
  rw [heq]
  exact Level.joins_reviseBy_eq_nil q f filters

end Query

/-! ## Levels that only forward -/

/-- Pushdown makes no level one that only forwards its source. -/
theorem Level.isForwarding_of_pushDown {q : Query} (h : q.pushDown.isForwarding = true) :
    q.isForwarding = true := by
  have heq := isForwarding_iff.mp h
  have hj : q.joins = [] := by
    obtain ⟨f, filters, hrevised, -⟩ := q.pushDown_eq_reviseBy
    rw [← joins_reviseBy_eq_nil q f filters, ← hrevised, heq]
    rfl
  rw [pushDown_of_single hj] at h heq
  rcases q.joinFilters_cases with hsame | ⟨f, hone⟩
  · rwa [hsame] at h
  · rw [hone] at heq
    exact absurd (congrArg Level.filters heq) (List.cons_ne_nil f [])

theorem Query.isForwarding_of_pass {q : Query} {depth : Nat}
    (h : (pass depth q).isForwarding = true) : q.isForwarding = true := by
  rw [pass_eq] at h
  rw [← Level.isForwarding_reviseBy]
  exact Level.isForwarding_of_pushDown h

/-- Is the source a subquery that does nothing but give its source another label? -/
def Source.renames : Source → Bool
  | .collection _ _ => false
  | .subquery q label => q.isForwarding && q.source.label != label

/-- **No source of a level with joins only renames its source.** -/
def Level.ReadsPlainly (q : Query) : Prop := q.joins ≠ [] → ∀ s ∈ q.sources, s.renames = false

namespace Source

variable {s : Source}

theorem renames_subquery_eq_false {q : Query} {label : String} :
    (subquery q label).renames = false ↔ (q.isForwarding = true → q.source.label = label) := by
  show (q.isForwarding && q.source.label != label) = false ↔ _
  cases q.isForwarding with
  | false => simp
  | true => simp

theorem renames_pushDown (h : s.renames = false) (depth : Nat) :
    (s.pushDown depth).renames = false := by
  cases s with
  | collection name label => rfl
  | subquery q label =>
    cases depth with
    | zero => exact h
    | succ depth =>
      obtain ⟨f, filters, heq, hlabel⟩ := Query.pass_eq_reviseBy depth q
      refine renames_subquery_eq_false.mpr fun hforwards => ?_
      show (Query.pass depth q).source.label = label
      rw [heq, Level.source_reviseBy, hlabel]
      exact renames_subquery_eq_false.mp h (Query.isForwarding_of_pass hforwards)

theorem renames_takeCondition (h : s.renames = false) (es : List Expr) :
    (s.takeCondition es).renames = false := by
  rcases s.takeCondition_eq_or es with hstays | ⟨e, htakes⟩
  · rw [hstays]
    exact h
  · have hfilter : ∀ (q : Query) (label : String),
        (subquery (q.withFilter e) label).renames = false := fun q label =>
      renames_subquery_eq_false.mpr fun hforwards =>
        absurd (hforwards.symm.trans (Level.isForwarding_withFilter q e)) (by simp)
    rw [htakes]
    cases s with
    | collection name label => exact hfilter _ label
    | subquery q label => exact hfilter q label

end Source

/-- A pass keeps it that joined sources are not only renamed. -/
theorem Query.readsPlainly_pass {q : Query} (h : q.ReadsPlainly) (depth : Nat) :
    (pass depth q).ReadsPlainly := by
  intro hj
  refine forall_sources_pass (fun s hs => ?_) fun _ _ es hs => Source.renames_takeCondition hs es
  exact Source.renames_pushDown (h (joins_pass_eq_nil.not.mp hj) s hs) depth

/-! ## What passes keep -/

section EveryLevel

variable {asked : Query → Prop} (hpass : ∀ depth q, asked q → asked (Query.pass depth q))
  (hfilter : ∀ (q : Query) e, asked q → asked (q.withFilter e))
  (hnew : ∀ name label e, asked ((Level.ofSource (.collection name label)).withFilter e))

include hfilter hnew

theorem Source.everyLevel_takeCondition {s : Source} (h : s.EveryLevel asked) (es : List Expr) :
    (s.takeCondition es).EveryLevel asked := by
  rcases s.takeCondition_eq_or es with hstays | ⟨e, htakes⟩
  · rw [hstays]
    exact h
  · rw [htakes]
    cases s with
    | collection name label =>
      exact Query.everyLevel_iff.mpr ⟨hnew name label e, List.forall_mem_singleton.mpr trivial⟩
    | subquery q label =>
      obtain ⟨hhere, hsources⟩ := Query.everyLevel_iff.mp h
      exact Query.everyLevel_iff.mpr ⟨hfilter q e hhere, hsources⟩

include hpass

theorem Source.everyLevel_pushDown {s : Source} (h : s.EveryLevel asked) (depth : Nat) :
    (s.pushDown depth).EveryLevel asked := by
  induction s using Source.induct generalizing depth with
  | collection name label => exact h
  | subquery q label ih =>
    cases depth with
    | zero => exact h
    | succ depth =>
      obtain ⟨hhere, hsources⟩ := Query.everyLevel_iff.mp h
      refine Query.everyLevel_iff.mpr ⟨hpass depth q hhere, Query.forall_sources_pass
        (fun s hs => ih s hs (hsources s hs) depth) fun _ s es hs => ?_⟩
      exact Source.everyLevel_takeCondition hfilter hnew hs es

/-- **A pass keeps what is asked of all levels below a query**, if it keeps it of a level, and taking
a condition in keeps it. -/
theorem Query.everyLevel_pass {q : Query} (h : ∀ s ∈ q.sources, s.EveryLevel asked) (depth : Nat) :
    ∀ s ∈ (pass depth q).sources, s.EveryLevel asked :=
  forall_sources_pass
    (fun s hs => Source.everyLevel_pushDown hpass hfilter hnew (h s hs) depth)
    fun _ _ es hs => Source.everyLevel_takeCondition hfilter hnew hs es

end EveryLevel

/-! ## How far passes reach -/

mutual

/-- **How many levels a source has**, one below the other. A collection that is joined counts as one,
since pushdown may make a level of it. -/
def Source.height : Source → Nat
  | .collection _ _ => 0
  | .subquery q _ => Source.heightOf q + 1

def Source.heightOf : Query → Nat
  | ⟨source, _, joins, _, _, _, _, _, _, _, _, _, _⟩ =>
    max (Source.height source) (Source.heightOfJoins joins)

def Source.heightOfJoins : List (Join Source) → Nat
  | [] => 0
  | ⟨_, source, _, _⟩ :: joins => max (max 1 (Source.height source)) (Source.heightOfJoins joins)

end

/-- **How many levels a query has below its own**, one below the other. -/
def Query.height (q : Query) : Nat := Source.heightOf q

theorem Source.heightOfJoins_le_iff {joins : List (Join Source)} {n : Nat} :
    heightOfJoins joins ≤ n ↔ (joins ≠ [] → 1 ≤ n) ∧ ∀ j ∈ joins, j.source.height ≤ n := by
  induction joins with
  | nil => simp [heightOfJoins]
  | cons j joins ih =>
    rw [List.forall_mem_cons]
    show max (max 1 j.source.height) (heightOfJoins joins) ≤ n ↔ _
    rw [Nat.max_le, Nat.max_le, ih]
    constructor
    · rintro ⟨⟨hone, hj⟩, -, hjoins⟩
      exact ⟨fun _ => hone, hj, hjoins⟩
    · rintro ⟨hone, hj, hjoins⟩
      have hone := hone (List.cons_ne_nil j joins)
      exact ⟨⟨hone, hj⟩, fun _ => hone, hjoins⟩

theorem Query.height_le_iff {q : Query} {n : Nat} :
    Query.height q ≤ n ↔ (q.joins ≠ [] → 1 ≤ n) ∧ ∀ s ∈ q.sources, s.height ≤ n := by
  have hheight : Query.height q = max q.source.height (Source.heightOfJoins q.joins) := by
    cases q
    rfl
  unfold Level.sources
  rw [hheight, Nat.max_le, Source.heightOfJoins_le_iff, List.forall_mem_cons, List.forall_mem_map,
    and_left_comm]

/-- Below a subquery there is one level less. -/
theorem Source.height_le_of_subquery {q : Query} {label : String} {n : Nat}
    (h : (subquery q label).height ≤ n) : ∃ m, n = m + 1 ∧ Query.height q ≤ m := by
  cases n with
  | zero => exact absurd h (Nat.not_succ_le_zero _)
  | succ m => exact ⟨m, rfl, Nat.le_of_succ_le_succ h⟩

theorem Source.height_takeCondition_le {s : Source} {n : Nat} (hn : 1 ≤ n) (h : s.height ≤ n)
    (es : List Expr) : (s.takeCondition es).height ≤ n := by
  rcases s.takeCondition_eq_or es with hstays | ⟨e, htakes⟩
  · rw [hstays]
    exact h
  · rw [htakes]
    cases s with
    | collection name label => exact hn
    | subquery q label =>
      cases q
      exact h

theorem Query.height_pass_le_of_sources {q : Query} {depth n : Nat} (h : Query.height q ≤ n)
    (hsources : ∀ s ∈ q.sources, s.height ≤ n → (s.pushDown depth).height ≤ n) :
    Query.height (pass depth q) ≤ n := by
  obtain ⟨hn, hq⟩ := height_le_iff.mp h
  refine height_le_iff.mpr ⟨fun hj => hn (joins_pass_eq_nil.not.mp hj), ?_⟩
  exact forall_sources_pass (fun s hs => hsources s hs (hq s hs)) fun hj s es hs =>
    Source.height_takeCondition_le (hn hj) hs es

theorem Source.height_pushDown_le {s : Source} {n : Nat} (h : s.height ≤ n) (depth : Nat) :
    (s.pushDown depth).height ≤ n := by
  induction s using Source.induct generalizing depth n with
  | collection name label => exact h
  | subquery q label ih =>
    cases depth with
    | zero => exact h
    | succ depth =>
      obtain ⟨n, rfl, hq⟩ := height_le_of_subquery h
      exact Nat.succ_le_succ
        (Query.height_pass_le_of_sources hq fun s hs hn => ih s hs hn depth)

/-- **Passes put no level below where one may be.** -/
theorem Query.height_pass_le (depth : Nat) (q : Query) :
    Query.height (pass depth q) ≤ Query.height q :=
  height_pass_le_of_sources le_rfl fun _ _ hs => Source.height_pushDown_le hs depth

/-- Where passes that reach all levels of a source change nothing, no passes do, however far they
go. -/
theorem Source.pushDown_of_reached {s : Source} {depth : Nat} (hreach : s.height ≤ depth)
    (h : s.pushDown depth = s) (depth' : Nat) : s.pushDown depth' = s := by
  induction s using Source.induct generalizing depth depth' with
  | collection name label => rfl
  | subquery q label ih =>
    obtain ⟨depth, rfl, hq⟩ := height_le_of_subquery hreach
    obtain ⟨-, hsources⟩ := Query.height_le_iff.mp hq
    obtain ⟨hpass, -⟩ := subquery.inj h
    obtain ⟨hdone, hstay⟩ := Query.pass_eq_self_iff.mp hpass
    cases depth' with
    | zero => rfl
    | succ depth' =>
      refine congrArg (subquery · label) (Query.pass_eq_self_iff.mpr ⟨hdone, fun s hs => ?_⟩)
      exact ih s hs (hsources s hs) (hstay s hs) depth'

/-! ## Passes after the collapse -/

namespace Source

variable {s : Source}

theorem pushDown_withLabel (s : Source) (label : String) (depth : Nat) :
    (s.withLabel label).pushDown depth = (s.pushDown depth).withLabel label := by
  cases s with
  | collection name a => rfl
  | subquery q a =>
    cases depth with
    | zero => rfl
    | succ depth => rfl

/-- **The collapse of a source takes no condition that the source has refused**, if it does not only
rename what is left. What forwards its source under the same label refuses no condition, so none is
set on it. -/
theorem takesCondition_collapse (hplain : s.renames = false) {es : List Expr}
    (h : s.takesCondition es = false) : s.collapse.takesCondition es = false := by
  cases s with
  | collection name label => exact h
  | subquery q label =>
    rw [collapse_subquery]
    split
    · rename_i hforwards
      have hnone : Expr.conditionOn? label es = none := by
        by_contra hset
        obtain ⟨e, he⟩ := Option.ne_none_iff_exists'.mp hset
        have htakes : (subquery q label).takesCondition es = q.takesIn label e := by
          unfold takesCondition
          rw [show (subquery q label).label = label from rfl, he]
          exact isSome_filtered?_subquery q label e
        have hforward := Level.takesIn_ofSource q.source e
        rw [← Level.isForwarding_iff.mp hforwards,
          renames_subquery_eq_false.mp hplain hforwards] at hforward
        exact Bool.false_ne_true (h.symm.trans (htakes.trans hforward))
      unfold takesCondition
      rw [label_withLabel, hnone]
      rfl
    · rw [← h, Query.collapse_eq]
      exact (testsAs_reviseBy (label_collapse _) q.filters label).takesCondition es

end Source

/-- **A pass changes nothing in a collapsed query** where it changes nothing at the level and nothing
in its collapsed sources. -/
theorem Query.pass_collapse {q : Query} {depth : Nat} (hplain : q.ReadsPlainly)
    (hdone : q.pushDown = q) (h : ∀ s ∈ q.sources, s.collapse.pushDown depth = s.collapse) :
    pass depth q.collapse = q.collapse := by
  rw [pass_eq_self_iff, collapse_eq]
  refine ⟨Level.pushDown_reviseBy_eq_self hdone fun hj s hs htakes =>
    Source.takesCondition_collapse (hplain hj s hs) htakes, ?_⟩
  rw [Level.sources_reviseBy, List.forall_mem_map]
  exact h

/-- **Where passes change nothing however far they go, they change nothing after the collapse.** -/
theorem Source.pushDown_collapse {s : Source} (hplain : s.EveryLevel Level.ReadsPlainly)
    (h : ∀ depth, s.pushDown depth = s) (depth : Nat) : s.collapse.pushDown depth = s.collapse := by
  induction s using Source.induct generalizing depth with
  | collection name label => rfl
  | subquery q label ih =>
    obtain ⟨hhere, hbelow⟩ := Query.everyLevel_iff.mp hplain
    have hpass : ∀ depth, q.pushDown = q ∧ ∀ s ∈ q.sources, s.pushDown depth = s := fun depth =>
      Query.pass_eq_self_iff.mp (subquery.inj (h (depth + 1))).1
    have hsources : ∀ s ∈ q.sources, ∀ depth, s.collapse.pushDown depth = s.collapse :=
      fun s hs => ih s hs (hbelow s hs) fun depth => (hpass depth).2 s hs
    rw [collapse_subquery]
    split
    · rw [pushDown_withLabel, hsources q.source List.mem_cons_self]
    · cases depth with
      | zero => rfl
      | succ depth =>
        exact congrArg (subquery · label)
          (Query.pass_collapse hhere (hpass 0).1 fun s hs => hsources s hs depth)

/-- A source without levels that only forward collapses to itself. -/
theorem Source.collapse_of_everyLevel {s : Source} (h : s.EveryLevel (·.isForwarding = false)) :
    s.collapse = s := by
  induction s using Source.induct with
  | collection name label => rfl
  | subquery q label ih =>
    obtain ⟨hhere, hbelow⟩ := Query.everyLevel_iff.mp h
    rw [collapse_subquery, if_neg (ne_true_of_eq_false hhere),
      Query.collapse_of_sources fun s hs => ih s hs (hbelow s hs)]

/-! ## Optimizing once more -/

/-- **The passes come to an end within their bound**: one of them changes nothing. -/
def Optimizer.Converges (o : Optimizer) (q : Query) : Prop :=
  ∃ n < o.maxPasses, (Query.pass o.maxDepth)^[n + 1] q = (Query.pass o.maxDepth)^[n] q

/-- **The collapse leaves nothing to do for passes**: it drops no level of the query, or it makes no
joined source known by another label, and the passes reach all levels before. -/
def Optimizer.CollapsesLast (o : Optimizer) (q : Query) : Prop :=
  (∀ s ∈ q.sources, s.EveryLevel (·.isForwarding = false)) ∨
    (Query.EveryLevel Level.ReadsPlainly q ∧ Query.height q ≤ o.maxDepth)

theorem Optimizer.collapsesLast_pass {o : Optimizer} {q : Query} (h : o.CollapsesLast q) :
    o.CollapsesLast (Query.pass o.maxDepth q) := by
  refine h.imp (fun hkept => ?_) fun ⟨hplain, hreach⟩ => ⟨?_, ?_⟩
  · refine Query.everyLevel_pass (fun depth q hq => ?_) (fun q e _ => q.isForwarding_withFilter e)
      (fun _ _ e => Level.isForwarding_withFilter _ e) hkept o.maxDepth
    exact Bool.eq_false_iff.mpr fun hforwards =>
      Bool.eq_false_iff.mp hq (Query.isForwarding_of_pass hforwards)
  · obtain ⟨hhere, hbelow⟩ := Query.everyLevel_iff.mp hplain
    refine Query.everyLevel_iff.mpr ⟨Query.readsPlainly_pass hhere o.maxDepth, ?_⟩
    refine Query.everyLevel_pass ?_ (fun _ _ hq => hq) (fun _ _ _ hj => absurd rfl hj) hbelow
      o.maxDepth
    exact fun depth _ hq => Query.readsPlainly_pass hq depth
  · exact (Query.height_pass_le o.maxDepth q).trans hreach

/-- **A pass changes nothing after the collapse of a query that it leaves as it is.** -/
theorem Optimizer.pass_collapse {o : Optimizer} {q : Query} (h : o.CollapsesLast q)
    (hpass : Query.pass o.maxDepth q = q) : Query.pass o.maxDepth q.collapse = q.collapse := by
  obtain ⟨hdone, hsources⟩ := Query.pass_eq_self_iff.mp hpass
  rcases h with hkept | ⟨hplain, hreach⟩
  · rw [Query.collapse_of_sources fun s hs => Source.collapse_of_everyLevel (hkept s hs), hpass]
  · obtain ⟨hhere, hbelow⟩ := Query.everyLevel_iff.mp hplain
    obtain ⟨-, hheights⟩ := Query.height_le_iff.mp hreach
    refine Query.pass_collapse hhere hdone fun s hs => Source.pushDown_collapse (hbelow s hs) ?_ _
    exact Source.pushDown_of_reached (hheights s hs) (hsources s hs)

/-- **Optimizing once more changes nothing**, if the passes have come to an end and the collapse leaves
nothing to do for them. -/
theorem Optimizer.optimize_optimize (o : Optimizer) {q : Query} (hconverges : o.Converges q)
    (hlast : o.CollapsesLast q) : o.optimize (o.optimize q) = o.optimize q := by
  obtain ⟨n, hn, hend⟩ := hconverges
  rw [Function.iterate_succ_apply'] at hend
  obtain ⟨k, hk⟩ := Nat.exists_eq_add_of_le' hn.le
  have hpasses : Query.passes o.maxDepth o.maxPasses q = (Query.pass o.maxDepth)^[n] q := by
    rw [hk, Query.passes_eq_iterate, Function.iterate_add_apply]
    exact Function.iterate_fixed hend k
  have hkept : o.CollapsesLast ((Query.pass o.maxDepth)^[n] q) := by
    clear hn hend hk hpasses
    induction n with
    | zero => exact hlast
    | succ n ih =>
      rw [Function.iterate_succ_apply']
      exact collapsesLast_pass ih
  unfold optimize
  split
  · rw [hpasses, Query.passes_of_pass (pass_collapse hkept hend), Query.collapse_collapse]
  · rfl

/-- Users that have a post with a text, forwarded under the same label and joined with their teams:
the conditions are moved, and the collapse drops the level that forwards. -/
theorem Optimizer.optimize_optimize_of_forwarded :
    let o : Optimizer := ⟨true, 10, 32⟩
    let users : Query :=
      { source := .collection "users" "u"
        joins := [⟨.inner, .collection "posts" "p", .ref ["u", "id"], .ref ["p", "author"]⟩]
        filters := [⟨.and [.ref ["p", "text"], .ref ["u", "age"]], false⟩] }
    let q : Query :=
      { source := .subquery (.ofSource (.subquery users "u")) "u"
        joins := [⟨.left, .collection "teams" "t", .ref ["u", "u", "team"], .ref ["t", "id"]⟩]
        filters := [⟨.ref ["t", "name"], false⟩] }
    o.Converges q ∧ o.CollapsesLast q ∧ (Query.passes 32 10 q).collapse ≠ Query.passes 32 10 q ∧
      o.optimize (o.optimize q) = o.optimize q := by
  intro o users q
  have hconverges : o.Converges q := ⟨1, by decide, by decide +kernel⟩
  have hlast : o.CollapsesLast q := by
    have husers : Query.EveryLevel Level.ReadsPlainly users := by
      refine Query.everyLevel_iff.mpr ⟨fun _ => by decide, ?_⟩
      exact List.forall_mem_cons.mpr ⟨trivial, List.forall_mem_singleton.mpr trivial⟩
    refine Or.inr ⟨Query.everyLevel_iff.mpr ⟨fun _ => by decide +kernel, ?_⟩, by decide⟩
    refine List.forall_mem_cons.mpr ⟨?_, List.forall_mem_singleton.mpr trivial⟩
    exact Query.everyLevel_iff.mpr
      ⟨fun hj => absurd rfl hj, List.forall_mem_singleton.mpr husers⟩
  exact ⟨hconverges, hlast, by decide +kernel, o.optimize_optimize hconverges hlast⟩

/-- **Otherwise it may change something.** A condition on users that have been renamed stays where it
is, until the collapse has given the collection the name that the condition goes by. And where passes
go one level down, two conditions are put into one only after the collapse, by which they come one
level nearer. -/
theorem Optimizer.optimize_optimize_differs :
    let users : Source := .subquery (.ofSource (.collection "users" "x")) "u"
    let q : Query :=
      { source := users
        joins := [⟨.inner, .collection "posts" "p", .ref ["u", "id"], .ref ["p", "author"]⟩]
        filters := [⟨.ref ["u", "age"], false⟩] }
    let adults : Query :=
      { source := .collection "users" "u"
        filters := [⟨.ref ["u", "age"], false⟩, ⟨.ref ["u", "name"], false⟩] }
    let deep : Query := .ofSource (.subquery (.ofSource (.subquery adults "u")) "u")
    (Optimizer.Converges ⟨true, 10, 32⟩ q ∧
      Optimizer.optimize ⟨true, 10, 32⟩ (Optimizer.optimize ⟨true, 10, 32⟩ q) ≠
        Optimizer.optimize ⟨true, 10, 32⟩ q) ∧
      Optimizer.Converges ⟨true, 10, 1⟩ deep ∧
        Optimizer.optimize ⟨true, 10, 1⟩ (Optimizer.optimize ⟨true, 10, 1⟩ deep) ≠
          Optimizer.optimize ⟨true, 10, 1⟩ deep := by
  intro users q adults deep
  exact ⟨⟨⟨0, by decide, by decide +kernel⟩, by decide +kernel⟩,
    ⟨0, by decide, by decide +kernel⟩, by decide +kernel⟩

end DeltaView
