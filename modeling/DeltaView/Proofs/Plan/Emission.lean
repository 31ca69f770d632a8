import DeltaView.Proofs.Plan.Wiring

/-!
# What a circuit has emitted

When nothing is left to do, every node has consumed what its producers emitted, so by induction on
the plan a node that computes it has emitted the plan's rows.

* `Feeds`: the inputs were sent the tables of a snapshot.
* `Seen`: up to a node, no node has seen values but those of some snapshots and those of what it
  has consumed, so that the comparison of a ranking is an order on what it has seen.
* `Delivers`: the rows of a plan have come out at a node. **`computes_delivers`**: so it is at every
  node that computes a plan.
-/

namespace DeltaView

namespace Graph

variable {functions : RowFunctions} {inputs : String → List Nat} {g : Graph}
  {ins : Nat → List Nat} {l : Ledger} {all : List Snapshot} {tables : Snapshot} {top : Nat}

/-- The node where an operator stands, as a run has left it. -/
theorem Stands.node {n : Nat} {operator : Operator} {sources : List Nat}
    (h : g.Stands ins n operator sources) :
    ∃ node, g.nodes[n]? = some node ∧ node.operator.reset = operator := by
  obtain ⟨f, hf, hk⟩ := Option.map_eq_some_iff.mp h.kind
  rw [frames_getElem?, Option.map_eq_some_iff] at hf
  obtain ⟨node, hn, rfl⟩ := hf
  exact ⟨node, hn, (Prod.mk.inj hk).1⟩

/-- With nothing left to do, the operator at a node has computed its function of what the
producers emitted. -/
theorem Stands.reached {n : Nat} {operator : Operator} {sources : List Nat}
    (h : g.Stands ins n operator sources) (ha : Accounts g.nodes ins l) (hidle : g.Idle) :
    ∃ op : Operator, op.reset = operator ∧ op.hasPending = false ∧
      op.Reached (l.consumed n) (l.emitted n) (l.seen n) ∧
      ∀ j m, sources[j]? = some m → Delta.Same (l.consumed n j) (l.emitted m) := by
  obtain ⟨node, hn, hreset⟩ := h.node
  refine ⟨node.operator, hreset, ?_, (ha n node hn).reached, fun j m hm => ?_⟩
  · have := hidle n node hn
    rw [Node.hasWork, Bool.or_eq_false_iff] at this
    exact this.2
  · exact consumed_of_idle ha hidle hn (by rw [h.ins, hm])

theorem Stands.le_top {n m : Nat} {operator : Operator} (h : g.Stands ins n operator [m])
    (hn : n ≤ top) : m ≤ top := (h.source_le List.mem_cons_self).trans hn

theorem emitted_map {n m : Nat} {f : Row → Row} (h : g.Stands ins n (.map f) [m])
    (ha : Accounts g.nodes ins l) (hidle : g.Idle) :
    Delta.Same (l.emitted n) (Delta.mapItems f (l.emitted m)) := by
  obtain ⟨op, hreset, -, hr, hin⟩ := h.reached ha hidle
  cases op with
  | map f' =>
    obtain rfl := Operator.map.inj hreset
    exact Delta.Same.trans hr ((hin 0 m rfl).mapItems f')
  | _ => cases hreset

theorem emitted_filter {n m : Nat} {p : Row → Bool} (h : g.Stands ins n (.filter p) [m])
    (ha : Accounts g.nodes ins l) (hidle : g.Idle) :
    Delta.Same (l.emitted n) (Delta.filterItems p (l.emitted m)) := by
  obtain ⟨op, hreset, -, hr, hin⟩ := h.reached ha hidle
  cases op with
  | filter p' =>
    obtain rfl := Operator.filter.inj hreset
    exact Delta.Same.trans hr ((hin 0 m rfl).filterItems p')
  | _ => cases hreset

theorem emitted_join {n m m' : Nat} {rule : JoinRule}
    (h : g.Stands ins n (.join rule .empty) [m, m']) (ha : Accounts g.nodes ins l)
    (hidle : g.Idle) :
    Delta.Same (l.emitted n) (rule.table (l.emitted m) (l.emitted m')) := by
  obtain ⟨op, hreset, -, hr, hin⟩ := h.reached ha hidle
  cases op with
  | join rule' s =>
    obtain ⟨rfl, -⟩ := Operator.join.inj hreset
    exact hr.2.trans (JoinRule.table_congr rule' (hin 0 m rfl) (hin 1 m' rfl))
  | _ => cases hreset

theorem emitted_group {n m : Nat} {rule : GroupRule} (h : g.Stands ins n (.group rule .empty) [m])
    (ha : Accounts g.nodes ins l) (hidle : g.Idle) (hs : rule.Steady (l.emitted m)) :
    Delta.Same (l.emitted n) (rule.table (l.emitted m)) := by
  obtain ⟨op, hreset, -, hr, hin⟩ := h.reached ha hidle
  cases op with
  | group rule' s =>
    obtain ⟨rfl, -⟩ := Operator.group.inj hreset
    have hin := hin 0 m rfl
    rw [← GroupRule.table_congr hin]
    exact hr.2.trans (GroupState.emitted_same_table hr.1 (hs.congr hin.symm))
  | _ => cases hreset

theorem emitted_distinct {n m : Nat} {extract : Row → Value}
    (h : g.Stands ins n (.distinct extract .empty) [m]) (ha : Accounts g.nodes ins l)
    (hidle : g.Idle) :
    Delta.Same (l.emitted n) (DistinctState.table (Delta.mapItems extract (l.emitted m))) := by
  obtain ⟨op, hreset, -, hr, hin⟩ := h.reached ha hidle
  cases op with
  | distinct extract' s =>
    obtain ⟨rfl, -⟩ := Operator.distinct.inj hreset
    rw [← DistinctState.table_congr ((hin 0 m rfl).mapItems extract')]
    exact hr.2
  | _ => cases hreset

/-- What shows in a window that has nothing to do are the ranked rows of its input. -/
theorem emitted_window {n m : Nat} {compare : Value → Value → Ordering} {window : Window}
    {d : Delta Row} (h : g.Stands ins n (.window compare (.start window)) [m])
    (ha : Accounts g.nodes ins l) (hidle : g.Idle) (hc : PreorderOn compare (l.seen n))
    (hd : Delta.Shows (l.emitted m) d) :
    Delta.Shows (l.emitted n) (Plan.ranked compare window d) := by
  obtain ⟨op, hreset, hpending, hr, hin⟩ := h.reached ha hidle
  cases op with
  | window compare' s =>
    obtain ⟨rfl, hstart⟩ := Operator.window.inj hreset
    obtain ⟨hholds, hem⟩ := hr.2 hc
    have hwindow : s.ranking.window = window := by
      have htarget : s.target = window := congrArg WindowState.window hstart
      have hnone : s.pending = none := by
        simpa [Operator.hasPending, WindowState.hasPending] using hpending
      rw [← htarget, WindowState.target, hnone]
      rfl
    rw [← hwindow]
    refine (Plan.shown_shows (fun x hx => ?_) (hholds.rows_eq hc)
      (hd.congr (hin 0 m rfl).symm (.refl d))).congr hem.symm (.refl _)
    have := (hholds.present x.row).mp (List.mem_map_of_mem hx)
    exact WindowState.unordered_of_total_ne_zero (ne_of_gt this)
  | _ => cases hreset

theorem emitted_input {n : Nat} (h : g.kindAt n = some (.input, true))
    (ha : Accounts g.nodes ins l) (hidle : g.Idle) : Delta.Same (l.emitted n) (l.sent n) := by
  obtain ⟨f, hf, hk⟩ := Option.map_eq_some_iff.mp h
  rw [frames_getElem?, Option.map_eq_some_iff] at hf
  obtain ⟨node, hn, rfl⟩ := hf
  obtain ⟨hreset, hinput⟩ := Prod.mk.inj hk
  have hr := (ha n node hn).reached
  cases hop : node.operator with
  | input =>
    rw [hop] at hr
    exact Delta.Same.trans hr (sent_of_idle ha hidle hn hinput)
  | _ =>
    rw [Node.frame, hop] at hreset
    cases hreset

/-! ## Plans -/

/-- The inputs were sent the tables of a snapshot. -/
def Feeds (inputs : String → List Nat) (l : Ledger) (tables : Snapshot) : Prop :=
  ∀ name, ∀ n ∈ inputs name, Delta.Same (l.sent n) (tables name).rows

/-- Up to node `top`, a node has seen no values but those that the plan below it has in some
snapshots, and those that `more` gives it. -/
def Seen (functions : RowFunctions) (inputs : String → List Nat) (g : Graph)
    (ins : Nat → List Nat) (all : List Snapshot) (top : Nat) (seen : Nat → Value → Prop)
    (more : Nat → Value → Prop) : Prop :=
  ∀ (q : Plan) (m n : Nat), n ≤ top → q.Layered → q.Regular functions all →
    Computes functions inputs g ins q m → (∃ operator, g.Stands ins n operator [m]) →
      ∀ v, seen n v → (∃ t ∈ all, Delta.HasValue (q.rows functions t) v) ∨ more n v

theorem Seen.kept {g' : Graph} {seen more : Nat → Value → Prop}
    (h : Seen functions inputs g ins all top seen more) (hk : Kept g g') :
    Seen functions inputs g' ins all top seen more := by
  have hagree : ∀ k, AgreeTo g' g ins ins k := fun k => .of_frames hk.frames.symm k
  intro q m n hn hl hr hq ⟨operator, hs⟩
  exact h q m n hn hl hr (hq.agree (fun _ _ => id) (hagree m)) ⟨operator, hs.agree (hagree n)⟩

/-- The values of what a node has consumed. -/
def Ledger.present (l : Ledger) (n : Nat) (v : Value) : Prop := Delta.HasValue (l.consumed n 0) v

/-- What a value is a value of does not depend on order keys. -/
theorem hasValue_of_shows {e d : Delta Row} (h : Delta.Shows e d) {v : Value}
    (hv : Delta.HasValue e v) : Delta.HasValue d v := by
  obtain ⟨r, hr, rfl⟩ := hv
  exact ⟨r, by rwa [← h.mapItems_unordered r], rfl⟩

/-- The values of what a node has consumed are those of the plan's rows below it. -/
theorem present_of_shows {n m : Nat} {operator : Operator} {d : Delta Row}
    (h : g.Stands ins n operator [m]) (ha : Accounts g.nodes ins l) (hidle : g.Idle)
    (hd : Delta.Shows (l.emitted m) d) {v : Value} (hv : l.present n v) : Delta.HasValue d v := by
  obtain ⟨op, -, -, -, hin⟩ := h.reached ha hidle
  exact hasValue_of_shows hd (hv.congr (hin 0 m rfl))

/-- The rows of a plan have come out at a node: but for order keys, and as they are where the plan
has none. -/
structure Delivers (functions : RowFunctions) (tables : Snapshot) (l : Ledger) (p : Plan) (n : Nat) :
    Prop where
  shows : Delta.Shows (l.emitted n) (p.rows functions tables)
  plain : p.isPlain = true → Delta.Same (l.emitted n) (p.rows functions tables)

section Delivers

variable {p p' : Plan} {m n : Nat}

theorem Delivers.of_same (h : Delta.Same (l.emitted n) (p.rows functions tables)) :
    Delivers functions tables l p n :=
  ⟨.of_same h (Plan.rows_unordered functions tables p), fun _ => h⟩

/-- A step of a plan that maps rows, whatever their order keys. -/
theorem Delivers.map (h : Delivers functions tables l p m) {f : Row → Row}
    (hs : g.Stands ins n (.map f) [m]) (ha : Accounts g.nodes ins l) (hidle : g.Idle)
    (hf : ∀ r, (f r).unordered = f r.unordered)
    (hrows : p'.rows functions tables = Delta.mapItems f (p.rows functions tables))
    (hplain : p'.isPlain = p.isPlain) : Delivers functions tables l p' n := by
  have hout := emitted_map hs ha hidle
  constructor
  · rw [hrows]
    exact (h.shows.map hf).congr hout.symm (.refl _)
  · rw [hplain, hrows]
    exact fun hp => hout.trans ((h.plain hp).mapItems f)

/-- A step of a plan that keeps some rows, whatever their order keys. -/
theorem Delivers.filter (h : Delivers functions tables l p m) {test : Row → Bool}
    (hs : g.Stands ins n (.filter test) [m]) (ha : Accounts g.nodes ins l) (hidle : g.Idle)
    (htest : ∀ r, test r.unordered = test r)
    (hrows : p'.rows functions tables = Delta.filterItems test (p.rows functions tables))
    (hplain : p'.isPlain = p.isPlain) : Delivers functions tables l p' n := by
  have hout := emitted_filter hs ha hidle
  constructor
  · rw [hrows]
    exact (h.shows.filter htest).congr hout.symm (.refl _)
  · rw [hplain, hrows]
    exact fun hp => hout.trans ((h.plain hp).filterItems test)

end Delivers

/-- **With nothing left to do, the rows of a plan have come out at its node.** -/
theorem computes_delivers (ha : Accounts g.nodes ins l) (hidle : g.Idle)
    (hfeeds : Feeds inputs l tables) (ht : tables ∈ all)
    (hseen : Seen functions inputs g ins all top l.seen l.present) :
    ∀ (p : Plan) (n : Nat), n ≤ top → p.Layered → p.Regular functions all →
      Computes functions inputs g ins p n → Delivers functions tables l p n
  | .scan name, n, _, _, _, ⟨hn, hk⟩ =>
    .of_same ((emitted_input hk ha hidle).trans (hfeeds name n hn))
  | .named label p, n, htop, hl, hr, ⟨m, hm, hs⟩ => by
    have hd := computes_delivers ha hidle hfeeds ht hseen p m (hs.le_top htop) hl hr hm
    exact .of_same ((emitted_map hs ha hidle).trans
      (hd.shows.value (f := Row.named label) fun _ => rfl))
  | .join kind mainKey joinedKey p q, n, htop, hl, hr, ⟨m, m', hm, hm', hs⟩ => by
    have hd := computes_delivers ha hidle hfeeds ht hseen p m
      ((hs.source_le List.mem_cons_self).trans htop) hl.1 hr.1 hm
    have hd' := computes_delivers ha hidle hfeeds ht hseen q m'
      ((hs.source_le (List.mem_cons_of_mem _ List.mem_cons_self)).trans htop) hl.2 hr.2 hm'
    exact .of_same ((emitted_join hs ha hidle).trans
      (JoinRule.table_shows (Plan.joinRule kind mainKey joinedKey) (fun _ => rfl)
        (fun _ => rfl) hd.shows hd'.shows))
  | .filter condition p, n, htop, hl, hr, ⟨m, hm, hs⟩ =>
    (computes_delivers ha hidle hfeeds ht hseen p m (hs.le_top htop) hl hr hm).filter hs ha hidle
      (fun _ => rfl) rfl rfl
  | .filterBy test p, n, htop, hl, hr, ⟨m, hm, hs⟩ =>
    (computes_delivers ha hidle hfeeds ht hseen p m (hs.le_top htop) hl hr hm).filter hs ha hidle
      (fun _ => rfl) rfl rfl
  | .project projection p, n, htop, hl, hr, ⟨m, hm, hs⟩ =>
    (computes_delivers ha hidle hfeeds ht hseen p m (hs.le_top htop) hl hr hm).map hs ha hidle
      (fun _ => rfl) rfl rfl
  | .group terms p, n, htop, hl, hr, ⟨m, k, hm, hk, hs⟩ => by
    have hd := (computes_delivers ha hidle hfeeds ht hseen p m
      (hk.le_top (hs.le_top htop)) hl.1 hr.1 hm).plain hl.2
    have hgroups : Delta.Same (l.emitted k) (terms.rule.table (p.rows functions tables)) := by
      rw [← GroupRule.table_congr hd]
      exact emitted_group hk ha hidle ((hr.2 tables ht).congr hd.symm)
    exact .of_same ((emitted_map hs ha hidle).trans (hgroups.mapItems _))
  | .distinct p, n, htop, hl, hr, ⟨m, k, hm, hk, hs⟩ => by
    have hd := computes_delivers ha hidle hfeeds ht hseen p m
      (hk.le_top (hs.le_top htop)) hl hr hm
    have hvalues : Delta.Same (Delta.mapItems (fun r => r.value.selected) (l.emitted m))
        (Delta.mapItems (fun r => r.value.selected) (p.rows functions tables)) :=
      hd.shows.value fun _ => rfl
    have hk := emitted_distinct hk ha hidle
    rw [DistinctState.table_congr hvalues] at hk
    exact .of_same ((emitted_map hs ha hidle).trans (hk.mapItems _))
  | .rank terms window p, n, htop, hl, hr, ⟨m, hm, hs⟩ => by
    have hd := computes_delivers ha hidle hfeeds ht hseen p m (hs.le_top htop) hl hr.1 hm
    have hc : PreorderOn (OrderTerm.compareRows terms) (l.seen n) :=
      hr.2.mono fun v hv => (hseen p m n htop hl hr.1 hm ⟨_, hs⟩ v hv).elim id fun hv =>
        ⟨tables, ht, present_of_shows hs ha hidle hd.shows hv⟩
    exact ⟨emitted_window hs ha hidle hc hd.shows, fun hp => absurd hp (by simp [Plan.isPlain])⟩
  | .output p, n, htop, hl, hr, ⟨m, hm, hs⟩ =>
    (computes_delivers ha hidle hfeeds ht hseen p m (hs.le_top htop) hl hr hm).map hs ha hidle
      (fun _ => rfl) rfl rfl

/-- After a run the values that the nodes have seen are all values of some snapshots. -/
theorem Seen.settle (hseen : Seen functions inputs g ins all top l.seen l.present)
    (ha : Accounts g.nodes ins l) (hidle : g.Idle) (hfeeds : Feeds inputs l tables)
    (ht : tables ∈ all) : Seen functions inputs g ins all top l.seen fun _ _ => False := by
  intro q m n hn hl hr hq hstands v hv
  obtain ⟨operator, hs⟩ := hstands
  refine Or.inl ((hseen q m n hn hl hr hq ⟨operator, hs⟩ v hv).elim id fun hv => ?_)
  have hd := computes_delivers ha hidle hfeeds ht hseen q m (hs.le_top hn) hl hr hq
  exact ⟨tables, ht, present_of_shows hs ha hidle hd.shows hv⟩

end Graph

end DeltaView
