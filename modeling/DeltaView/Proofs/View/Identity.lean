import DeltaView.Proofs.Plan.Keys
import DeltaView.Proofs.View.History

/-!
# Rows of a view can be told apart

After every flush each stage of a view's graph has emitted rows that are there once, and no two of
them with one key, as long as every ranking compares the values that it has ever had by an order.

* `emitted`: what has come out at a node while operations were carried out. A `Stage` is a node but
  the sink.
* `Ordered`: the rankings compare by an order what their producers have shown them.
* `Recorded`: the invariant that ties `emitted` to the ledger. **`run_recorded`**.
* **`stages_identified`**: for every way to look at keys under which no stage is confused.
-/

namespace DeltaView

open Graph (Ledger)

/-! ## Tables -/

/-- The rows of a table have its keys. -/
theorem Table.rows_identified {α β : Type} (view : KeyView α β) {t : Table Value Value}
    (h : t.KeysNodup) : t.rows.IdentifiedBy view.ofRow := by
  refine .of_rows (t.map fun e => { key := .plain e.1, value := e.2 }) ?_ (.of_eq ?_)
  · rw [List.map_map, List.Nodup, List.pairwise_map]
    rw [Table.KeysNodup, List.Nodup, List.pairwise_map] at h
    exact h.imp fun hne he => hne (view.plain_injective _ _ he)
  · rw [Table.rows, List.map_map]
    rfl

theorem Change.applyTo_keysNodup (c : Change) {t : Table Value Value} (h : t.KeysNodup) :
    (c.applyTo t).1.KeysNodup := by
  unfold applyTo
  cases c.kind with
  | delete => exact Table.keysNodup_erase h
  | insert => exact Table.keysNodup_put h
  | update => exact Table.keysNodup_put h

namespace LiveView

/-- The stages of a view: the nodes of its graph but the sink. -/
def Stage (v : LiveView) (n : Nat) : Prop :=
  n < v.circuit.graph.nodes.length ∧ n ≠ v.circuit.sink

/-- No table has two rows under one key. -/
def KeysNodup (v : LiveView) : Prop := ∀ name, (v.snapshot name).KeysNodup

theorem KeysNodup.queue {v : LiveView} (h : v.KeysNodup) (collection : String) (c : Change) :
    (v.queue collection c).KeysNodup := fun name => by
  rw [snapshot_queue]
  split
  · exact c.applyTo_keysNodup (h collection)
  · exact h name

theorem KeysNodup.prepare {v : LiveView} (h : v.KeysNodup) (op : Operation) :
    (v.prepare op).1.KeysNodup :=
  prepare_induction h (fun _ h => h) (fun _ collection c h => h.queue collection c)
    (fun _ _ _ h => h) op

end LiveView

namespace History

variable {functions : RowFunctions} {p : Plan} {all : List Snapshot} {window : Option Window}
  {ins : Nat → List Nat} {top out : Nat} {l : Ledger} {h : History}

/-! ## What has come out -/

/-- **What has come out at a node** of the graph while operations were carried out. -/
def emitted (h : History) : List Operation → Nat → Delta Row
  | [], _ => []
  | op :: ops, n => h.emits op n ++ (h.step op).emitted ops n

theorem emitted_append (h : History) (ops ops' : List Operation) (n : Nat) :
    h.emitted (ops ++ ops') n = h.emitted ops n ++ (h.run ops).emitted ops' n := by
  induction ops generalizing h with
  | nil => rfl
  | cons op ops ih =>
    show h.emits op n ++ (h.step op).emitted (ops ++ ops') n = _
    rw [ih, ← List.append_assoc]
    rfl

/-- A node had rows with this value after some of the operations. -/
def Showed (h : History) (ops : List Operation) (n : Nat) (v : Value) : Prop :=
  ∃ before, before <+: ops ∧ Delta.HasValue (h.emitted before n) v

theorem Showed.mono {ops ops' : List Operation} {n : Nat} {v : Value} (hs : h.Showed ops n v)
    (hp : ops <+: ops') : h.Showed ops' n v := by
  obtain ⟨before, hb, hv⟩ := hs
  exact ⟨before, hb.trans hp, hv⟩

/-- The values of the rows that came out at a node. -/
def values (h : History) (ops : List Operation) (n : Nat) : List Value :=
  ops.inits.flatMap fun before => (h.emitted before n).map (·.1.value)

theorem Showed.mem {ops : List Operation} {n : Nat} {v : Value} (hs : h.Showed ops n v) :
    v ∈ h.values ops n := by
  obtain ⟨before, hb, r, hr, rfl⟩ := hs
  obtain ⟨w, hw⟩ := Delta.exists_mem_of_total_ne_zero hr
  obtain ⟨e, he, heq⟩ := List.mem_map.mp hw
  obtain ⟨rfl, -⟩ := Prod.mk.inj heq
  exact List.mem_flatMap.mpr ⟨before, (List.mem_inits _ _).mpr hb, List.mem_map.mpr ⟨e, he, rfl⟩⟩

/-- Every ranking compares the values that its producer had after any of the operations by an
order. -/
def Ordered (h : History) (ops : List Operation) : Prop :=
  ∀ e ∈ h.view.circuit.graph.rankings, PreorderOn e.2 (h.Showed ops e.1)

theorem Ordered.of_values {ops : List Operation} (ho : ∀ e ∈ h.view.circuit.graph.rankings,
    PreorderOn e.2 (· ∈ h.values ops e.1)) : h.Ordered ops :=
  fun e he => (ho e he).mono fun _ hv => hv.mem

/-! ## The invariant -/

/-- The ledger of a view tells what has come out at its nodes, and no node has seen a value that
its producer did not show. -/
structure Recorded (start : History) (ops : List Operation) (h : History) (ins : Nat → List Nat)
    (l : Ledger) : Prop where
  fixed : start.view.circuit.Fixed h.view.circuit
  tables : h.view.KeysNodup
  emitted : ∀ k, k ≠ h.view.circuit.sink → l.emitted k = start.emitted ops k
  seen : ∀ k m v, k < start.view.circuit.graph.nodes.length → (ins k)[0]? = some m →
    l.seen k v → start.Showed ops m v

theorem run_append (h : History) (ops : List Operation) (op : Operation) :
    h.run (ops ++ [op]) = (h.run ops).step op := List.foldl_append ..

/-- One operation more is told as well. -/
theorem Recorded.step {start : History} {ops : List Operation} {op : Operation} {l' : Ledger}
    (hrec : Recorded start ops (start.run ops) ins l)
    (ht : ((start.run ops).step op).view.Tracks functions p all window
      ((start.run ops).step op).output ins top out l')
    (hadv : (start.run ops).Advances op l l') :
    Recorded start (ops ++ [op]) (start.run (ops ++ [op])) ins l' := by
  rw [run_append]
  have hemitted : ∀ k, k ≠ (start.run ops).view.circuit.sink →
      l'.emitted k = start.emitted (ops ++ [op]) k := fun k hk => by
    rw [hadv.continues.emitted k hk, hrec.emitted k hk, emitted_append]
    show _ = _ ++ ((start.run ops).emits op k ++ [])
    rw [List.append_nil]
  refine ⟨hrec.fixed.trans hadv.fixed, ?_, fun k hk => hemitted k (hadv.fixed.sink ▸ hk),
    fun k m v hk hm hv => ?_⟩
  · intro name
    rw [hadv.snapshot]
    exact hrec.tables.prepare op name
  · have hold : l.seen k v → start.Showed (ops ++ [op]) m v := fun hv =>
      (hrec.seen k m v hk hm hv).mono (List.prefix_append ops [op])
    by_cases hf : (start.run ops).Flushes op
    · refine (hadv.continues.seen k v hv).elim hold fun hv => ?_
      -- After a flush a node has consumed what its producer has emitted.
      have hmem := List.mem_of_getElem? hm
      have hn := List.getElem?_eq_getElem ((hrec.fixed.trans hadv.fixed).length ▸ hk)
      have hsame := Graph.consumed_of_idle ht.accounts (hadv.flushed hf).2 hn hm
      rw [hemitted m fun he => ht.serves.unread k (hadv.fixed.sink ▸ he ▸ hmem)] at hsame
      exact ⟨ops ++ [op], List.prefix_refl _, hv.congr hsame⟩
    · exact hold (hadv.quiet hf ▸ hv)

/-- **A history is told from its beginning on**, by the invariant of its view and by the ledger. -/
theorem run_recorded {start : History} (ht : start.view.Tracks functions p all none start.output ins
    top out l) (hrec : Recorded start [] start ins l) (ops : List Operation)
    (hok : start.Succeeds ops) (hall : (start.run ops).snapshots ⊆ all) :
    ∃ window l', (start.run ops).view.Tracks functions p all window (start.run ops).output ins top
      out l' ∧ Recorded start ops (start.run ops) ins l' := by
  induction ops using List.reverseRecOn with
  | nil => exact ⟨none, l, ht, hrec⟩
  | append_singleton ops op ih =>
    obtain ⟨hok, hlast, -⟩ := succeeds_append.mp hok
    have hsub : (start.run ops).snapshots ⊆ (start.run (ops ++ [op])).snapshots := by
      rw [run_append]
      exact snapshots_run (start.run ops) [op]
    obtain ⟨window, l1, ht1, hrec1⟩ := ih hok (List.Subset.trans hsub hall)
    rw [run_append] at hall
    obtain ⟨l2, ht2, hadv⟩ := step_tracks ht1 op hlast hall
    refine ⟨op.moves window, l2, ?_, hrec1.step ht2 hadv⟩
    rw [run_append]
    exact ht2

/-- A view of a query that has done nothing. -/
theorem start_recorded (all : List Snapshot) {objects : Nat → Nat} {optimizer : Optimizer}
    {autocommit : Bool} {q : Query} {v : LiveView}
    (hv : LiveView.ofQuery? functions objects optimizer autocommit q = .ok v) :
    v.circuit.KeepsKeys ∧ ∃ p ins top out, v.Tracks functions p all none [] ins top out .empty ∧
      Recorded (start v) [] (start v) ins .empty := by
  obtain ⟨p, hp, h⟩ := bind_eq_ok.mp hv
  obtain ⟨c, hc, h⟩ := bind_eq_ok.mp h
  obtain ⟨v', ins, top, out, hv', ht⟩ : ∃ v' ins top out,
      LiveView.ofQuery? functions objects optimizer autocommit q = .ok v' ∧
        v'.Tracks functions p all none [] ins top out .empty :=
    start_tracks functions objects hp autocommit
  obtain rfl := Except.ok.inj (hv'.symm.trans hv)
  obtain rfl := Except.ok.inj h
  exact ⟨Circuit.ofPlan?_keepsKeys hc, p, ins, top, out, ht, .refl _, fun _ => List.nodup_nil,
    fun _ _ => rfl, fun _ _ _ _ _ hx => hx.elim⟩

/-! ## Stages -/

/-- **After a flush every stage keeps its rows apart**, and so does what was taken out of the
graph. -/
theorem Recorded.identified {α β : Type} (view : KeyView α β) {start : History}
    {ops : List Operation} (hrec : Recorded start ops h ins l)
    (ht : h.view.Tracks functions p all window h.output ins top out l)
    (hkeeps : start.view.circuit.KeepsKeys) (hqueued : h.view.queued = [])
    (hidle : h.view.circuit.graph.Idle) (ho : start.Ordered ops)
    (hc : ∀ n, start.view.Stage n → ¬ view.Confuses (start.emitted ops n)) :
    (∀ n, start.view.Stage n → (start.emitted ops n).IdentifiedBy view.ofRow) ∧
      h.output.IdentifiedBy view.ofRow := by
  have hkeeps := hkeeps.fixed hrec.fixed
  have hlen := hrec.fixed.length
  have hsink := hrec.fixed.sink
  have hstages : ∀ n, n < h.view.circuit.graph.nodes.length → n ≠ h.view.circuit.sink →
      (l.emitted n).IdentifiedBy view.ofRow := by
    refine Graph.emitted_identified view ht.serves.ready.wired ht.accounts hidle ht.serves.unread
      (fun i n hn hi => ?_) (fun i n hn hin => ?_) (fun i n compare s hn hop => ?_)
      fun i hi hi' => ?_
    · exact (Operator.keepsKeys_bare _).mp (hkeeps.keys i _ (Graph.skeleton_of_node hn) hi)
    · obtain ⟨hop, name, hname⟩ := hkeeps.inputs i _ (Graph.skeleton_of_node hn) hin
      refine ⟨?_, ?_⟩
      · rw [← Operator.bare_arity, show n.operator.bare = .input from hop]
        rfl
      · have hsent := ht.sent name i hname
        rw [hqueued] at hsent
        have hsent : Delta.Same (l.sent i) (h.view.snapshot name).rows := by
          simpa [Table.get?] using hsent
        exact (Table.rows_identified view (hrec.tables name)).congr hsent.symm
    · have hi := (List.getElem?_eq_some_iff.mp hn).1
      obtain ⟨m, hm, hmem⟩ := hkeeps.exists_ranking hrec.fixed ht.serves.ready.wired hn
        (ht.accounts i n hn).inlets hop
      exact (ho _ hmem).mono fun v hv => hrec.seen i m v (hlen ▸ hi) hm hv
    · rw [hrec.emitted i hi']
      exact hc i ⟨hlen ▸ hi, hsink ▸ hi'⟩
  refine ⟨fun n hn => ?_, ?_⟩
  · have hns : n ≠ h.view.circuit.sink := hsink ▸ hn.2
    rw [← hrec.emitted n hns]
    exact hstages n (hlen ▸ hn.1) hns
  · obtain ⟨-, -, -, -, hconsumed⟩ := ht.serves.sink.reached ht.accounts hidle
    have hbelow := ht.serves.sink.below out List.mem_cons_self
    exact (hstages out (Graph.lt_of_kindAt ht.serves.selects.kind) (Nat.ne_of_lt hbelow)).congr
      ((ht.output.trans ht.taken).trans (hconsumed 0 out rfl)).symm

/-- **After every flush of every history each stage keeps its rows apart**, and so does all that the
view was given, for every way to look at keys under which no stage is confused. -/
theorem stages_identified {α β : Type} (view : KeyView α β) {objects : Nat → Nat}
    {optimizer : Optimizer} {autocommit : Bool} {q : Query} {v : LiveView}
    (hv : LiveView.ofQuery? functions objects optimizer autocommit q = .ok v) {ops : List Operation}
    {op : Operation} (hok : (start v).Succeeds (ops ++ [op]))
    (hflushes : ((start v).run ops).Flushes op) (ho : (start v).Ordered (ops ++ [op]))
    (hc : ∀ n, v.Stage n → ¬ view.Confuses ((start v).emitted (ops ++ [op]) n)) :
    (∀ n, v.Stage n → ((start v).emitted (ops ++ [op]) n).IdentifiedBy view.ofRow) ∧
      ((start v).run (ops ++ [op])).output.IdentifiedBy view.ofRow := by
  obtain ⟨hok, hlast, -⟩ := succeeds_append.mp hok
  obtain ⟨hkeeps, p, ins, top, out, ht, hrec⟩ :=
    start_recorded ((start v).run (ops ++ [op])).snapshots hv
  have hall : ((start v).run ops).snapshots ⊆ ((start v).run (ops ++ [op])).snapshots := by
    rw [run_append]
    exact snapshots_run _ [op]
  obtain ⟨window, l1, ht1, hrec1⟩ := run_recorded ht hrec ops hok hall
  obtain ⟨l2, ht2, hadv⟩ := step_tracks ht1 op hlast (run_append _ ops op ▸ List.Subset.refl _)
  obtain ⟨hqueued, hidle⟩ := hadv.flushed hflushes
  have hrec2 := hrec1.step ht2 hadv
  rw [run_append] at hrec2 ⊢
  exact hrec2.identified view ht2 hkeeps hqueued hidle ho hc

/-- **Row keys identify the rows of every stage**: after every flush the rows that a stage has
emitted are there once each, and no two of them have one key. -/
theorem row_keys_identify_rows {objects : Nat → Nat} {optimizer : Optimizer} {autocommit : Bool}
    {q : Query} {v : LiveView}
    (hv : LiveView.ofQuery? functions objects optimizer autocommit q = .ok v)
    (ops : List Operation) (op : Operation) (hok : (start v).Succeeds (ops ++ [op]))
    (hflushes : ((start v).run ops).Flushes op) (ho : (start v).Ordered (ops ++ [op])) :
    (∀ n, v.Stage n → ((start v).emitted (ops ++ [op]) n).IdentifiedBy Row.key) ∧
      ((start v).run (ops ++ [op])).output.IdentifiedBy Row.key :=
  stages_identified KeyView.exact hv hok hflushes ho fun _ _ => KeyView.exact_not_confuses _

/-- Two rows are ranked the other way round than they came. -/
theorem row_keys_identify_two_ranked_rows :
    let functions : RowFunctions := fun _ v => v
    let q : Query :=
      { source := .collection "t" "t", orderBy := [⟨.ref ["t", "x"], ⟨.asc, .first, .lexical⟩⟩] }
    let put (k x : Int64) : Operation :=
      .apply "t" ⟨.insert, .int k, .object [("x", .int x)], none⟩
    ∃ v, LiveView.ofQuery? functions id ⟨true, 10, 32⟩ true q = .ok v ∧
      (start v).Succeeds [put 1 2, put 2 1] ∧ ((start v).run [put 1 2]).Flushes (put 2 1) ∧
      (start v).Ordered [put 1 2, put 2 1] ∧
      (∀ n, v.Stage n → ((start v).emitted [put 1 2, put 2 1] n).IdentifiedBy Row.key) ∧
      ((start v).run [put 1 2, put 2 1]).output.IdentifiedBy Row.key := by
  intro functions q put
  -- What the operations do is computed at once, and then read off.
  have hrun : (LiveView.ofQuery? functions id ⟨true, 10, 32⟩ true q).map (fun v =>
      decide ((start v).Succeeds [put 1 2, put 2 1] ∧
        ((start v).run [put 1 2]).Flushes (put 2 1) ∧ ∀ e ∈ v.circuit.graph.rankings,
          PreorderOn e.2 (· ∈ (start v).values [put 1 2, put 2 1] e.1))) = .ok true := by
    decide +kernel
  obtain ⟨v, hv, hdecided⟩ := map_eq_ok.mp hrun
  obtain ⟨hsucceeds, hflushes, hvalues⟩ := of_decide_eq_true hdecided
  have hordered : (start v).Ordered [put 1 2, put 2 1] := .of_values hvalues
  obtain ⟨hstages, houtput⟩ :=
    row_keys_identify_rows hv [put 1 2] (put 2 1) hsucceeds hflushes hordered
  exact ⟨v, hv, hsucceeds, hflushes, hordered, hstages, houtput⟩

/-- **Where a ranking does not compare by an order, two rows come to have one key.** Integers
beyond 2⁵³ are compared with doubles as doubles, and with integers as they are. -/
theorem row_keys_identify_rows_fails :
    let functions : RowFunctions := fun _ v => v
    let q : Query :=
      { source := .collection "t" "t", orderBy := [⟨.ref ["t", "x"], ⟨.asc, .first, .lexical⟩⟩]
        limit := some 2 }
    let put (kind : ChangeKind) (k : Int64) (x : Value) : Operation :=
      .apply "t" ⟨kind, .int k, .object [("x", x)], none⟩
    let ops : List Operation :=
      [put .insert 1 (.int 9007199254740993),
        put .insert 2 (.float (Double.ofInt 9007199254740992)),
        put .insert 3 (.int 9007199254740992), put .delete 2 .null]
    let op : Operation := put .update 1 (.int 5)
    ∃ v, LiveView.ofQuery? functions id ⟨false, 10, 32⟩ true q = .ok v ∧
      (start v).Succeeds (ops ++ [op]) ∧ ((start v).run ops).Flushes op ∧
      ¬ ((start v).run (ops ++ [op])).output.IdentifiedBy Row.key := by
  intro functions q put ops op
  let row (x : Int64) (order : String) : Row :=
    { key := .plain (.int 1), value := .object [("x", .int x)], order := some order }
  have hrun : (LiveView.ofQuery? functions id ⟨false, 10, 32⟩ true q).map (fun v =>
      decide ((start v).Succeeds (ops ++ [op]) ∧ ((start v).run ops).Flushes op ∧
        Delta.total (row 9007199254740993 "a0") ((start v).run (ops ++ [op])).output = 1 ∧
        Delta.total (row 5 "Zz") ((start v).run (ops ++ [op])).output = 1)) = .ok true := by
    decide +kernel
  obtain ⟨v, hv, hdecided⟩ := map_eq_ok.mp hrun
  obtain ⟨hsucceeds, hflushes, hstale, hmoved⟩ := of_decide_eq_true hdecided
  refine ⟨v, hv, hsucceeds, hflushes, fun hid => ?_⟩
  have hsame := hid.unique (row 9007199254740993 "a0") (row 5 "Zz") (by rw [hstale]; decide)
    (by rw [hmoved]; decide) rfl
  exact absurd hsame (by decide +kernel)

end History

end DeltaView
