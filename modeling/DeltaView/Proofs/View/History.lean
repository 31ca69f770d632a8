import DeltaView.Proofs.Group.Run
import DeltaView.Proofs.Plan.OfQuery
import DeltaView.Proofs.Plan.Skeleton
import DeltaView.Proofs.View.Feed
import DeltaView.Proofs.View.Operation

/-!
# Histories of a view

Whatever is done to a view, and in whatever batches its changes come: what has come out of its
graph by then are the rows of its plan on the tables as they are.

* `History`: a view, all that its flushes took out of its graph, and the tables at each of them.
* `LiveView.Tracks`: the invariant. The circuit serves the plan, its inputs were sent the tables but
  for what is queued, its sink holds nothing back, and it is going to the window asked for last.
* `prepare_tracks`, `flush_tracks`: an operation keeps it up to its flush, and so does the flush.
* **`accumulated_output_exact`**: after every flush of every history.
* `settled?` computes the history of some operations.
-/

namespace DeltaView

open Graph (Computes Stands Accounts Ledger Seen AgreeTo Kept)

variable {functions : RowFunctions} {p : Plan} {all : List Snapshot} {window : Option Window}
  {ins : Nat → List Nat} {top out : Nat} {l : Ledger}

namespace LiveView

variable {v w : LiveView} {output : Delta Row}

/-- **What a view's graph has done so far**: its inputs were sent the tables but for what is
queued, its nodes have seen only values of some snapshots, what has reached its sink was taken out,
and it is going to the window that was asked for. -/
structure Tracks (functions : RowFunctions) (p : Plan) (all : List Snapshot)
    (window : Option Window) (v : LiveView) (output : Delta Row) (ins : Nat → List Nat)
    (top out : Nat) (l : Ledger) : Prop where
  serves : v.circuit.Serves functions p ins top out
  accounts : Accounts v.circuit.graph.nodes ins l
  seen : Seen functions v.circuit.inputs.of v.circuit.graph ins all top l.seen fun _ _ => False
  queued : v.queued.KeysNodup
  sent : ∀ name, ∀ n ∈ v.circuit.inputs.of name,
    Delta.Same (l.sent n ++ (v.queued.get? name).getD []) (v.snapshot name).rows
  output : Delta.Same output (l.emitted v.circuit.sink)
  taken : Delta.Same (l.emitted v.circuit.sink) (l.consumed v.circuit.sink 0)
  aims : p.atWindow v.circuit.target? = p.atWindow window

/-! ## Before a flush -/

theorem snapshot_queue (collection : String) (v : LiveView) (c : Change) (name : String) :
    (v.queue collection c).snapshot name =
      if collection = name then (c.applyTo (v.snapshot collection)).1 else v.snapshot name := by
  show ((v.tables.put collection (c.applyTo (v.snapshot collection)).1).get? name).getD [] = _
  rw [Table.get?_put]
  split <;> rfl

/-- A change is taken into its table, and what it makes of the rows is queued. -/
theorem Tracks.queue (h : Tracks functions p all window v output ins top out l)
    (collection : String) (c : Change) : Tracks functions p all window (v.queue collection c) output ins top out l := by
  refine ⟨h.serves, h.accounts, h.seen, Table.keysNodup_put h.queued, fun name n hn => ?_, h.output,
    h.taken, h.aims⟩
  have hsent := h.sent name n hn
  rw [snapshot_queue]
  show Delta.Same (_ ++ ((v.queued.put collection ((v.queued.get? collection).getD [] ++
    (c.applyTo (v.snapshot collection)).2)).get? name).getD []) _
  rw [Table.get?_put]
  by_cases hname : collection = name
  · subst hname
    rw [if_pos rfl, if_pos rfl, Option.getD_some, ← List.append_assoc]
    exact (hsent.append (.refl _)).trans (c.applyTo_rows _)
  · rw [if_neg hname, if_neg hname]
    exact hsent

theorem Tracks.queueAll (h : Tracks functions p all window v output ins top out l)
    (collection : String) (changes : List Change) :
    Tracks functions p all window (changes.foldl (LiveView.queue collection) v) output ins top out
      l := by
  induction changes generalizing v with
  | nil => exact h
  | cons c changes ih => exact ih (h.queue collection c)

/-- A request to move the window concerns no node below the window. -/
theorem Tracks.request (h : Tracks functions p all window v output ins top out l) {n : Nat}
    (hn : v.circuit.windowNode = some n) (w : Window) :
    Tracks functions p all (some w)
      (v.withGraph (v.circuit.graph.requestWindow n ⟨some w.offset, some w.limit⟩)) output ins top
      out l := by
  obtain ⟨hserves, hacc, hother, before, htarget⟩ :=
    h.serves.request h.accounts hn ⟨some w.offset, some w.limit⟩
  refine ⟨hserves, hacc, fun q m k hk hl hr hq ⟨operator, hs⟩ => ?_, h.queued, h.sent, h.output,
    h.taken, congrArg p.atWindow htarget⟩
  have hm : m < k := hs.below m List.mem_cons_self
  have hagree : AgreeTo (v.circuit.graph.requestWindow n ⟨some w.offset, some w.limit⟩)
      v.circuit.graph ins ins m := fun i hi => ⟨(hother i (Nat.ne_of_lt (by omega))).symm, rfl⟩
  refine h.seen q m k hk hl hr (hq.agree (fun _ _ => id) hagree) ?_
  by_cases hkt : k = top
  · -- At the window itself another operator stands now, over the same producer.
    subst hkt
    obtain ⟨rfl, terms, window, q', rfl⟩ := h.serves.window n hn
    obtain ⟨q'', hq'', hc⟩ := h.serves.plan
    obtain rfl := Plan.output.inj hq''
    obtain ⟨m', -, hs'⟩ := hc
    obtain rfl : m' = m := List.singleton_inj.mp (hs'.ins.symm.trans hs.ins)
    exact ⟨_, hs'⟩
  · exact ⟨operator, (hother k hkt).symm.trans hs.kind, hs.ins, hs.below⟩

/-- What an operation does before it flushes turns a window at most. -/
theorem prepare_fixed (v : LiveView) (op : Operation) :
    v.circuit.Fixed (v.prepare op).1.circuit :=
  prepare_induction (P := fun w => v.circuit.Fixed w.circuit) (.refl _) (fun _ h => h)
    (fun _ _ _ h => h) (fun _ _ _ _ => ⟨Graph.skeleton_requestWindow .., rfl, rfl⟩) op

/-- **What an operation does before it flushes** leaves the graph to what it has done. -/
theorem prepare_tracks (h : Tracks functions p all window v output ins top out l) (op : Operation) :
    Tracks functions p all (op.moves window) (v.prepare op).1 output ins top out l := by
  cases op with
  | begin => exact ⟨h.serves, h.accounts, h.seen, h.queued, h.sent, h.output, h.taken, h.aims⟩
  | commit =>
    dsimp only [prepare]
    split
    · exact ⟨h.serves, h.accounts, h.seen, h.queued, h.sent, h.output, h.taken, h.aims⟩
    · exact h
  | apply collection c =>
    dsimp only [prepare]
    split
    · exact h
    · exact h.queue collection c
  | applyAll collection changes =>
    dsimp only [prepare]
    split
    · exact h
    · exact h.queueAll collection changes
  | flush => exact h
  | setWindow offset limit =>
    dsimp only [prepare]
    split
    · -- Without a window there is none to move.
      rename_i hn
      have hwindow := h.serves.unwindowed hn
      exact { h with aims := (hwindow _).trans (hwindow _).symm }
    · rename_i n hn
      exact h.request hn ⟨offset, limit⟩

/-! ## Flushes -/

/-- Once everything has been sent and nothing is left to do, the output is the rows of the plan,
and the window that was asked for is in force. -/
theorem Tracks.shows (h : Tracks functions p all window v output ins top out l) (hq : v.queued = [])
    (hidle : v.circuit.graph.Idle) (ht : v.snapshot ∈ all) (hl : p.Layered)
    (hr : p.Regular functions all) :
    Delta.Shows output ((p.atWindow v.window?).rows functions v.snapshot) ∧
      p.atWindow v.window? = p.atWindow window := by
  have hfeeds : Graph.Feeds v.circuit.inputs.of l v.snapshot := fun name n hn => by
    have := h.sent name n hn
    rw [hq] at this
    simpa [Table.get?] using this
  have hseen : Seen functions v.circuit.inputs.of v.circuit.graph ins all top l.seen l.present :=
    fun q m n hn hql hqr hq hs x hx =>
      Or.inl ((h.seen q m n hn hql hqr hq hs x hx).resolve_right id)
  have hshows := h.serves.consumed_shows h.accounts hidle hfeeds ht hseen hl hr
  refine ⟨hshows.congr (h.output.trans h.taken).symm (.refl _), ?_⟩
  rw [← h.aims, window?, Circuit.window?_eq_target? hidle]

/-- What a flush that succeeds leaves: nothing queued, nothing to do, and the tables as they were. -/
structure Flushed (v w : LiveView) (l l' : Ledger) : Prop where
  queued : w.queued = []
  idle : w.circuit.graph.Idle
  snapshot : w.snapshot = v.snapshot
  fixed : v.circuit.Fixed w.circuit
  continues : Circuit.Continues v.circuit.sink l l' v.emits

/-- What the inputs were sent once all that is queued has been fed. -/
theorem Tracks.feeds (h : Tracks functions p all window v output ins top out l) {l1 : Ledger}
    (hsent : ∀ name, ∀ n ∈ v.circuit.inputs.of name,
      Delta.Same (l1.sent n) (l.sent n ++ (v.queued.get? name).getD [])) :
    Graph.Feeds v.circuit.inputs.of l1 v.snapshot := fun name n hn =>
  (hsent name n hn).trans (h.sent name n hn)

/-- A flush that has nothing to run: nothing is queued that changes anything. -/
theorem Tracks.flush_idle (h : Tracks functions p all window v output ins top out l)
    (hfeed : v.fed = .ok v.circuit.graph)
    (hidle : v.circuit.graph.Idle) (hemits : v.emits = v.circuit.graph.runOut)
    (hout : v.flushed = []) :
    ∃ l', Tracks functions p all window v.emptied (output ++ v.flushed) ins top out l' ∧
      Flushed v v.emptied l l' := by
  obtain ⟨l1, ha, -, hc, he, hs, hsent⟩ :=
    fed_spec h.serves.ready.wired h.accounts h.serves.inputs h.queued hfeed
  refine ⟨l1, { serves := h.serves, accounts := ha, seen := hs ▸ h.seen, queued := List.nodup_nil,
                sent := fun name n hn => ?_, output := ?_, taken := ?_, aims := h.aims },
    { queued := rfl, idle := hidle, snapshot := rfl, fixed := .refl _,
      continues := ⟨fun k _ => ?_, fun k x hx => Or.inl (hs ▸ hx)⟩ }⟩
  · show Delta.Same (l1.sent n ++ []) _
    rw [List.append_nil]
    exact h.feeds hsent name n hn
  · rw [hout, List.append_nil, he]
    exact h.output
  · rw [he, hc]
    exact h.taken
  · rw [hemits, Graph.runOut_of_idle hidle, List.append_nil, he]

/-- A flush that runs the graph and drains its sink. -/
theorem Tracks.flush_run (h : Tracks functions p all window v output ins top out l)
    (ht : v.snapshot ∈ all) {g graph : Graph}
    (hfeed : v.fed = .ok g)
    (hemits : v.emits = g.runOut) (hrun : g.run = (graph, none))
    (hcircuit : w.circuit = v.circuit.withGraph (graph.drain v.circuit.sink).1)
    (htables : w.tables = v.tables) (hqueued : w.queued = [])
    (hout : v.flushed = Delta.consolidate (graph.drain v.circuit.sink).2.flatten) :
    ∃ l', Tracks functions p all window w (output ++ v.flushed) ins top out l' ∧
      Flushed v w l l' := by
  obtain ⟨l1, ha1, hk1, hc1, he1, hs1, hsent1⟩ :=
    fed_spec h.serves.ready.wired h.accounts h.serves.inputs h.queued hfeed
  have hfeeds := h.feeds hsent1
  have hseen1 := h.seen.kept hk1
  rw [← hs1] at hseen1
  obtain ⟨l2, hsettles⟩ := (h.serves.kept hk1).settles ha1 hfeeds ht hseen1 hrun
  have hk : Kept v.circuit.graph (graph.drain v.circuit.sink).1 := hk1.trans hsettles.kept
  have hsnap : w.snapshot = v.snapshot := by
    unfold snapshot
    rw [htables]
  have htarget : w.circuit.target? = v.circuit.target? := by
    rw [hcircuit]
    exact Circuit.target?_of_kept hk
  refine ⟨l2, { serves := hcircuit ▸ h.serves.kept hk, accounts := ?_, seen := ?_,
                queued := hqueued ▸ List.nodup_nil, sent := fun name n hn => ?_, output := ?_,
                taken := ?_, aims := htarget ▸ h.aims },
    { queued := hqueued, idle := ?_, snapshot := hsnap, fixed := hcircuit ▸ .of_kept hk,
      continues := ⟨fun k hk => ?_, fun k x hx => ?_⟩ }⟩
  · rw [hcircuit]
    exact hsettles.accounts
  · rw [hcircuit]
    exact hsettles.seen
  · rw [hcircuit] at hn
    rw [hqueued, hsnap, hsettles.sent]
    show Delta.Same (l1.sent n ++ []) _
    rw [List.append_nil]
    exact hfeeds name n hn
  · rw [hcircuit, hout]
    refine Delta.Same.trans ?_ (Delta.Same.of_eq hsettles.drained.symm)
    refine Delta.Same.append (h.output.trans ?_) (Delta.same_consolidate _)
    exact .of_eq (congrFun he1 _).symm
  · rw [hcircuit]
    exact hsettles.taken
  · rw [hcircuit]
    exact hsettles.idle
  · rw [hsettles.continues.emitted k hk, he1, hemits]
    rfl
  · rw [← hs1]
    exact hsettles.continues.seen k x hx

/-- **A flush that succeeds** leaves nothing to do, and its output makes up for what was queued. -/
theorem flush_tracks (h : Tracks functions p all window v output ins top out l)
    (ht : v.snapshot ∈ all) {batch : Batch} (hf : v.flush = (w, .ok batch)) :
    ∃ l', Tracks functions p all window w (output ++ v.flushed) ins top out l' ∧
      Flushed v w l l' := by
  obtain ⟨g, hfeed, hemits, ⟨hidle, rfl, -, hout⟩ |
    ⟨graph, hrun, hcircuit, htables, hqueued, hout, -⟩⟩ := flush_cases hf
  · obtain rfl := Graph.sendAll_idle hfeed hidle
    exact h.flush_idle hfeed hidle hemits hout
  · exact h.flush_run ht hfeed hemits hrun hcircuit htables hqueued hout

end LiveView

/-! ## Histories -/

/-- A view after some operations, with all that its flushes took out of its graph, and the tables
at each of them. -/
structure History where
  view : LiveView
  output : Delta Row
  snapshots : List Snapshot

namespace History

def start (v : LiveView) : History := ⟨v, [], []⟩

/-- One more operation. -/
def step (h : History) (op : Operation) : History :=
  let (w, flushes) := h.view.prepare op
  { view := (h.view.perform op).1
    output := if flushes then h.output ++ w.flushed else h.output
    snapshots := if flushes then h.snapshots ++ [w.snapshot] else h.snapshots }

def run (h : History) (ops : List Operation) : History := ops.foldl step h

/-- Does an operation flush the view? -/
def Flushes (h : History) (op : Operation) : Prop := (h.view.prepare op).2 = true

/-- Every flush that some operations make succeeds. -/
def Succeeds (h : History) : List Operation → Prop
  | [] => True
  | op :: ops =>
    (h.Flushes op → ∃ batch, (h.view.perform op).2 = .ok batch) ∧ (h.step op).Succeeds ops

theorem succeeds_append {h : History} {ops ops' : List Operation} :
    h.Succeeds (ops ++ ops') ↔ h.Succeeds ops ∧ (h.run ops).Succeeds ops' := by
  induction ops generalizing h with
  | nil => exact ⟨fun h => ⟨trivial, h⟩, And.right⟩
  | cons op ops ih =>
    show _ ∧ (h.step op).Succeeds (ops ++ ops') ↔ (_ ∧ _) ∧ ((h.step op).run ops).Succeeds ops'
    rw [ih, and_assoc]

theorem snapshots_run (h : History) (ops : List Operation) :
    h.snapshots ⊆ (h.run ops).snapshots := by
  induction ops generalizing h with
  | nil => exact List.Subset.refl _
  | cons op ops ih =>
    refine List.Subset.trans ?_ (ih (h.step op))
    unfold step
    dsimp only
    split
    · exact List.subset_append_left _ _
    · exact List.Subset.refl _

/-- The invariant of a history in which a window was asked for last. -/
def Holds (functions : RowFunctions) (p : Plan) (all : List Snapshot) (window : Option Window)
    (h : History) : Prop :=
  ∃ ins top out l, h.view.Tracks functions p all window h.output ins top out l

/-- What comes out at a node of the graph while an operation is carried out. -/
def emits (h : History) (op : Operation) (n : Nat) : Delta Row :=
  if (h.view.prepare op).2 then (h.view.prepare op).1.emits n else []

/-- What an operation does to a view, and to the ledger that tells what its graph has done. -/
structure Advances (h : History) (op : Operation) (l l' : Ledger) : Prop where
  fixed : h.view.circuit.Fixed (h.step op).view.circuit
  snapshot : (h.step op).view.snapshot = (h.view.prepare op).1.snapshot
  continues : Circuit.Continues h.view.circuit.sink l l' (h.emits op)
  quiet : ¬ h.Flushes op → l' = l
  flushed : h.Flushes op → (h.step op).view.queued = [] ∧ (h.step op).view.circuit.graph.Idle

theorem snapshot_mem {h : History} {op : Operation} (hf : h.Flushes op) :
    (h.view.prepare op).1.snapshot ∈ (h.step op).snapshots := by
  have hsnapshots : (h.step op).snapshots = h.snapshots ++ [(h.view.prepare op).1.snapshot] :=
    if_pos hf
  rw [hsnapshots]
  exact List.mem_append_right _ List.mem_cons_self

theorem flush_of_flushes {h : History} {op : Operation} (hf : h.Flushes op) :
    (h.view.prepare op).1.flush = ((h.step op).view, (h.view.perform op).2) :=
  (LiveView.perform_of_flushes (Prod.ext rfl hf : h.view.prepare op = (_, true))).symm

theorem output_of_flushes {h : History} {op : Operation} (hf : h.Flushes op) :
    (h.step op).output = h.output ++ (h.view.prepare op).1.flushed := if_pos hf

theorem step_of_quiet {h : History} {op : Operation} (hf : ¬ h.Flushes op) :
    (h.step op).view = (h.view.prepare op).1 ∧ (h.step op).output = h.output := by
  have hf' : (h.view.prepare op).2 = false := by simpa [Flushes] using hf
  exact ⟨LiveView.perform_of_quiet (Prod.ext rfl hf' : h.view.prepare op = (_, false)), if_neg hf⟩

/-- **One operation keeps what the view tracks**, and a flush leaves nothing to do. -/
theorem step_tracks {h : History} {window : Option Window}
    (ht : h.view.Tracks functions p all window h.output ins top out l) (op : Operation)
    (hok : h.Flushes op → ∃ batch, (h.view.perform op).2 = .ok batch)
    (hall : (h.step op).snapshots ⊆ all) :
    ∃ l', (h.step op).view.Tracks functions p all (op.moves window) (h.step op).output ins top out
      l' ∧ h.Advances op l l' := by
  have hprep := LiveView.prepare_tracks ht op
  have hfixed := LiveView.prepare_fixed h.view op
  have hemits : ∀ n, h.emits op n = if (h.view.prepare op).2 then (h.view.prepare op).1.emits n
      else [] := fun _ => rfl
  by_cases hf : h.Flushes op
  · obtain ⟨batch, hbatch⟩ := hok hf
    have hflush := flush_of_flushes hf
    rw [hbatch] at hflush
    obtain ⟨l', htracks, hflushed⟩ :=
      LiveView.flush_tracks hprep (hall (snapshot_mem hf)) hflush
    refine ⟨l', ?_, hfixed.trans hflushed.fixed, hflushed.snapshot, ?_, fun hq => absurd hf hq,
      fun _ => ⟨hflushed.queued, hflushed.idle⟩⟩
    · rw [output_of_flushes hf]
      exact htracks
    · rw [← hfixed.sink, show h.emits op = (h.view.prepare op).1.emits from
        funext fun n => (hemits n).trans (if_pos hf)]
      exact hflushed.continues
  · obtain ⟨hview, hout⟩ := step_of_quiet hf
    refine ⟨l, ?_, ?_, congrArg LiveView.snapshot hview, .refl _ l fun n => ?_, fun _ => rfl,
      fun hq => absurd hq hf⟩
    · rw [hview, hout]
      exact hprep
    · rw [hview]
      exact hfixed
    · exact (hemits n).trans (if_neg hf)

/-- **One operation keeps the invariant**, and after a flush the output is the rows of the plan. -/
theorem step_holds {h : History} (hh : h.Holds functions p all window) (op : Operation)
    (hok : h.Flushes op → ∃ batch, (h.view.perform op).2 = .ok batch)
    (hall : (h.step op).snapshots ⊆ all) (hl : p.Layered) (hr : p.Regular functions all) :
    (h.step op).Holds functions p all (op.moves window) ∧
      (h.Flushes op → Delta.Shows (h.step op).output
        ((p.atWindow (h.step op).view.window?).rows functions (h.step op).view.snapshot) ∧
        p.atWindow (h.step op).view.window? = p.atWindow (op.moves window)) := by
  obtain ⟨ins, top, out, l, ht⟩ := hh
  obtain ⟨l', htracks, hadv⟩ := step_tracks ht op hok hall
  refine ⟨⟨ins, top, out, l', htracks⟩, fun hf => ?_⟩
  obtain ⟨hqueued, hidle⟩ := hadv.flushed hf
  exact htracks.shows hqueued hidle (hadv.snapshot ▸ hall (snapshot_mem hf)) hl hr

/-- Operations keep the invariant. -/
theorem run_holds {h : History} (hh : h.Holds functions p all window) (ops : List Operation)
    (hok : h.Succeeds ops) (hall : (h.run ops).snapshots ⊆ all) (hl : p.Layered)
    (hr : p.Regular functions all) :
    (h.run ops).Holds functions p all (ops.foldl Operation.moves window) := by
  induction ops generalizing h window with
  | nil => exact hh
  | cons op ops ih =>
    have hstep : (h.step op).snapshots ⊆ all :=
      List.Subset.trans (snapshots_run (h.step op) ops) hall
    exact ih (step_holds hh op hok.1 hstep hl hr).1 hok.2 hall

/-- **A query that has a plan has a view**, which has done nothing. -/
theorem start_tracks (functions : RowFunctions) (objects : Nat → Nat) {optimizer : Optimizer}
    {q : Query} (hp : Plan.ofQuery? (optimizer.optimize q) = .ok p) (autocommit : Bool) :
    ∃ v ins top out, LiveView.ofQuery? functions objects optimizer autocommit q = .ok v ∧
      v.Tracks functions p all none [] ins top out .empty := by
  obtain ⟨-, q', rfl⟩ := Plan.ofQuery?_layered hp
  obtain ⟨c, ins, top, out, hc, hserves, hacc, htarget⟩ := Circuit.ofPlan?_serves functions objects q'
  exact ⟨_, ins, top, out, bind_eq_ok.mpr ⟨_, hp, bind_eq_ok.mpr ⟨c, hc, rfl⟩⟩, hserves, hacc,
    fun _ _ _ _ _ _ _ _ _ h => h.elim, List.nodup_nil, fun _ _ _ => .refl _, .refl _, .refl _,
    htarget.trans (Plan.atWindow_none _).symm⟩

theorem start_holds (functions : RowFunctions) (objects : Nat → Nat) {optimizer : Optimizer}
    {q : Query} (hp : Plan.ofQuery? (optimizer.optimize q) = .ok p) (autocommit : Bool) :
    ∃ v, LiveView.ofQuery? functions objects optimizer autocommit q = .ok v ∧
      (start v).Holds functions p all none := by
  obtain ⟨v, ins, top, out, hv, ht⟩ := start_tracks functions objects hp autocommit
  exact ⟨v, hv, ins, top, out, .empty, ht⟩

/-- What has been done to a view of a query up to a flush, in which every flush has succeeded and
a window was asked for last. -/
def Settled (functions : RowFunctions) (optimizer : Optimizer) (q : Query) (window : Option Window)
    (h : History) : Prop :=
  ∃ objects autocommit v ops op,
    LiveView.ofQuery? functions objects optimizer autocommit q = .ok v ∧
    (start v).Succeeds (ops ++ [op]) ∧ ((start v).run ops).Flushes op ∧
    h = (start v).run (ops ++ [op]) ∧ window = Operation.requested (ops ++ [op])

/-- **A settled history has put out the rows of the plan**, with the window that was asked for,
which is in force. -/
theorem Settled.shows {optimizer : Optimizer} {q : Query} {h : History}
    (hs : h.Settled functions optimizer q window)
    (hp : Plan.ofQuery? (optimizer.optimize q) = .ok p) (hr : p.Regular functions h.snapshots) :
    Delta.Shows h.output ((p.atWindow window).rows functions h.view.snapshot) ∧
      p.atWindow h.view.window? = p.atWindow window := by
  obtain ⟨objects, autocommit, v, ops, op, hv, hok, hflushes, hh, rfl⟩ := hs
  obtain rfl : h = ((start v).run ops).step op := hh.trans (List.foldl_append ..)
  obtain ⟨hok, hlastok, -⟩ := succeeds_append.mp hok
  obtain ⟨hl, -⟩ := Plan.ofQuery?_layered hp
  obtain ⟨v', hv', hstart⟩ := start_holds functions objects hp autocommit
  obtain rfl := Except.ok.inj (hv'.symm.trans hv)
  have hholds := run_holds hstart ops hok (snapshots_run _ [op]) hl hr
  obtain ⟨hshows, hwindow⟩ :=
    (step_holds hholds op hlastok (List.Subset.refl _) hl hr).2 hflushes
  have hrequested : Operation.requested (ops ++ [op]) =
      op.moves (ops.foldl Operation.moves none) := List.foldl_append ..
  rw [hrequested, ← hwindow]
  exact ⟨hshows, rfl⟩

/-! ### Histories that are computed -/

instance decidableFlushes (h : History) (op : Operation) : Decidable (h.Flushes op) :=
  inferInstanceAs (Decidable (_ = true))

instance decidableSucceeds : (h : History) → (ops : List Operation) → Decidable (h.Succeeds ops)
  | _, [] => .isTrue trivial
  | h, op :: ops =>
    have : Decidable (∃ batch, (h.view.perform op).2 = .ok batch) :=
      match (h.view.perform op).2 with
      | .ok batch => .isTrue ⟨batch, rfl⟩
      | .error _ => .isFalse fun ⟨_, h⟩ => nomatch h
    have := decidableSucceeds (h.step op) ops
    inferInstanceAs (Decidable (_ ∧ _))

/-- What operations do to a view of a query, if every flush succeeds and the last one flushes. -/
def settled? (functions : RowFunctions) (objects : Nat → Nat) (optimizer : Optimizer)
    (autocommit : Bool) (q : Query) (ops : List Operation) (op : Operation) : Option History :=
  match LiveView.ofQuery? functions objects optimizer autocommit q with
  | .error _ => none
  | .ok v =>
    if (start v).Succeeds (ops ++ [op]) ∧ ((start v).run ops).Flushes op then
      some ((start v).run (ops ++ [op]))
    else none

/-- A history that is computed is settled. -/
theorem exists_settled {α : Type} {objects : Nat → Nat} {optimizer : Optimizer} {autocommit : Bool}
    {q : Query} {ops : List Operation} {op : Operation} {f : History → α} {a : α}
    (hs : (settled? functions objects optimizer autocommit q ops op).map f = some a) :
    ∃ h : History,
      h.Settled functions optimizer q (Operation.requested (ops ++ [op])) ∧ f h = a := by
  obtain ⟨h, hs, ha⟩ := Option.map_eq_some_iff.mp hs
  refine ⟨h, ?_, ha⟩
  unfold settled? at hs
  split at hs
  · exact absurd hs (by simp)
  · rename_i v hv
    split at hs
    · rename_i hrun
      exact ⟨objects, autocommit, v, ops, op, hv, hrun.1, hrun.2, (Option.some.inj hs).symm, rfl⟩
    · exact absurd hs (by simp)

/-- **After every flush of every history, what has come out of the graph are the rows of the plan**
on the tables as they are, with the window that is in force. -/
theorem accumulated_output_exact {objects : Nat → Nat} {optimizer : Optimizer} {autocommit : Bool}
    {q : Query} {v : LiveView}
    (hv : LiveView.ofQuery? functions objects optimizer autocommit q = .ok v)
    (hp : Plan.ofQuery? (optimizer.optimize q) = .ok p) (ops : List Operation) (op : Operation)
    (hok : (start v).Succeeds (ops ++ [op])) (hflushes : ((start v).run ops).Flushes op)
    (hr : p.Regular functions ((start v).run (ops ++ [op])).snapshots) :
    let h := (start v).run (ops ++ [op])
    Delta.Same (Delta.mapItems Row.unordered h.output)
      ((p.atWindow h.view.window?).rows functions h.view.snapshot) := by
  intro h
  have hs : h.Settled functions optimizer q (Operation.requested (ops ++ [op])) :=
    ⟨objects, autocommit, v, ops, op, hv, hok, hflushes, rfl, rfl⟩
  obtain ⟨hshows, hwindow⟩ := hs.shows hp hr
  rw [hwindow]
  exact hshows

/-- Users with the number of their posts, over two transactions: the first one puts in users and
posts; in the second one a post goes, another one changes hands, and a user goes. -/
theorem accumulated_output_of_grouped_join :
    let functions : RowFunctions := fun _ v => v
    let q : Query :=
      { source := .collection "users" "u"
        joins := [⟨.left, .collection "posts" "p", .ref ["u", "id"], .ref ["p", "author"]⟩]
        groupBy := [.ref ["u", "name"]]
        select := some [⟨"name", .ref ["u", "name"]⟩,
          ⟨"posts", .aggregate "count" [.ref ["p", "author"]]⟩] }
    let user (kind : ChangeKind) (id : Int64) (name : String) : Operation :=
      .apply "users" ⟨kind, .int id, .object [("id", .int id), ("name", .string name)], none⟩
    let post (kind : ChangeKind) (key author : Int64) : Operation :=
      .apply "posts" ⟨kind, .int key, .object [("author", .int author)], none⟩
    let ops : List Operation :=
      [.begin, user .insert 1 "ann", user .insert 2 "bob", user .insert 3 "cleo", post .insert 1 1,
        post .insert 2 1, post .insert 3 2, .commit, .begin, post .delete 1 1, post .update 2 2,
        user .delete 3 "cleo"]
    let row (name : String) (posts : Int64) : Row :=
      { key := .plain (.string name)
        value := .object [("name", .string name), ("posts", .int posts)] }
    ∃ v p, LiveView.ofQuery? functions id ⟨true, 1, 1⟩ true q = .ok v ∧
      Plan.ofQuery? (Optimizer.optimize ⟨true, 1, 1⟩ q) = .ok p ∧
      (start v).Succeeds (ops ++ [.commit]) ∧ ((start v).run ops).Flushes .commit ∧
      p.Regular functions ((start v).run (ops ++ [.commit])).snapshots ∧
      let h := (start v).run (ops ++ [.commit])
      h.snapshots.length = 2 ∧
        h.output = [(row "ann" 2, 1), (row "bob" 1, 1), (row "cleo" 0, 1), (row "ann" 2, -1),
          (row "ann" 0, 1), (row "bob" 1, -1), (row "bob" 2, 1), (row "cleo" 0, -1)] ∧
        Delta.Same (Delta.mapItems Row.unordered h.output)
          ((p.atWindow h.view.window?).rows functions h.view.snapshot) := by
  intro functions q user post ops row
  let terms : GroupTerms := ⟨[.ref ["u", "name"]], [⟨"posts", .count, .ref ["p", "author"]⟩],
    [("name", .keyPart 0), ("posts", .aggregate "posts")]⟩
  have hplan : Plan.ofQuery? (Optimizer.optimize ⟨true, 1, 1⟩ q) =
      .ok (.output (.group terms (.join .left (.ref ["u", "id"]) (.ref ["p", "author"])
        (.named "u" (.scan "users")) (.named "p" (.scan "posts"))))) := by decide +kernel
  -- What the operations do is computed at once, and then read off.
  have hrun : (LiveView.ofQuery? functions id ⟨true, 1, 1⟩ true q).map (fun v =>
      decide ((start v).Succeeds (ops ++ [.commit]) ∧ ((start v).run ops).Flushes .commit ∧
        ((start v).run (ops ++ [.commit])).snapshots.length = 2 ∧
        ((start v).run (ops ++ [.commit])).output =
          [(row "ann" 2, 1), (row "bob" 1, 1), (row "cleo" 0, 1), (row "ann" 2, -1),
            (row "ann" 0, 1), (row "bob" 1, -1), (row "bob" 2, 1), (row "cleo" 0, -1)])) =
      .ok true := by decide +kernel
  obtain ⟨v, hv, hdecided⟩ := map_eq_ok.mp hrun
  obtain ⟨hsucceeds, hflushes, htwo, hout⟩ := of_decide_eq_true hdecided
  -- A count does not depend on the order of the members.
  have hsteady : ∀ d : Delta Row, terms.rule.Steady d := GroupRule.steady_of_perm fun a ha _ _ hp =>
    Aggregate.compute_count_perm (congrArg Aggregate.kind (List.mem_singleton.mp ha)) hp
  have hregular : Plan.Regular functions ((start v).run (ops ++ [.commit])).snapshots
      (.output (.group terms (.join .left (.ref ["u", "id"]) (.ref ["p", "author"])
        (.named "u" (.scan "users")) (.named "p" (.scan "posts"))))) :=
    ⟨⟨trivial, trivial⟩, fun _ _ => hsteady _⟩
  exact ⟨v, _, hv, hplan, hsucceeds, hflushes, hregular, htwo, hout,
    accumulated_output_exact hv hplan ops .commit hsucceeds hflushes hregular⟩

end History

end DeltaView
