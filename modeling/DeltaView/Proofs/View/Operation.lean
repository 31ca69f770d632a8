import DeltaView.Proofs.Plan.Circuit
import DeltaView.View.Live

/-!
# Operations on a view

What can be done to a view that changes what it shows. Each operation gets the view ready and then
flushes it or not.

* `perform`: the calls of a view. `prepare`: the view right before the flush that a call makes, if
  it makes one.
* `requested`: where operations move the window. `flushed`: what a flush takes out of the graph.
  `emits`: what comes out at a node in it.
* **`performCases`**, `perform_of_flushes`, `perform_of_quiet`: a call is what it prepares, flushed or
  not, or it is refused.
* **`flushCases`**: what a flush comes to. **`flush_fold`**: it folds what it takes out of the graph
  into the rows, and answers with the changes of that.
-/

namespace DeltaView

inductive Operation where
  | begin
  | commit
  | apply (collection : String) (change : Change)
  | applyAll (collection : String) (changes : List Change)
  | flush
  | setWindow (offset : Int) (limit : Option Int)

/-- The window that was asked for last, after one more operation. -/
def Operation.moves (window : Option Window) : Operation → Option Window
  | .setWindow offset limit => some ⟨offset, limit⟩
  | _ => window

/-- The window that operations ask for last, if they ask for one. -/
def Operation.requested (ops : List Operation) : Option Window := ops.foldl moves none

theorem ViewRows.fold_nil (rows : ViewRows) : rows.fold [] = (rows, []) := by
  simp [fold, retractedKeys, inserted, putAll, eraseAll, restrict, changes, sortByKey]

namespace LiveView

/-- The collections as a view knows them. -/
def snapshot (v : LiveView) : Snapshot := fun name => (v.tables.get? name).getD []

/-- Carries an operation out. -/
def perform (v : LiveView) : Operation → LiveView × Except Error Batch
  | .begin =>
    match v.begin with
    | .ok v => (v, .ok [])
    | .error e => (v, .error e)
  | .commit => v.commit
  | .apply collection c => v.apply collection c
  | .applyAll collection changes => v.applyAll collection changes
  | .flush => v.flush
  | .setWindow offset limit => v.setWindow offset limit

/-- The view after what an operation does before it flushes, and whether it flushes then. -/
def prepare (v : LiveView) : Operation → LiveView × Bool
  | .begin => ({ v with inTransaction := true }, false)
  | .commit =>
    if v.inTransaction then ({ v with inTransaction := false }, true) else (v, false)
  | .apply collection c =>
    if c.fault?.isSome || !v.reads collection then (v, false)
    else (v.queue collection c, !(v.inTransaction || !v.autocommit))
  | .applyAll collection changes =>
    if !v.reads collection || (changes.findSome? Change.fault?).isSome then (v, false)
    else (changes.foldl (queue collection) v, !v.inTransaction)
  | .flush => (v, true)
  | .setWindow offset limit =>
    match v.circuit.windowNode with
    | none => (v, false)
    | some n =>
      (v.withGraph (v.circuit.graph.requestWindow n ⟨some offset, some limit⟩), !v.inTransaction)

variable {v w : LiveView}

/-- What one queued change leaves alone, several leave alone. -/
theorem foldl_queue_eq {α : Type} (f : LiveView → α) {collection : String}
    (hf : ∀ v c, f (v.queue collection c) = f v) (v : LiveView) (changes : List Change) :
    f (changes.foldl (queue collection) v) = f v := by
  induction changes generalizing v with
  | nil => rfl
  | cons c changes ih => exact (ih (v.queue collection c)).trans (hf v c)

/-- **What holds of a view holds until it flushes**, if opening and closing transactions, queued
changes and requests to move the window keep it. -/
theorem prepare_induction {P : LiveView → Prop} (h : P v)
    (transaction : ∀ b, P v → P { v with inTransaction := b })
    (queue : ∀ w collection c, P w → P (w.queue collection c))
    (window : ∀ n u, v.circuit.windowNode = some n →
      P v → P (v.withGraph (v.circuit.graph.requestWindow n u))) (op : Operation) :
    P (v.prepare op).1 := by
  cases op with
  | begin => exact transaction true h
  | commit =>
    dsimp only [prepare]
    split
    · exact transaction false h
    · exact h
  | apply collection c =>
    dsimp only [prepare]
    split
    · exact h
    · exact queue v collection c h
  | applyAll collection changes =>
    dsimp only [prepare]
    split
    · exact h
    · exact List.foldlRecOn changes (LiveView.queue collection) h fun w hw c _ =>
        queue w collection c hw
  | flush => exact h
  | setWindow offset limit =>
    dsimp only [prepare]
    split
    · exact h
    · rename_i n hn
      exact window n _ hn h

/-- What neither transactions, queued changes nor the graph concern, an operation leaves alone until
it flushes. -/
theorem prepare_keeps {α : Type} (f : LiveView → α)
    (htransaction : ∀ v b, f { v with inTransaction := b } = f v)
    (hqueue : ∀ collection v c, f (v.queue collection c) = f v)
    (hgraph : ∀ v g, f (v.withGraph g) = f v) (v : LiveView) (op : Operation) :
    f (v.prepare op).1 = f v :=
  prepare_induction (P := fun w => f w = f v) rfl (fun b _ => htransaction v b)
    (fun w collection c h => (hqueue collection w c).trans h) (fun _ _ _ _ => hgraph v _) op

@[simp] theorem queue_inTransaction (v : LiveView) (collection : String) (c : Change) :
    (v.queue collection c).inTransaction = v.inTransaction := rfl

@[simp] theorem queue_autocommit (v : LiveView) (collection : String) (c : Change) :
    (v.queue collection c).autocommit = v.autocommit := rfl

@[simp] theorem foldl_queue_inTransaction (v : LiveView) (collection : String)
    (changes : List Change) :
    (changes.foldl (queue collection) v).inTransaction = v.inTransaction :=
  foldl_queue_eq (·.inTransaction) (fun _ _ => rfl) v changes

@[simp] theorem withGraph_inTransaction (v : LiveView) (g : Graph) :
    (v.withGraph g).inTransaction = v.inTransaction := rfl

/-- How an operation goes on from what it has prepared: it flushes that, or leaves it for a later
flush, or is refused. -/
inductive PerformCases (v : LiveView) (op : Operation) : Prop
  | flushes (w : LiveView) (hprepare : v.prepare op = (w, true)) (hperform : v.perform op = w.flush)
  | waits (w : LiveView) (hprepare : v.prepare op = (w, false))
      (hperform : v.perform op = (w, .ok []))
  | refuses (w : LiveView) (e : Error) (hprepare : v.prepare op = (w, false))
      (hperform : v.perform op = (w, .error e))

theorem performCases (v : LiveView) (op : Operation) : v.PerformCases op := by
  cases op with
  | begin =>
    cases ht : v.inTransaction with
    | false => exact .waits _ rfl (by simp [perform, begin, ht])
    | true =>
      have hopen : ({ v with inTransaction := true } : LiveView) = v := by rw [← ht]
      exact .refuses v .transactionOpen (by rw [prepare, hopen]) (by simp [perform, begin, ht])
  | commit =>
    cases ht : v.inTransaction with
    | false => exact .refuses v .noTransaction (by simp [prepare, ht]) (by simp [perform, commit, ht])
    | true => exact .flushes _ (by simp [prepare, ht]; rfl) (by simp [perform, commit, ht])
  | apply collection c =>
    cases hfault : c.fault? with
    | some fault =>
      exact .refuses v (.change fault) (by simp [prepare, hfault]) (by simp [perform, apply, hfault])
    | none =>
      cases hreads : v.reads collection with
      | false =>
        exact .refuses v (.unknownCollection collection) (by simp [prepare, hreads])
          (by simp [perform, apply, hfault, hreads])
      | true =>
        cases hwaits : v.inTransaction || !v.autocommit with
        | false =>
          exact .flushes (v.queue collection c) (by simp [prepare, hfault, hreads, hwaits])
            (by simp [perform, apply, hfault, hreads, hwaits])
        | true =>
          exact .waits (v.queue collection c) (by simp [prepare, hfault, hreads, hwaits])
            (by simp [perform, apply, hfault, hreads, hwaits])
  | applyAll collection changes =>
    cases hreads : v.reads collection with
    | false =>
      exact .refuses v (.unknownCollection collection) (by simp [prepare, hreads])
        (by simp [perform, applyAll, hreads])
    | true =>
      cases hfault : changes.findSome? Change.fault? with
      | some fault =>
        exact .refuses v (.change fault) (by simp [prepare, hreads, hfault])
          (by simp [perform, applyAll, hreads, hfault])
      | none =>
        cases ht : v.inTransaction with
        | false =>
          exact .flushes (changes.foldl (queue collection) v)
            (by simp [prepare, hreads, hfault, ht]) (by simp [perform, applyAll, hreads, hfault, ht])
        | true =>
          exact .waits (changes.foldl (queue collection) v)
            (by simp [prepare, hreads, hfault, ht]) (by simp [perform, applyAll, hreads, hfault, ht])
  | flush => exact .flushes v rfl rfl
  | setWindow offset limit =>
    cases hnode : v.circuit.windowNode with
    | none =>
      exact .refuses v .noWindow (by simp [prepare, hnode]) (by simp [perform, setWindow, hnode])
    | some n =>
      cases ht : v.inTransaction with
      | false =>
        exact .flushes _ (by simp [prepare, hnode, ht]; rfl) (by simp [perform, setWindow, hnode, ht])
      | true =>
        exact .waits _ (by simp [prepare, hnode, ht]; rfl) (by simp [perform, setWindow, hnode, ht])

/-- **An operation that flushes** is a flush of what it has prepared. -/
theorem perform_of_flushes {op : Operation} (h : v.prepare op = (w, true)) :
    v.perform op = w.flush := by
  cases v.performCases op with
  | flushes w' hprepare hperform =>
    obtain ⟨rfl, -⟩ := Prod.mk.inj (hprepare.symm.trans h)
    exact hperform
  | waits w' hprepare _ => cases hprepare.symm.trans h
  | refuses w' e hprepare _ => cases hprepare.symm.trans h

theorem perform_of_quiet {op : Operation} (h : v.prepare op = (w, false)) :
    (v.perform op).1 = w := by
  cases v.performCases op with
  | flushes w' hprepare _ => cases hprepare.symm.trans h
  | waits w' hprepare hperform =>
    rw [hperform]
    exact congrArg Prod.fst (hprepare.symm.trans h)
  | refuses w' e hprepare hperform =>
    rw [hperform]
    exact congrArg Prod.fst (hprepare.symm.trans h)

/-! ## Flushes -/

/-- What a flush takes out of the graph. -/
def flushed (v : LiveView) : Delta Row :=
  match v.fed with
  | .error _ => []
  | .ok graph =>
    if graph.hasWork then
      match graph.run with
      | (_, some _) => []
      | (graph, none) => (graph.drainConsolidated v.circuit.sink).2
    else []

/-- What comes out at a node of the graph in a flush. -/
def emits (v : LiveView) (n : Nat) : Delta Row :=
  match v.fed with
  | .error _ => []
  | .ok graph => graph.runOut n

/-- The view with nothing queued. -/
def emptied (v : LiveView) : LiveView := { v with queued := [] }

/-- What a flush comes to: the graph does not take what is queued; or it has nothing to do then; or
its run fails; or the view collects what comes out of it. -/
inductive FlushCases (v : LiveView) : Prop
  | unfed (e : Error) (hfeed : v.fed = .error e)
      (hflush : v.flush = (v.emptied, .error e))
  | idle (graph : Graph) (hfeed : v.fed = .ok graph)
      (hidle : graph.Idle) (hflush : v.flush = (v.emptied.withGraph graph, .ok [])) (hout : v.flushed = [])
  | fails (graph graph' : Graph) (e : Error)
      (hfeed : v.fed = .ok graph) (hwork : graph.hasWork = true)
      (hrun : graph.run = (graph', some e))
      (hflush : v.flush = (v.emptied.withGraph graph', .error e))
  | runs (graph graph' : Graph)
      (hfeed : v.fed = .ok graph) (hwork : graph.hasWork = true)
      (hrun : graph.run = (graph', none))
      (hflush : v.flush =
        ((v.emptied.withGraph graph').collect.1, .ok (v.emptied.withGraph graph').collect.2))
      (hout : v.flushed = Delta.consolidate (graph'.drain v.circuit.sink).2.flatten)

theorem flushCases (v : LiveView) : v.FlushCases := by
  cases hfeed : v.fed with
  | error e => exact .unfed e hfeed (by simp [flush, hfeed, emptied])
  | ok graph =>
    cases hwork : graph.hasWork with
    | false =>
      exact .idle graph hfeed (Graph.hasWork_eq_false_iff.mp hwork)
        (by simp [flush, hfeed, hwork, emptied]) (by simp [flushed, hfeed, hwork])
    | true =>
      cases hrun : graph.run with
      | mk graph' error =>
        cases error with
        | some e =>
          exact .fails graph graph' e hfeed hwork hrun (by simp [flush, hfeed, hwork, hrun, emptied])
        | none =>
          exact .runs graph graph' hfeed hwork hrun (by simp [flush, hfeed, hwork, hrun, emptied])
            (by simp [flushed, hfeed, hwork, hrun, Graph.drainConsolidated])

/-- A flush that succeeds finds nothing to do, or runs the graph and drains its sink. -/
theorem flush_cases {batch : Batch} (h : v.flush = (w, .ok batch)) :
    ∃ graph, v.fed = .ok graph ∧
      v.emits = graph.runOut ∧
      ((graph.Idle ∧ w = v.emptied.withGraph graph ∧ batch = [] ∧ v.flushed = []) ∨
        ∃ graph', graph.run = (graph', none) ∧
          w.circuit = v.circuit.withGraph (graph'.drain v.circuit.sink).1 ∧
          w.tables = v.tables ∧ w.queued = [] ∧
          v.flushed = Delta.consolidate (graph'.drain v.circuit.sink).2.flatten ∧
          (w.rows, batch) = v.rows.fold v.flushed) := by
  have hemits : ∀ graph, v.fed = .ok graph →
      v.emits = graph.runOut := fun graph hfeed => by
    funext n
    rw [emits, hfeed]
  cases v.flushCases with
  | unfed e _ hflush => cases hflush.symm.trans h
  | idle graph hfeed hidle hflush hout =>
    obtain ⟨rfl, hbatch⟩ := Prod.mk.inj (hflush.symm.trans h)
    exact ⟨graph, hfeed, hemits graph hfeed,
      Or.inl ⟨hidle, rfl, (Except.ok.inj hbatch).symm, hout⟩⟩
  | fails graph graph' e _ _ _ hflush => cases hflush.symm.trans h
  | runs graph graph' hfeed _ hrun hflush hout =>
    obtain ⟨rfl, hbatch⟩ := Prod.mk.inj (hflush.symm.trans h)
    obtain rfl := Except.ok.inj hbatch
    refine ⟨graph, hfeed, hemits graph hfeed, Or.inr ⟨graph', hrun, rfl, rfl, rfl, hout, ?_⟩⟩
    rw [hout]
    rfl

/-- **A flush folds what it takes out of the graph into the rows**, and answers with the changes
of that. -/
theorem flush_fold {batch : Batch} (h : v.flush = (w, .ok batch)) :
    (w.rows, batch) = v.rows.fold v.flushed := by
  obtain ⟨graph, -, -, ⟨-, rfl, rfl, hout⟩ | ⟨graph', -, -, -, -, -, hfold⟩⟩ := flush_cases h
  · rw [hout, ViewRows.fold_nil]
    rfl
  · exact hfold

end LiveView

end DeltaView
