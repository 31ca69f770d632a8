import DeltaView.Proofs.Dataflow.Failure
import DeltaView.Proofs.Plan.Level
import DeltaView.Proofs.View.Subscription

/-!
# Calls that are refused

A call is refused before anything is done: a change that is not valid, a collection that the view
does not read, a transaction that is open or is not, a window without ORDER BY, a subscription that
is not there. What goes wrong in a flush is something else.

* `Call`, `Answer`, `serve`: what a view is asked for and what it answers, one call after the other.
* `Refuses`: the calls that are refused, by what is wrong with them. **`refuses_iff`**: they are those
  that are answered with such an error.
* **`serve_accepted`**: refused calls may be left out, all of them at once.
* **`refused_leaves_no_trace`**: with a call that is refused and without it, all later calls are
  answered alike.
* **`applyAll_eq_applyEach`**: changes that are applied together are a transaction of their own, in
  which one is applied after the other.
-/

namespace DeltaView

/-- The circuit of a plan has a window to move if the plan ends with a ranking. -/
theorem Circuit.windowNode_eq_none_iff {functions : RowFunctions} {objects : Nat → Nat} {p : Plan}
    {c : Circuit} (h : ofPlan? functions objects (.output p) = .ok c) :
    c.windowNode = none ↔ p.isRank = false := by
  obtain ⟨c', ins, out, hc, hmade⟩ := ofPlan?_made functions objects (.output p)
  obtain rfl := Except.ok.inj (h.symm.trans hc)
  obtain ⟨top, -, -, hwindow⟩ := hmade.output p rfl
  rw [hwindow]
  cases p.isRank <;> simp

/-- The errors of calls that are refused. -/
def Error.isRefusal : Error → Bool
  | .change _ | .unknownCollection _ | .transactionOpen | .noTransaction | .noWindow
  | .unknownSubscription _ => true
  | _ => false

namespace LiveView

/-! ## ORDER BY -/

/-- The window of a view can be moved if the query it runs has ORDER BY. -/
def RanksOrdered (v : LiveView) : Prop := v.circuit.windowNode = none ↔ v.query.orderBy = []

theorem ranksOrdered_of_ofQuery? {functions : RowFunctions} {objects : Nat → Nat}
    {optimizer : Optimizer} {autocommit : Bool} {q : Query} {v : LiveView}
    (hv : ofQuery? functions objects optimizer autocommit q = .ok v) : v.RanksOrdered := by
  obtain ⟨p, hp, hv⟩ := bind_eq_ok.mp hv
  obtain ⟨c, hc, hv⟩ := bind_eq_ok.mp hv
  obtain rfl := Except.ok.inj hv
  obtain ⟨-, p, rfl⟩ := Plan.ofQuery?_layered hp
  exact (Circuit.windowNode_eq_none_iff hc).trans (Plan.isRank_of_ofQuery? hp)

/-! ## Calls and answers -/

/-- What a view is asked for: requests of those who change it and of those who follow it, and what it
shows. -/
inductive Call where
  | request (request : Session.Request)
  | results
  | get (key : Value)
  | window
  | inTransaction

/-- What a view answers. An operation that does not flush answers with an empty batch. -/
inductive Answer where
  | batch (batch : Batch)
  | subscribed (id : Nat)
  | unsubscribed
  | events (batches : List Batch)
  | rows (rows : List (Value × ViewRow))
  | value (value : Option Value)
  | window (window : Option Window)
  | inTransaction (isOpen : Bool)
  | error (e : Error)
deriving DecidableEq

def Answer.ofResult : Except Error Batch → Answer
  | .ok changes => .batch changes
  | .error e => .error e

/-- Does an answer say that the call was refused? -/
def Answer.isRefusal : Answer → Bool
  | .error e => e.isRefusal
  | _ => false

/-- One call: the view after it and its answer. -/
def call (v : LiveView) : Call → LiveView × Answer
  | .request (.operate op) => ((v.perform op).1, .ofResult (v.perform op).2)
  | .request .subscribe => (v.subscribe.1, .subscribed v.subscribe.2)
  | .request (.unsubscribe id) =>
    match v.unsubscribe id with
    | .ok v => (v, .unsubscribed)
    | .error e => (v, .error e)
  | .request (.drain id) =>
    match v.drainEvents id with
    | .ok (v, batches) => (v, .events batches)
    | .error e => (v, .error e)
  | .results => (v, .rows v.results)
  | .get key => (v, .value (v.get? key))
  | .window => (v, .window v.window?)
  | .inTransaction => (v, .inTransaction v.inTransaction)

/-- Calls one after the other: the view after them and all answers. -/
def serve (v : LiveView) : List Call → LiveView × List Answer
  | [] => (v, [])
  | c :: calls => (((v.call c).1.serve calls).1, (v.call c).2 :: ((v.call c).1.serve calls).2)

variable {v w : LiveView} {c : Call} {e : Error}

theorem serve_append (v : LiveView) (before after : List Call) :
    v.serve (before ++ after) = (((v.serve before).1.serve after).1,
      (v.serve before).2 ++ ((v.serve before).1.serve after).2) := by
  induction before generalizing v with
  | nil => rfl
  | cons c before ih => rw [List.cons_append, serve, ih, serve, List.cons_append]

/-! ## What is refused -/

/-- The calls that are refused, and with which error. -/
inductive Refuses (v : LiveView) : Call → Error → Prop
  | change {collection : String} {c : Change} {fault : Change.Fault} (h : c.fault? = some fault) :
    Refuses v (.request (.operate (.apply collection c))) (.change fault)
  | collection {collection : String} {c : Change} (h : c.fault? = none)
    (hc : v.reads collection = false) :
    Refuses v (.request (.operate (.apply collection c))) (.unknownCollection collection)
  | changes {collection : String} {changes before after : List Change} {c : Change}
    {fault : Change.Fault} (hc : v.reads collection = true) (hall : changes = before ++ c :: after)
    (hbefore : ∀ b ∈ before, b.fault? = none) (h : c.fault? = some fault) :
    Refuses v (.request (.operate (.applyAll collection changes))) (.change fault)
  | collections {collection : String} {changes : List Change} (hc : v.reads collection = false) :
    Refuses v (.request (.operate (.applyAll collection changes))) (.unknownCollection collection)
  | begin (h : v.inTransaction = true) : Refuses v (.request (.operate .begin)) .transactionOpen
  | commit (h : v.inTransaction = false) : Refuses v (.request (.operate .commit)) .noTransaction
  | setWindow {offset : Int} {limit : Option Int} (h : v.query.orderBy = []) :
    Refuses v (.request (.operate (.setWindow offset limit))) .noWindow
  | unsubscribe {id : Nat} (h : v.hub.queues.get? id = none) :
    Refuses v (.request (.unsubscribe id)) (.unknownSubscription id)
  | drain {id : Nat} (h : v.hub.queues.get? id = none) :
    Refuses v (.request (.drain id)) (.unknownSubscription id)

theorem call_operate {op : Operation} (h : v.perform op = (w, .error e)) :
    v.call (.request (.operate op)) = (w, .error e) := by
  simp only [call, h, Answer.ofResult]

/-- **A call that is refused is answered with its error, and the view is the same after it.** -/
theorem call_of_refuses (hv : v.RanksOrdered) (h : v.Refuses c e) : v.call c = (v, .error e) := by
  cases h with
  | change h => exact call_operate (by simp only [perform, apply, h])
  | collection h hc => exact call_operate (by simp [perform, apply, h, hc])
  | changes hc hall hbefore h =>
    have hfirst := List.findSome?_eq_some_iff.mpr ⟨_, _, _, hall, h, hbefore⟩
    exact call_operate (by simp [perform, applyAll, hc, hfirst])
  | collections hc => exact call_operate (by simp [perform, applyAll, hc])
  | begin h => exact call_operate (by simp [perform, begin, h])
  | commit h => exact call_operate (by simp [perform, commit, h])
  | setWindow h => exact call_operate (by simp [perform, setWindow, hv.mpr h])
  | unsubscribe h => simp [call, unsubscribe, Hub.unsubscribe, h, Except.map]
  | drain h => simp [call, drainEvents, Hub.drain, h, Except.map]

/-! ## What is not refused -/

/-- **What goes wrong in a flush is no refusal.** -/
theorem isRefusal_of_flush (h : v.flush.2 = .error e) : e.isRefusal = false := by
  cases v.flushCases with
  | unfed e' hfeed hflush =>
    rw [hflush] at h
    obtain rfl := Except.error.inj h
    obtain ⟨i, rfl | rfl⟩ := Graph.sendAll_error hfeed <;> rfl
  | idle graph _ _ hflush _ =>
    rw [hflush] at h
    exact nomatch h
  | fails graph graph' e' _ _ hrun hflush =>
    rw [hflush] at h
    obtain rfl := Except.error.inj h
    rcases Graph.run_error_cases hrun with rfl | ⟨fault, rfl⟩ <;> rfl
  | runs graph graph' _ _ _ hflush _ =>
    rw [hflush] at h
    exact nomatch h

theorem flush_ne_refusal (he : e.isRefusal = true) : v.flush.2 ≠ .error e := fun h =>
  absurd he (Bool.eq_false_iff.mp (isRefusal_of_flush h))

/-- An operation that is answered with the error of a refusal is refused. -/
theorem refuses_of_perform (hv : v.RanksOrdered) {op : Operation} (he : e.isRefusal = true)
    (h : (v.perform op).2 = .error e) : v.Refuses (.request (.operate op)) e := by
  cases op with
  | begin =>
    dsimp only [perform, begin] at h
    cases ht : v.inTransaction with
    | false => simp [ht] at h
    | true =>
      simp only [ht, if_true, Except.error.injEq] at h
      exact h ▸ .begin ht
  | commit =>
    dsimp only [perform, commit] at h
    cases ht : v.inTransaction with
    | true =>
      rw [ht, if_pos rfl] at h
      exact absurd h (flush_ne_refusal he)
    | false =>
      simp only [ht, Bool.false_eq_true, if_false, Except.error.injEq] at h
      exact h ▸ .commit ht
  | apply collection c =>
    dsimp only [perform, apply] at h
    split at h
    · rename_i fault hfault
      exact Except.error.inj h ▸ .change hfault
    · rename_i hfault
      split at h
      · rename_i hc
        exact Except.error.inj h ▸ .collection hfault (by simpa using hc)
      · split at h
        · exact nomatch h
        · exact absurd h (flush_ne_refusal he)
  | applyAll collection changes =>
    dsimp only [perform, applyAll] at h
    split at h
    · rename_i hc
      exact Except.error.inj h ▸ .collections (by simpa using hc)
    · rename_i hc
      split at h
      · rename_i fault hfault
        obtain ⟨before, c, after, hall, hc', hbefore⟩ := List.findSome?_eq_some_iff.mp hfault
        exact Except.error.inj h ▸ .changes (by simpa using hc) hall hbefore hc'
      · split at h
        · exact nomatch h
        · exact absurd h (flush_ne_refusal he)
  | flush => exact absurd h (flush_ne_refusal he)
  | setWindow offset limit =>
    dsimp only [perform, setWindow] at h
    split at h
    · rename_i hn
      exact Except.error.inj h ▸ .setWindow (hv.mp hn)
    · split at h
      · exact nomatch h
      · exact absurd h (flush_ne_refusal he)

/-- **The calls that are refused are those that are answered with the error of a refusal.** -/
theorem refuses_iff (hv : v.RanksOrdered) :
    v.Refuses c e ↔ e.isRefusal = true ∧ (v.call c).2 = .error e := by
  constructor
  · intro h
    refine ⟨?_, by rw [call_of_refuses hv h]⟩
    cases h <;> rfl
  · rintro ⟨he, h⟩
    cases c with
    | request request =>
      cases request with
      | operate op =>
        refine refuses_of_perform hv he ?_
        cases hop : (v.perform op).2 with
        | ok batch =>
          simp only [call, hop, Answer.ofResult] at h
          cases h
        | error fault =>
          simp only [call, hop, Answer.ofResult] at h
          rw [Answer.error.inj h]
      | subscribe => cases h
      | unsubscribe id =>
        cases hq : v.hub.queues.get? id with
        | some queue =>
          simp only [call, unsubscribe, Hub.unsubscribe, hq, Except.map] at h
          cases h
        | none =>
          simp only [call, unsubscribe, Hub.unsubscribe, hq, Except.map] at h
          exact Answer.error.inj h ▸ .unsubscribe hq
      | drain id =>
        cases hq : v.hub.queues.get? id with
        | some queue =>
          simp only [call, drainEvents, Hub.drain, hq, Except.map] at h
          cases h
        | none =>
          simp only [call, drainEvents, Hub.drain, hq, Except.map] at h
          exact Answer.error.inj h ▸ .drain hq
    | _ => cases h

/-! ## Without what is refused -/

/-- What a view runs, and the window that it can move. -/
def aim (v : LiveView) : Query × Option Nat := (v.query, v.circuit.windowNode)

theorem aim_flush (v : LiveView) : v.flush.1.aim = v.aim := by
  cases v.flushCases with
  | unfed e _ hflush => rw [hflush]; rfl
  | idle graph _ _ hflush _ => rw [hflush]; rfl
  | fails graph graph' e _ _ _ hflush => rw [hflush]; rfl
  | runs graph graph' _ _ _ hflush _ => rw [hflush]; rfl

theorem aim_perform (v : LiveView) (op : Operation) : (v.perform op).1.aim = v.aim := by
  have haim : (v.prepare op).1.aim = v.aim :=
    prepare_keeps aim (fun _ _ => rfl) (fun _ _ _ => rfl) (fun _ _ => rfl) v op
  cases hprepare : v.prepare op with
  | mk w flushes =>
    rw [hprepare] at haim
    cases flushes with
    | true => rw [perform_of_flushes hprepare, aim_flush, haim]
    | false => rw [perform_of_quiet hprepare, haim]

theorem aim_call (v : LiveView) (c : Call) : (v.call c).1.aim = v.aim := by
  cases c with
  | request request =>
    cases request with
    | operate op => exact aim_perform v op
    | subscribe => rfl
    | unsubscribe id =>
      dsimp only [call, unsubscribe]
      cases v.hub.unsubscribe id <;> rfl
    | drain id =>
      dsimp only [call, drainEvents]
      cases v.hub.drain id <;> rfl
  | _ => rfl

theorem RanksOrdered.call (hv : v.RanksOrdered) (c : Call) : (v.call c).1.RanksOrdered := by
  have haim := aim_call v c
  rw [RanksOrdered, show (v.call c).1.query = v.query from congrArg Prod.fst haim,
    show (v.call c).1.circuit.windowNode = v.circuit.windowNode from congrArg Prod.snd haim]
  exact hv

theorem RanksOrdered.serve (hv : v.RanksOrdered) (calls : List Call) :
    (v.serve calls).1.RanksOrdered := by
  induction calls generalizing v with
  | nil => exact hv
  | cons c calls ih => exact ih (hv.call c)

/-- The calls that are not refused when it is their turn. -/
def accepted (v : LiveView) : List Call → List Call
  | [] => []
  | c :: calls =>
    if (v.call c).2.isRefusal then v.accepted calls else c :: (v.call c).1.accepted calls

/-- **Refused calls may be left out**, all of them at once: the others are answered as before, and the
view is the same in the end. -/
theorem serve_accepted (hv : v.RanksOrdered) (calls : List Call) :
    v.serve (v.accepted calls) =
      ((v.serve calls).1, (v.serve calls).2.filter (!·.isRefusal)) := by
  induction calls generalizing v with
  | nil => rfl
  | cons c calls ih =>
    unfold accepted
    split_ifs with hrefused
    · obtain ⟨e, he⟩ : ∃ e, (v.call c).2 = .error e := by
        cases ha : (v.call c).2 with
        | error e => exact ⟨e, rfl⟩
        | _ =>
          rw [ha] at hrefused
          exact nomatch hrefused
      rw [he] at hrefused
      rw [ih hv, serve, call_of_refuses hv ((refuses_iff hv).mpr ⟨hrefused, he⟩),
        List.filter_cons_of_neg (by simpa using hrefused)]
    · rw [serve, serve, ih (hv.call c), List.filter_cons_of_pos (by simpa using hrefused)]

/-- **A call that is refused leaves no trace.** Whatever a view of a query was asked for before: with
the call and without it, all later calls are answered alike, and the view is the same in the end. -/
theorem refused_leaves_no_trace {functions : RowFunctions} {objects : Nat → Nat}
    {optimizer : Optimizer} {autocommit : Bool} {q : Query} {v : LiveView}
    (hv : ofQuery? functions objects optimizer autocommit q = .ok v) (before later : List Call) {c : Call}
    {e : Error} (h : (v.serve before).1.Refuses c e) :
    (v.serve (before ++ c :: later)).1 = (v.serve (before ++ later)).1 ∧
      ∃ answers, (v.serve (before ++ later)).2 = (v.serve before).2 ++ answers ∧
        (v.serve (before ++ c :: later)).2 = (v.serve before).2 ++ .error e :: answers := by
  have hcall := call_of_refuses ((ranksOrdered_of_ofQuery? hv).serve before) h
  rw [serve_append, serve_append, serve, hcall]
  exact ⟨rfl, _, rfl, rfl⟩

/-- Inside a transaction, a list of changes of which the third has no key. -/
theorem refused_leaves_no_trace_of_list :
    let put (key : Value) (value : String) : Change := ⟨.insert, key, .string value, none⟩
    let before : List Call := [.request .subscribe, .request (.operate .begin),
      .request (.operate (.apply "t" (put (.int 1) "a")))]
    let c : Call := .request (.operate (.applyAll "t"
      [put (.int 2) "b", put (.int 1) "c", put .null "d", put (.int 3) "e"]))
    let later : List Call := [.inTransaction, .request (.operate .commit), .request (.drain 1)]
    let batch : Batch := [put (.int 1) "a"]
    ∃ v, ofQuery? (fun _ v => v) id ⟨true, 1, 1⟩ true { source := .collection "t" "t" } = .ok v ∧
      (v.serve before).1.Refuses c (.change .nullKey) ∧
      (v.serve (before ++ later)).2 = (v.serve before).2 ++
        [.inTransaction true, .batch batch, .events [batch]] ∧
      (v.serve (before ++ c :: later)).2 = (v.serve before).2 ++
        [.error (.change .nullKey), .inTransaction true, .batch batch, .events [batch]] := by
  intro put before c later batch
  have hrun : (ofQuery? (fun _ v => v) id ⟨true, 1, 1⟩ true
      { source := .collection "t" "t" }).map (fun v =>
        decide ((v.serve before).1.reads "t" = true ∧
          ((v.serve before).1.serve later).2 =
            [.inTransaction true, .batch batch, .events [batch]])) = .ok true := by
    decide +kernel
  obtain ⟨v, hv, hdecided⟩ := map_eq_ok.mp hrun
  obtain ⟨hreads, hlater⟩ := of_decide_eq_true hdecided
  have hrefused : (v.serve before).1.Refuses c (.change .nullKey) :=
    .changes hreads (show _ = [put (.int 2) "b", put (.int 1) "c"] ++ put .null "d" :: _ from rfl)
      (by decide) rfl
  obtain ⟨-, answers, hanswers, htrace⟩ := refused_leaves_no_trace hv before later hrefused
  rw [serve_append, hlater] at hanswers
  obtain rfl := List.append_cancel_left hanswers
  exact ⟨v, hv, hrefused, by rw [serve_append, hlater], htrace⟩

/-! ## Changes that are applied together -/

/-- Applies changes one after the other, until one is refused. -/
def applyEach (collection : String) (v : LiveView) :
    List Change → LiveView × Except Error Unit
  | [] => (v, .ok ())
  | c :: changes =>
    match v.apply collection c with
    | (v, .ok _) => v.applyEach collection changes
    | (v, .error e) => (v, .error e)

/-- The view with an open transaction, or without. -/
def withTransaction (v : LiveView) (isOpen : Bool) : LiveView := { v with inTransaction := isOpen }

theorem withTransaction_self {isOpen : Bool} (h : v.inTransaction = isOpen) :
    v.withTransaction isOpen = v := by
  subst h
  rfl

theorem foldl_queue_withTransaction (v : LiveView) (isOpen : Bool) (collection : String)
    (changes : List Change) :
    changes.foldl (queue collection) (v.withTransaction isOpen) =
      (changes.foldl (queue collection) v).withTransaction isOpen := by
  induction changes generalizing v with
  | nil => rfl
  | cons c changes ih => exact ih (v.queue collection c)

/-- In an open transaction valid changes are queued, one after the other. -/
theorem applyEach_of_valid {collection : String} {changes : List Change}
    (ht : v.inTransaction = true) (hc : v.reads collection = true)
    (hall : ∀ c ∈ changes, c.fault? = none) :
    v.applyEach collection changes = (changes.foldl (queue collection) v, .ok ()) := by
  induction changes generalizing v with
  | nil => rfl
  | cons c changes ih =>
    obtain ⟨hfirst, hrest⟩ := List.forall_mem_cons.mp hall
    have happly : v.apply collection c = (v.queue collection c, .ok []) := by
      have hopen : (v.queue collection c).inTransaction = true := ht
      simp only [apply, hfirst, hc, hopen, Bool.not_true, Bool.false_eq_true, if_false,
        Bool.true_or, if_true]
    simp only [applyEach, happly]
    exact ih ht hc hrest

/-- **Changes that are applied together** are checked before any of them is taken in. Then they are
applied one after the other, in the transaction that is open or in one of their own. -/
theorem applyAll_eq_applyEach (v : LiveView) (collection : String) (changes : List Change) :
    v.applyAll collection changes =
      if v.reads collection = false then (v, .error (.unknownCollection collection))
      else
        match changes.findSome? Change.fault? with
        | some fault => (v, .error (.change fault))
        | none =>
          match (v.withTransaction true).applyEach collection changes with
          | (w, .error e) => (w, .error e)
          | (w, .ok ()) => if v.inTransaction then (w, .ok []) else w.commit := by
  unfold applyAll
  cases hc : v.reads collection with
  | false => rfl
  | true =>
    cases hfault : changes.findSome? Change.fault? with
    | some fault => rfl
    | none =>
      have heach := applyEach_of_valid (v := v.withTransaction true) rfl hc
        (List.findSome?_eq_none_iff.mp hfault)
      have hkept : (changes.foldl (queue collection) v).inTransaction = v.inTransaction :=
        foldl_queue_eq (·.inTransaction) (fun _ _ => rfl) v changes
      rw [foldl_queue_withTransaction] at heach
      simp only [Bool.not_true, Bool.true_eq_false, Bool.false_eq_true, if_false, heach, hkept]
      cases ht : v.inTransaction with
      | true =>
        rw [withTransaction_self (hkept.trans ht)]
        rfl
      | false =>
        -- The commit closes the transaction that was opened for the changes.
        show _ = ((changes.foldl (queue collection) v).withTransaction false).flush
        rw [withTransaction_self (hkept.trans ht)]
        rfl

end LiveView

end DeltaView
