import DeltaView.Proofs.View.Replay

/-!
# What subscribers get

A subscriber may come, go and drain its queue at any time. While it is there it gets the batches of
all flushes, in order, and they are all it needs to keep up with what the view shows.

* `Hub.get?_publish`, `Hub.Sound`: queues grow by what is published, and numbers are not used again.
* **`LiveView.perform_reports`**: what an operation answers with is published, and tells what it
  does to the rows.
* `Session`: a view with all that its operations answered with and all that was drained.
* **`subscriber_replays_view`**: what a subscriber has drained and what waits for it are the batches
  since it came, and replaying them on what was shown then gives what is shown now.
-/

namespace DeltaView

theorem Table.get?_map {κ α β : Type} [DecidableEq κ] (f : α → β) (t : Table κ α) (k : κ) :
    Table.get? k (t.map fun (l, a) => (l, f a)) = (t.get? k).map f := by
  induction t with
  | nil => rfl
  | cons e t ih =>
    obtain ⟨l, a⟩ := e
    rw [List.map_cons, Table.get?, Table.get?]
    split
    · rfl
    · exact ih

/-! ## Queues -/

namespace Hub

variable {h : Hub}

theorem get?_publish (h : Hub) (batch : Batch) (id : Nat) :
    (h.publish batch).queues.get? id =
      (h.queues.get? id).map (· ++ [batch].filter (!·.isEmpty)) := by
  unfold publish
  cases hb : batch.isEmpty with
  | true => simp [hb]
  | false =>
    have hkept : [batch].filter (!·.isEmpty) = [batch] := by simp [hb]
    rw [hkept, if_neg Bool.false_ne_true]
    exact Table.get?_map (· ++ [batch]) h.queues id

theorem keys_publish (h : Hub) (batch : Batch) :
    (h.publish batch).queues.map (·.1) = h.queues.map (·.1) := by
  unfold publish
  split
  · rfl
  · exact List.map_map

theorem next_publish (h : Hub) (batch : Batch) : (h.publish batch).next = h.next := by
  unfold publish
  split <;> rfl

/-- Each subscriber has one queue, and a number that was given out. -/
structure Sound (h : Hub) : Prop where
  keys : h.queues.KeysNodup
  below : ∀ id ∈ h.queues.map (·.1), id < h.next

theorem Sound.empty : Sound .empty := ⟨Table.keysNodup_nil, by simp [Hub.empty]⟩

theorem Sound.publish (hs : h.Sound) (batch : Batch) : (h.publish batch).Sound := by
  refine ⟨?_, ?_⟩
  · rw [Table.KeysNodup, keys_publish]
    exact hs.keys
  · rw [keys_publish, next_publish]
    exact hs.below

theorem Sound.subscribe (hs : h.Sound) : h.subscribe.1.Sound := by
  refine ⟨Table.keysNodup_put hs.keys, fun id hid => ?_⟩
  rcases Table.mem_keys_put.mp hid with rfl | hid
  · exact Nat.lt_succ_self _
  · exact Nat.lt_succ_of_lt (hs.below id hid)

theorem Sound.lt_of_get? (hs : h.Sound) {id : Nat} {queue : List Batch}
    (hq : h.queues.get? id = some queue) : id < h.next :=
  hs.below id (List.mem_map_of_mem (Table.mem_of_get? hq))

/-- A subscription that ends is one that was there. -/
theorem unsubscribe_cases {h' : Hub} {id : Nat} (hu : h.unsubscribe id = .ok h') :
    h' = { h with queues := h.queues.erase id } := by
  unfold unsubscribe at hu
  split at hu
  · cases hu
  · exact (Except.ok.inj hu).symm

theorem drain_cases {h' : Hub} {id : Nat} {batches : List Batch}
    (hd : h.drain id = .ok (h', batches)) :
    h.queues.get? id = some batches ∧ h' = { h with queues := h.queues.put id [] } := by
  unfold drain at hd
  split at hd
  · cases hd
  · rename_i queue hq
    obtain ⟨rfl, rfl⟩ := Prod.mk.inj (Except.ok.inj hd)
    exact ⟨hq, rfl⟩

end Hub

/-! ## Answers -/

namespace LiveView

variable {v w : LiveView}

theorem prepare_hub (v : LiveView) (op : Operation) : (v.prepare op).1.hub = v.hub :=
  prepare_keeps (·.hub) (fun _ _ => rfl) (fun _ _ _ => rfl) (fun _ _ => rfl) v op

/-- A flush publishes what it answers with. A flush that fails publishes nothing and leaves the rows
as they are. -/
theorem flush_hub (v : LiveView) :
    (∃ batch, v.flush.2 = .ok batch ∧ v.flush.1.hub = v.hub.publish batch) ∨
      ∃ e, v.flush.2 = .error e ∧ v.flush.1.hub = v.hub ∧ v.flush.1.rows = v.rows := by
  cases v.flushCases with
  | unfed e _ hflush =>
    rw [hflush]
    exact Or.inr ⟨e, rfl, rfl, rfl⟩
  | idle graph _ _ hflush _ =>
    rw [hflush]
    exact Or.inl ⟨[], rfl, rfl⟩
  | fails graph graph' e _ _ _ hflush =>
    rw [hflush]
    exact Or.inr ⟨e, rfl, rfl, rfl⟩
  | runs graph graph' _ _ _ hflush _ =>
    rw [hflush]
    exact Or.inl ⟨_, rfl, rfl⟩

/-- **What an operation answers with is published, and tells what it does to the rows**: it is what
folding some change reports. An operation that fails does nothing to them. -/
theorem perform_reports (v : LiveView) (op : Operation) :
    (∃ d batch, (v.perform op).2 = .ok batch ∧
      ((v.perform op).1.rows, batch) = v.rows.fold d ∧
      (v.perform op).1.hub = v.hub.publish batch) ∨
    ∃ e, (v.perform op).2 = .error e ∧ (v.perform op).1.hub = v.hub ∧
      (v.perform op).1.rows = v.rows := by
  have hrows := prepare_rows v op
  have hhub := prepare_hub v op
  cases v.performCases op with
  | flushes w hprepare hperform =>
    rw [hprepare] at hrows hhub
    rw [hperform, ← hrows, ← hhub]
    refine (flush_hub w).imp_left ?_
    rintro ⟨batch, hbatch, hpublish⟩
    exact ⟨_, batch, hbatch, flush_fold (Prod.ext rfl hbatch), hpublish⟩
  | waits w hprepare hperform =>
    rw [hprepare] at hrows hhub
    rw [hperform, ← hrows, ← hhub]
    exact Or.inl ⟨[], [], rfl, (ViewRows.fold_nil _).symm, rfl⟩
  | refuses w e hprepare hperform =>
    rw [hprepare] at hrows hhub
    rw [hperform, ← hrows, ← hhub]
    exact Or.inr ⟨e, rfl, rfl, rfl⟩

end LiveView

/-! ## Sessions -/

/-- A view with the batches that operations answered with, in order, and with what each subscriber
has drained. An operation that does not flush answers with an empty batch. -/
structure Session where
  view : LiveView
  batches : List Batch
  drained : Nat → List Batch

namespace Session

/-- What is asked of a view by those who change it and those who follow it. -/
inductive Request where
  | operate (op : Operation)
  | subscribe
  | unsubscribe (id : Nat)
  | drain (id : Nat)

def start (v : LiveView) : Session := ⟨v, [], fun _ => []⟩

/-- One more request. One that is refused changes nothing, but for a flush that fails. -/
def step (s : Session) : Request → Session
  | .operate op =>
    match s.view.perform op with
    | (view, .ok batch) => { s with view, batches := s.batches ++ [batch] }
    | (view, .error _) => { s with view }
  | .subscribe => { s with view := s.view.subscribe.1 }
  | .unsubscribe id =>
    match s.view.unsubscribe id with
    | .ok view => { s with view }
    | .error _ => s
  | .drain id =>
    match s.view.drainEvents id with
    | .ok (view, batches) =>
      { s with view, drained := Function.update s.drained id (s.drained id ++ batches) }
    | .error _ => s

def run (s : Session) (requests : List Request) : Session := requests.foldl step s

/-- The rows that are shown and the subscribers are told apart, and no subscriber that is still to
come has drained anything. -/
structure Sound (s : Session) : Prop where
  rows : s.view.rows.KeysNodup
  hub : s.view.hub.Sound
  fresh : ∀ id, s.view.hub.next ≤ id → s.drained id = []

theorem Sound.start (v : LiveView) (hrows : v.rows = []) (hhub : v.hub = .empty) :
    (start v).Sound := by
  refine ⟨?_, ?_, fun _ _ => rfl⟩
  · show v.rows.KeysNodup
    rw [hrows]
    exact Table.keysNodup_nil
  · show v.hub.Sound
    rw [hhub]
    exact .empty

variable {s t : Session}

/-- What a request does to the batches and the view. -/
theorem step_operate (s : Session) (op : Operation) :
    (∃ d batch, (s.step (.operate op)).batches = s.batches ++ [batch] ∧
      ((s.step (.operate op)).view.rows, batch) = s.view.rows.fold d ∧
      (s.step (.operate op)).view.hub = s.view.hub.publish batch ∧
      (s.step (.operate op)).drained = s.drained) ∨
    ((s.step (.operate op)).batches = s.batches ∧
      (s.step (.operate op)).view.rows = s.view.rows ∧
      (s.step (.operate op)).view.hub = s.view.hub ∧
      (s.step (.operate op)).drained = s.drained) := by
  have hreports := s.view.perform_reports op
  obtain ⟨w, answer, hperform⟩ : ∃ w answer, s.view.perform op = (w, answer) := ⟨_, _, rfl⟩
  rw [hperform] at hreports
  rcases hreports with ⟨d, batch, rfl, hfold, hhub⟩ | ⟨e, rfl, hhub, hrows⟩
  · have hstep : s.step (.operate op) =
        { s with view := w, batches := s.batches ++ [batch] } := by simp only [step, hperform]
    rw [hstep]
    exact Or.inl ⟨d, batch, rfl, hfold, hhub, rfl⟩
  · have hstep : s.step (.operate op) = { s with view := w } := by simp only [step, hperform]
    rw [hstep]
    exact Or.inr ⟨rfl, hrows, hhub, rfl⟩

/-- An unsubscription takes the queue of a subscriber away, if there is one. -/
theorem step_unsubscribe (s : Session) (id : Nat) :
    s.step (.unsubscribe id) = s ∨
      s.step (.unsubscribe id) = { s with view := { s.view with
        hub := { s.view.hub with queues := s.view.hub.queues.erase id } } } := by
  cases hu : s.view.hub.unsubscribe id with
  | error e =>
    have hview : s.view.unsubscribe id = .error e := by
      rw [LiveView.unsubscribe, hu]
      rfl
    exact Or.inl (by simp only [step, hview])
  | ok hub =>
    have hview : s.view.unsubscribe id = .ok { s.view with hub } := by
      rw [LiveView.unsubscribe, hu]
      rfl
    obtain rfl := Hub.unsubscribe_cases hu
    exact Or.inr (by simp only [step, hview])

/-- A drain hands a queue over, if there is one. -/
theorem step_drain (s : Session) (id : Nat) :
    s.step (.drain id) = s ∨
      ∃ queue, s.view.hub.queues.get? id = some queue ∧
        s.step (.drain id) = { s with
          view := { s.view with
            hub := { s.view.hub with queues := s.view.hub.queues.put id [] } }
          drained := Function.update s.drained id (s.drained id ++ queue) } := by
  cases hd : s.view.hub.drain id with
  | error e =>
    have hview : s.view.drainEvents id = .error e := by
      rw [LiveView.drainEvents, hd]
      rfl
    exact Or.inl (by simp only [step, hview])
  | ok result =>
    obtain ⟨hub, queue⟩ := result
    have hview : s.view.drainEvents id = .ok ({ s.view with hub }, queue) := by
      rw [LiveView.drainEvents, hd]
      rfl
    obtain ⟨hqueue, rfl⟩ := Hub.drain_cases hd
    exact Or.inr ⟨queue, hqueue, by simp only [step, hview]⟩

theorem Sound.step (h : s.Sound) (request : Request) : (s.step request).Sound := by
  cases request with
  | operate op =>
    rcases s.step_operate op with ⟨d, batch, -, hfold, hhub, hdrained⟩ | ⟨-, hrows, hhub, hdrained⟩
    · refine ⟨?_, hhub ▸ h.hub.publish batch, fun id hid => ?_⟩
      · rw [show (s.step (.operate op)).view.rows = (s.view.rows.fold d).1 from
          congrArg Prod.fst hfold]
        exact ViewRows.keysNodup_fold h.rows d
      · rw [hhub, Hub.next_publish] at hid
        rw [hdrained]
        exact h.fresh id hid
    · exact ⟨hrows ▸ h.rows, hhub ▸ h.hub, fun id hid => hdrained ▸ h.fresh id (hhub ▸ hid)⟩
  | subscribe =>
    exact ⟨h.rows, h.hub.subscribe, fun id hid => h.fresh id (Nat.le_of_succ_le hid)⟩
  | unsubscribe id =>
    rcases s.step_unsubscribe id with heq | heq
    · rwa [heq]
    · rw [heq]
      refine ⟨h.rows, ⟨Table.keysNodup_erase h.hub.keys, fun k hk => ?_⟩, h.fresh⟩
      exact h.hub.below k (((Table.erase_sublist id _).map _).subset hk)
  | drain id =>
    rcases s.step_drain id with heq | ⟨queue, hqueue, heq⟩
    · rwa [heq]
    · have hlt := h.hub.lt_of_get? hqueue
      rw [heq]
      refine ⟨h.rows, ⟨Table.keysNodup_put h.hub.keys, fun k hk => ?_⟩, fun k hk => ?_⟩
      · rcases Table.mem_keys_put.mp hk with rfl | hk
        · exact hlt
        · exact h.hub.below k hk
      · have hne : k ≠ id := fun he => absurd hlt (Nat.not_lt.mpr (he ▸ hk))
        exact (Function.update_of_ne hne _ _).trans (h.fresh k hk)

theorem Sound.run (h : s.Sound) (requests : List Request) : (s.run requests).Sound := by
  induction requests generalizing s with
  | nil => exact h
  | cons request requests ih => exact ih (h.step request)

/-! ## What a subscriber gets -/

/-- What a subscriber has got and gets, at a moment after one at which it was there: the batches
since then, which tell all that has changed. -/
structure Gets (s : Session) (id : Nat) (t : Session) (since queue : List Batch) : Prop where
  answers : t.batches = s.batches ++ since
  waits : t.view.hub.queues.get? id = some queue
  all : t.drained id ++ queue = since.filter (!·.isEmpty)
  once : ∀ batch ∈ since, (batch.map (·.key)).Nodup
  shown : replay s.view.get? since.flatten = t.view.get?

variable {id : Nat} {since queue : List Batch}

/-- A new subscriber has got nothing, and nothing waits for it. -/
theorem Gets.subscribe (h : s.Sound) : s.Gets s.view.subscribe.2 (s.step .subscribe) [] [] where
  answers := (List.append_nil _).symm
  waits := (Table.get?_put _ _ _ _).trans (if_pos rfl)
  all := by
    show s.drained s.view.hub.next ++ [] = []
    rw [h.fresh _ (Nat.le_refl _)]
    rfl
  once := by simp
  shown := rfl

/-- An operation that answers with a batch hands it to the subscriber, unless it is empty. -/
theorem Gets.operate (hs : t.Sound) (h : s.Gets id t since queue) (op : Operation) :
    ∃ since' queue', s.Gets id (t.step (.operate op)) since' queue' := by
  rcases t.step_operate op with
    ⟨d, batch, hbatches, hfold, hhub, hdrained⟩ | ⟨hbatches, hrows, hhub, hdrained⟩
  · have hrows : (t.step (.operate op)).view.rows = (t.view.rows.fold d).1 :=
      congrArg Prod.fst hfold
    have hbatch : batch = (t.view.rows.fold d).2 := congrArg Prod.snd hfold
    refine ⟨since ++ [batch], queue ++ [batch].filter (!·.isEmpty), ⟨?_, ?_, ?_, ?_, ?_⟩⟩
    · rw [hbatches, h.answers, List.append_assoc]
    · rw [hhub, Hub.get?_publish, h.waits]
      rfl
    · rw [hdrained, ← List.append_assoc, h.all, List.filter_append]
    · intro b hb
      rcases List.mem_append.mp hb with hb | hb
      · exact h.once b hb
      · rw [List.mem_singleton.mp hb, hbatch]
        exact ViewRows.nodup_fold _ _
    · rw [List.flatten_append, replay_append, h.shown, List.flatten_singleton, hbatch]
      show replay t.view.rows.values _ = (t.step (.operate op)).view.rows.values
      rw [ViewRows.replay_fold hs.rows, hrows]
  · refine ⟨since, queue, ⟨hbatches.trans h.answers, ?_, ?_, h.once, ?_⟩⟩
    · rw [hhub]
      exact h.waits
    · rw [hdrained]
      exact h.all
    · rw [h.shown]
      show t.view.rows.values = (t.step (.operate op)).view.rows.values
      rw [hrows]

/-- A drain moves what waits for one subscriber, and leaves the others alone. -/
theorem Gets.drain (h : s.Gets id t since queue) (other : Nat) :
    ∃ since' queue', s.Gets id (t.step (.drain other)) since' queue' := by
  rcases t.step_drain other with heq | ⟨taken, htaken, heq⟩
  · exact ⟨since, queue, by rwa [heq]⟩
  · rw [heq]
    by_cases he : other = id
    · subst he
      obtain rfl := Option.some.inj (htaken.symm.trans h.waits)
      refine ⟨since, [], ⟨h.answers, (Table.get?_put _ _ _ _).trans (if_pos rfl), ?_, h.once,
        h.shown⟩⟩
      show Function.update t.drained other _ other ++ [] = _
      rw [Function.update_self, List.append_nil]
      exact h.all
    · refine ⟨since, queue, ⟨h.answers, ?_, ?_, h.once, h.shown⟩⟩
      · exact ((Table.get?_put _ _ _ _).trans (if_neg he)).trans h.waits
      · show Function.update t.drained other _ id ++ queue = _
        rw [Function.update_of_ne (Ne.symm he)]
        exact h.all

/-- **A request leaves a subscriber with all batches**, as long as it does not end the
subscription. -/
theorem Gets.step (hs : t.Sound) (h : s.Gets id t since queue) {request : Request}
    (hstay : request ≠ .unsubscribe id) :
    ∃ since' queue', s.Gets id (t.step request) since' queue' := by
  cases request with
  | operate op => exact h.operate hs op
  | subscribe =>
    have hne : t.view.hub.next ≠ id := (Nat.ne_of_lt (hs.hub.lt_of_get? h.waits)).symm
    refine ⟨since, queue, ⟨h.answers, ?_, h.all, h.once, h.shown⟩⟩
    exact ((Table.get?_put _ _ _ _).trans (if_neg hne)).trans h.waits
  | unsubscribe other =>
    rcases t.step_unsubscribe other with heq | heq
    · exact ⟨since, queue, by rwa [heq]⟩
    · have hne : other ≠ id := fun he => hstay (he ▸ rfl)
      rw [heq]
      refine ⟨since, queue, ⟨h.answers, ?_, h.all, h.once, h.shown⟩⟩
      exact ((Table.get?_erase hs.hub.keys id).trans (if_neg hne)).trans h.waits
  | drain other => exact h.drain other

theorem Gets.run (hs : t.Sound) (h : s.Gets id t since queue) {requests : List Request}
    (hstay : .unsubscribe id ∉ requests) :
    ∃ since' queue', s.Gets id (t.run requests) since' queue' := by
  induction requests generalizing t since queue with
  | nil => exact ⟨since, queue, h⟩
  | cons request requests ih =>
    rw [List.mem_cons, not_or] at hstay
    obtain ⟨since', queue', h'⟩ := h.step hs (Ne.symm hstay.1)
    exact ih (hs.step request) h' hstay.2

/-- **Subscribers can rebuild the result.** However changes, transactions, flushes and window moves
are interleaved with what any subscribers do: from one subscription on, as long as it does not end,
what the subscriber has drained followed by what waits for it are the batches of the flushes since
then, in order and without the empty ones. Each batch names a key once, and replaying them on the
values that were shown when the subscriber came gives those that are shown now. -/
theorem subscriber_replays_view {functions : RowFunctions} {objects : Nat → Nat}
    {optimizer : Optimizer} {autocommit : Bool} {q : Query} {v : LiveView}
    (hv : LiveView.ofQuery? functions objects optimizer autocommit q = .ok v)
    (before after : List Request) :
    let s := (start v).run before
    let id := s.view.subscribe.2
    let t := (start v).run (before ++ .subscribe :: after)
    .unsubscribe id ∉ after → ∃ since queue, t.batches = s.batches ++ since ∧
      t.view.hub.queues.get? id = some queue ∧
      t.drained id ++ queue = since.filter (!·.isEmpty) ∧
      (∀ batch ∈ t.drained id ++ queue, (batch.map (·.key)).Nodup) ∧
      replay s.view.get? (t.drained id ++ queue).flatten = t.view.get? := by
  intro s id t hstay
  have hsound : s.Sound := by
    obtain ⟨p, -, h⟩ := bind_eq_ok.mp hv
    obtain ⟨c, -, h⟩ := bind_eq_ok.mp h
    obtain rfl := Except.ok.inj h
    exact (Sound.start _ rfl rfl).run before
  have ht : t = (s.step .subscribe).run after := List.foldl_append
  obtain ⟨since, queue, h⟩ := (Gets.subscribe hsound).run (hsound.step .subscribe) hstay
  rw [← ht] at h
  refine ⟨since, queue, h.answers, h.waits, h.all, fun batch hb => ?_, ?_⟩
  · rw [h.all] at hb
    exact h.once batch (List.mem_of_mem_filter hb)
  · rw [h.all, List.flatten_filter_not_isEmpty]
    exact h.shown

/-- The first of two subscribers, which comes after one row and drains its queue once, while the
other one leaves. -/
theorem subscriber_replays_view_of_two_subscribers :
    let put (key : Int64) (value : String) : Request :=
      .operate (.apply "t" ⟨.insert, .int key, .string value, none⟩)
    let after : List Request := [put 2 "b", .subscribe, .drain 1, put 2 "c", .unsubscribe 2]
    ∃ v, LiveView.ofQuery? (fun _ v => v) (fun n => n) ⟨true, 1, 1⟩ true
          { source := .collection "t" "t" } = .ok v ∧
      let s := (start v).run [put 1 "a"]
      let t := (start v).run ([put 1 "a"] ++ .subscribe :: after)
      s.view.subscribe.2 = 1 ∧ .unsubscribe s.view.subscribe.2 ∉ after ∧
        t.drained 1 = [[⟨.insert, .int 2, .string "b", none⟩]] ∧
        t.view.hub.queues.get? 1 =
          some [[⟨.update, .int 2, .string "c", some (.string "b")⟩]] ∧
        replay s.view.get? [⟨.insert, .int 2, .string "b", none⟩,
          ⟨.update, .int 2, .string "c", some (.string "b")⟩] = t.view.get? := by
  intro put after
  have hrun : (LiveView.ofQuery? (fun _ v => v) (fun n => n) ⟨true, 1, 1⟩ true
      { source := .collection "t" "t" }).map (fun v =>
        decide (((start v).run [put 1 "a"]).view.subscribe.2 = 1 ∧
          ((start v).run ([put 1 "a"] ++ .subscribe :: after)).drained 1 =
            [[⟨.insert, .int 2, .string "b", none⟩]] ∧
          ((start v).run ([put 1 "a"] ++ .subscribe :: after)).view.hub.queues.get? 1 =
            some [[⟨.update, .int 2, .string "c", some (.string "b")⟩]])) = .ok true := by
    decide +kernel
  obtain ⟨v, hv, hdecided⟩ := map_eq_ok.mp hrun
  obtain ⟨hid, hdrained, hqueue⟩ := of_decide_eq_true hdecided
  have hstay : .unsubscribe ((start v).run [put 1 "a"]).view.subscribe.2 ∉ after := by
    rw [hid]
    simp [after, put]
  obtain ⟨since, queue, -, hwaits, -, -, hreplay⟩ :=
    subscriber_replays_view hv [put 1 "a"] after hstay
  rw [hid, hqueue] at hwaits
  rw [hid, hdrained, ← Option.some.inj hwaits] at hreplay
  exact ⟨v, hv, hid, hstay, hdrained, hqueue, hreplay⟩

end Session

end DeltaView
