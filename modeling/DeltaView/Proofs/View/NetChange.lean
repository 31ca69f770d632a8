import DeltaView.Proofs.Dataflow.Inlets
import DeltaView.Proofs.Dataflow.Pass
import DeltaView.Proofs.View.Difference
import DeltaView.Proofs.View.Failure

/-!
# Flushes send net changes

Whatever has become of a row since the last flush, the next one sends what it comes to: its input
gets the difference of the tables then and now.

* `flush_leaves`: what a flush leaves behind, whether it fails or not.
* `LiveView.Nets`: the invariant. What is queued makes the tables out of those at the last flush.
* `Nets.prepare`, `Nets.flush`: operations keep it, and so do flushes, even those that fail.
* **`flush_sends_net_change`**: at every flush of every history.
-/

namespace DeltaView

/-! ## Inputs -/

theorem Graph.inlets_of_skeleton {g g' : Graph} (h : g'.skeleton = g.skeleton) :
    g'.inlets = g.inlets := by
  have hread : ∀ g : Graph, g.inlets = g.skeleton.map fun f => (f.isInput, f.inlets) := fun g => by
    rw [skeleton, frames, List.map_map, List.map_map]
    rfl
  rw [hread, hread, h]

/-- Each reference to a collection has an input of its own, with an inlet, and there are no other
inputs. -/
structure Circuit.Fed (c : Circuit) : Prop where
  inputs : ∀ name, ∀ n ∈ c.inputs.of name, ∃ k, 0 < k ∧ c.graph.inlets[n]? = some (true, k)
  apart : c.inputs.Apart
  named : ∀ n k, c.graph.inlets[n]? = some (true, k) → ∃ name, n ∈ c.inputs.of name

theorem Circuit.Fed.congr {c c' : Circuit} (h : c.Fed) (hinputs : c'.inputs = c.inputs)
    (hinlets : c'.graph.inlets = c.graph.inlets) : c'.Fed := by
  obtain ⟨h1, h2, h3⟩ := h
  rw [← hinputs] at h1 h2 h3
  rw [← hinlets] at h1 h3
  exact ⟨h1, h2, h3⟩

theorem Circuit.Fed.node {c : Circuit} (h : c.Fed) {name : String} {n : Nat}
    (hn : n ∈ c.inputs.of name) :
    ∃ node, c.graph.nodes[n]? = some node ∧ node.isInput = true ∧ 0 < node.inbox.length := by
  obtain ⟨k, hk, hi⟩ := h.inputs name n hn
  rw [Graph.inlets, List.getElem?_map, Option.map_eq_some_iff] at hi
  obtain ⟨node, hnode, he⟩ := hi
  obtain ⟨hin, rfl⟩ := Prod.mk.inj he
  exact ⟨node, hnode, hin, hk⟩

/-- An input is that of one collection. -/
theorem Circuit.Fed.existsUnique_name {c : Circuit} (h : c.Fed) {n : Nat} {node : Node}
    (hnode : c.graph.nodes[n]? = some node) (hin : node.isInput = true) :
    ∃! name, n ∈ c.inputs.of name := by
  have hinlets : c.graph.inlets[n]? = some (true, node.inbox.length) := by
    rw [Graph.inlets, List.getElem?_map, hnode, Option.map_some, Node.inlets, hin]
  obtain ⟨name, hname⟩ := h.named n _ hinlets
  exact ⟨name, hname, fun other hother => h.apart.apart other name n hother hname⟩

/-- A circuit that serves a plan, and gives inputs to collections alone. -/
theorem Circuit.Serves.fed {functions : RowFunctions} {c : Circuit} {p : Plan}
    {ins : Nat → List Nat} {top out : Nat} (h : c.Serves functions p ins top out)
    (hkeeps : c.KeepsKeys) : c.Fed := by
  refine ⟨fun name n hn => ?_, h.inputs, fun n k hn => ?_⟩
  · obtain ⟨f, hf, hin⟩ := hkeeps.named name n hn
    obtain ⟨node, hnode, rfl⟩ := Graph.node_of_skeleton hf
    refine ⟨node.inbox.length, h.ready.wired.input_pos hnode hin, ?_⟩
    rw [Graph.inlets, List.getElem?_map, hnode, Option.map_some, Node.inlets,
      show node.isInput = true from hin]
  · rw [Graph.inlets, List.getElem?_map, Option.map_eq_some_iff] at hn
    obtain ⟨node, hnode, he⟩ := hn
    exact (hkeeps.inputs n _ (Graph.skeleton_of_node hnode) (Prod.mk.inj he).1).2

namespace LiveView

open Graph (sentTo)

variable {v w : LiveView} {last : Snapshot} {ins : Nat → List Nat}

/-! ## Flushing -/

/-- The graph after a flush, from what it is with everything at its inputs that is sent: if there is
nothing to do, just that; otherwise what a run makes of it, with its sink drained if the run meets
no error. -/
def afterRun (v : LiveView) (g : Graph) : Graph :=
  if g.hasWork then if g.run.2.isSome then g.run.1 else (g.run.1.drain v.circuit.sink).1 else g

/-- **What a flush leaves behind, whether it fails or not**: nothing queued, the tables, and the
graph that what was sent has made. -/
theorem flush_leaves (v : LiveView) {g : Graph} (hfed : v.fed = .ok g) :
    v.flush.1.queued = [] ∧ v.flush.1.snapshot = v.snapshot ∧
      v.flush.1.circuit = v.circuit.withGraph (v.afterRun g) := by
  cases v.flushCases with
  | unfed e hfeed _ => cases hfed.symm.trans hfeed
  | idle graph hfeed hidle hflush _ =>
    obtain rfl := Except.ok.inj (hfed.symm.trans hfeed)
    rw [hflush, afterRun, Graph.hasWork_eq_false_iff.mpr hidle]
    exact ⟨rfl, rfl, rfl⟩
  | fails graph graph' e hfeed hwork hrun hflush =>
    obtain rfl := Except.ok.inj (hfed.symm.trans hfeed)
    rw [hflush, afterRun, hwork, hrun]
    exact ⟨rfl, rfl, rfl⟩
  | runs graph graph' hfeed hwork hrun hflush _ =>
    obtain rfl := Except.ok.inj (hfed.symm.trans hfeed)
    rw [hflush, afterRun, hwork, hrun]
    exact ⟨rfl, rfl, rfl⟩

theorem inlets_afterRun (v : LiveView) (g : Graph) : (v.afterRun g).inlets = g.inlets := by
  unfold afterRun
  split
  · split
    · exact Graph.inlets_run g
    · exact (Graph.inlets_drain _ _).trans (Graph.inlets_run g)
  · rfl

theorem ready_afterRun (v : LiveView) {g : Graph} (h : g.Ready ins) : (v.afterRun g).Ready ins := by
  unfold afterRun
  split
  · split
    · exact h.of_used (.run g)
    · exact (h.of_used (.run g)).of_used (.drain _ _)
  · exact h

/-! ## The invariant -/

/-- **What is queued is what has become of the tables** since they were as at the last flush. -/
structure Nets (last : Snapshot) (ins : Nat → List Nat) (v : LiveView) : Prop where
  ready : v.circuit.graph.Ready ins
  fed : v.circuit.Fed
  before : ∀ name, (last name).KeysNodup
  tables : v.KeysNodup
  queued : v.queued.KeysNodup
  net : ∀ name, Delta.Same ((last name).rows ++ (v.queued.get? name).getD []) (v.snapshot name).rows

theorem Nets.queue (h : v.Nets last ins) (collection : String) (c : Change) :
    (v.queue collection c).Nets last ins := by
  refine ⟨h.ready, h.fed, h.before, h.tables.queue collection c, Table.keysNodup_put h.queued,
    fun name => ?_⟩
  rw [snapshot_queue]
  show Delta.Same (_ ++ ((v.queued.put collection ((v.queued.get? collection).getD [] ++
    (c.applyTo (v.snapshot collection)).2)).get? name).getD []) _
  rw [Table.get?_put]
  by_cases hname : collection = name
  · subst hname
    rw [if_pos rfl, if_pos rfl, Option.getD_some, ← List.append_assoc]
    exact ((h.net collection).append (.refl _)).trans (c.applyTo_rows _)
  · rw [if_neg hname, if_neg hname]
    exact h.net name

/-- What an operation does before it flushes is queued. -/
theorem Nets.prepare (h : v.Nets last ins) (op : Operation) : (v.prepare op).1.Nets last ins := by
  refine prepare_induction h (fun _ h => ⟨h.ready, h.fed, h.before, h.tables, h.queued, h.net⟩)
    (fun _ collection c h => h.queue collection c) (fun n u _ h => ?_) op
  have hinlets := Graph.inlets_of_skeleton (Graph.skeleton_requestWindow v.circuit.graph n u)
  exact ⟨h.ready.of_used (.requestWindow _ n _), h.fed.congr rfl hinlets, h.before, h.tables,
    h.queued, h.net⟩

/-- Everything that is queued can be sent. -/
theorem Nets.fed_ok (h : v.Nets last ins) : ∃ g, v.fed = .ok g :=
  LiveView.fed_ok fun _ _ hn => by
    obtain ⟨node, hnode, hin, -⟩ := h.fed.node hn
    exact ⟨node, hnode, hin⟩

/-- All that is sent goes to inputs. -/
theorem Nets.sentTo_eq_nil (h : v.Nets last ins) {n : Nat} {node : Node}
    (hn : v.circuit.graph.nodes[n]? = some node) (hin : node.isInput = false) :
    sentTo v.sends n = [] := by
  rw [sentTo, List.filter_eq_nil_iff.mpr, List.flatMap_nil]
  intro e he hen
  obtain ⟨name, hname⟩ := mem_sends he
  obtain ⟨node', hn', hin', -⟩ := h.fed.node (of_decide_eq_true hen ▸ hname)
  obtain rfl := Option.some.inj (hn'.symm.trans hn)
  exact absurd (hin'.symm.trans hin) (by simp)

/-- **A flush starts anew** from the tables as they are, whether it fails or not. -/
theorem Nets.flush (h : v.Nets last ins) : v.flush.1.Nets v.snapshot ins := by
  obtain ⟨g, hg⟩ := h.fed_ok
  obtain ⟨hqueued, hsnapshot, hcircuit⟩ := flush_leaves v hg
  have hready : g.Ready ins := h.ready.kept (Graph.kept_sendAll hg)
  have hinlets := (v.inlets_afterRun g).trans (Graph.inlets_sendAll hg)
  refine ⟨hcircuit ▸ v.ready_afterRun hready, hcircuit ▸ h.fed.congr rfl hinlets, h.tables,
    fun name => ?_, ?_, fun name => ?_⟩
  · rw [hsnapshot]
    exact h.tables name
  · rw [hqueued]
    exact Table.keysNodup_nil
  · rw [hqueued, hsnapshot]
    exact .of_eq (List.append_nil _)

/-- What is left of what is queued makes the tables out of those at the last flush. -/
theorem Nets.same_net (h : v.Nets last ins) (name : String) :
    Delta.Same ((last name).rows ++ v.net name) (v.snapshot name).rows :=
  (Delta.Same.append (.refl _) (Delta.same_consolidate _)).trans (h.net name)

/-- **What a flush sends is the difference** between the tables at the last flush and now. -/
theorem Nets.net_perm (h : v.Nets last ins) (name : String) :
    (v.net name).Perm ((last name).difference (v.snapshot name)) :=
  Table.perm_difference (h.before name) (h.tables name) (Delta.consolidated_consolidate _)
    (h.same_net name)

end LiveView

/-! ## Histories -/

namespace History

open Graph (sentTo)

variable {h : History} {ins : Nat → List Nat} {name : String} {n : Nat}

/-- The tables at the last flush. -/
def last (h : History) : Snapshot := h.snapshots.getLast?.getD fun _ => []

/-- What is sent to an input while an operation is carried out. -/
def sends (h : History) (op : Operation) (n : Nat) : Delta Row :=
  if (h.view.prepare op).2 then sentTo (h.view.prepare op).1.sends n else []

/-- What was sent to an input while operations were carried out. -/
def sent (h : History) : List Operation → Nat → Delta Row
  | [], _ => []
  | op :: ops, n => h.sends op n ++ (h.step op).sent ops n

theorem last_of_flushes {op : Operation} (hf : h.Flushes op) :
    (h.step op).last = (h.view.prepare op).1.snapshot := by
  have hsnapshots : (h.step op).snapshots = h.snapshots ++ [(h.view.prepare op).1.snapshot] :=
    if_pos hf
  rw [last, hsnapshots, List.getLast?_concat, Option.getD_some]

theorem last_of_quiet {op : Operation} (hf : ¬ h.Flushes op) : (h.step op).last = h.last := by
  have hsnapshots : (h.step op).snapshots = h.snapshots := if_neg hf
  rw [last, hsnapshots, last]

theorem view_of_flushes {op : Operation} (hf : h.Flushes op) :
    (h.step op).view = (h.view.prepare op).1.flush.1 :=
  congrArg Prod.fst (flush_of_flushes hf).symm

theorem step_nets (hn : h.view.Nets h.last ins) (op : Operation) :
    (h.step op).view.Nets (h.step op).last ins := by
  by_cases hf : h.Flushes op
  · rw [last_of_flushes hf, view_of_flushes hf]
    exact (hn.prepare op).flush
  · rw [last_of_quiet hf, (step_of_quiet hf).1]
    exact hn.prepare op

theorem run_nets (hn : h.view.Nets h.last ins) (ops : List Operation) :
    (h.run ops).view.Nets (h.run ops).last ins := by
  induction ops generalizing h with
  | nil => exact hn
  | cons op ops ih => exact ih (step_nets hn op)

/-- No operation changes which inputs there are. -/
theorem step_inputs (hn : h.view.Nets h.last ins) (op : Operation) :
    (h.step op).view.circuit.inputs = h.view.circuit.inputs := by
  have hprepare := (LiveView.prepare_fixed h.view op).inputs
  by_cases hf : h.Flushes op
  · obtain ⟨g, hg⟩ := (hn.prepare op).fed_ok
    obtain ⟨-, -, hcircuit⟩ := LiveView.flush_leaves _ hg
    rw [view_of_flushes hf, hcircuit]
    exact hprepare
  · rw [(step_of_quiet hf).1]
    exact hprepare

theorem run_inputs (hn : h.view.Nets h.last ins) (ops : List Operation) :
    (h.run ops).view.circuit.inputs = h.view.circuit.inputs := by
  induction ops generalizing h with
  | nil => rfl
  | cons op ops ih => exact (ih (step_nets hn op)).trans (step_inputs hn op)

/-- **All that was sent makes the tables at the last flush** out of those at the flush before. -/
theorem same_sent (hn : h.view.Nets h.last ins) (hi : n ∈ h.view.circuit.inputs.of name)
    (ops : List Operation) :
    Delta.Same ((h.last name).rows ++ h.sent ops n) ((h.run ops).last name).rows := by
  induction ops generalizing h with
  | nil => exact .of_eq (List.append_nil _)
  | cons op ops ih =>
    refine Delta.Same.trans ?_ (ih (step_nets hn op) (step_inputs hn op ▸ hi))
    rw [sent, ← List.append_assoc]
    refine Delta.Same.append ?_ (.refl _)
    by_cases hf : h.Flushes op
    · have hprepared := hn.prepare op
      have hmem : n ∈ (h.view.prepare op).1.circuit.inputs.of name :=
        (LiveView.prepare_fixed h.view op).inputs ▸ hi
      rw [show h.sends op n = sentTo (h.view.prepare op).1.sends n from if_pos hf,
        LiveView.sentTo_sends hprepared.fed.apart hprepared.queued hmem, last_of_flushes hf]
      exact hprepared.same_net name
    · rw [show h.sends op n = [] from if_neg hf, last_of_quiet hf]
      exact .of_eq (List.append_nil _)

theorem start_nets {functions : RowFunctions} {objects : Nat → Nat} {optimizer : Optimizer}
    {autocommit : Bool} {q : Query} {v : LiveView}
    (hv : LiveView.ofQuery? functions objects optimizer autocommit q = .ok v) :
    ∃ ins, (start v).view.Nets (start v).last ins := by
  obtain ⟨hkeeps, p, ins, top, out, ht, hrec⟩ := start_recorded [] hv
  have hempty : v.tables = [] ∧ v.queued = [] := by
    obtain ⟨p, -, h⟩ := bind_eq_ok.mp hv
    obtain ⟨c, -, h⟩ := bind_eq_ok.mp h
    obtain rfl := Except.ok.inj h
    exact ⟨rfl, rfl⟩
  refine ⟨ins, ht.serves.ready, ht.serves.fed hkeeps, fun _ => Table.keysNodup_nil, hrec.tables,
    ht.queued, fun name => ?_⟩
  have hsnapshot : v.snapshot name = [] := by
    rw [LiveView.snapshot, hempty.1]
    rfl
  show Delta.Same ([] ++ (v.queued.get? name).getD []) (v.snapshot name).rows
  rw [hsnapshot, hempty.2]
  exact .refl _

/-- **Transactions coalesce to the net change.** Whatever operations were carried out, whether their
flushes failed or not, each input is that of one collection. The next flush sends to each input of
a collection, in one piece, the difference between the table at the last flush and now: at most one
removal of the old row and one insertion of the new row for each key, and nothing for keys that
ended where they started. This, and nothing else, is put at the node, and the graph that the flush
leaves behind is what comes of that graph: a run that meets no error takes in at the input what
waited there, followed by the difference. All that was ever sent to an input adds up to the rows of
the table, each once. -/
theorem flush_sends_net_change {functions : RowFunctions} {objects : Nat → Nat}
    {optimizer : Optimizer} {autocommit : Bool} {q : Query} {v : LiveView}
    (hv : LiveView.ofQuery? functions objects optimizer autocommit q = .ok v)
    (ops : List Operation) (op : Operation) (hflushes : ((start v).run ops).Flushes op) :
    let h := (start v).run ops
    let w := (h.view.prepare op).1
    h.view.perform op = w.flush ∧ (h.step op).view.snapshot = w.snapshot ∧
      (∀ n node, w.circuit.graph.nodes[n]? = some node → node.isInput = true →
        ∃! name, n ∈ w.circuit.inputs.of name) ∧
      ∃ g, w.circuit.graph.sendAll w.sends = .ok g ∧
        w.flush.1.circuit.graph =
          (if g.hasWork then
            if g.run.2.isSome then g.run.1 else (g.run.1.drain w.circuit.sink).1
          else g) ∧
        (∀ (n : Nat) (node : Node), w.circuit.graph.nodes[n]? = some node → node.isInput = false →
          g.nodes[n]? = some node) ∧
        ∀ name, ∀ n ∈ w.circuit.inputs.of name, ∃ node net,
          w.circuit.graph.nodes[n]? = some node ∧ node.isInput = true ∧ 0 < node.inbox.length ∧
          (h.last name).KeysNodup ∧ (w.snapshot name).KeysNodup ∧
          net.Perm ((h.last name).difference (w.snapshot name)) ∧
          w.sends.filter (·.1 = n) = (if net = [] then [] else [(n, net)]) ∧
          g.nodes[n]? = some (node.receive 0 net) ∧
          (g.run.2 = none → Graph.received (Graph.turnsOfPasses (g.nodes.length + 1) g).flatten n 0 =
            Graph.waitingAt node 0 ++ net) ∧
          Delta.Same ((start v).sent (ops ++ [op]) n) (w.snapshot name).rows := by
  intro h w
  obtain ⟨ins, hstart⟩ := start_nets hv
  have hnets : h.view.Nets h.last ins := run_nets hstart ops
  have hw : w.Nets h.last ins := hnets.prepare op
  have hperform : h.view.perform op = w.flush := LiveView.perform_of_flushes (Prod.ext rfl hflushes)
  obtain ⟨g, hg⟩ := hw.fed_ok
  obtain ⟨-, hsnapshot, hcircuit⟩ := LiveView.flush_leaves w hg
  have hnode : ∀ k : Nat, g.nodes[k]? =
      (w.circuit.graph.nodes[k]?).map (·.receive 0 (sentTo w.sends k)) := Graph.sendAll_node hg
  refine ⟨hperform, ?_, fun n node hnode hin => hw.fed.existsUnique_name hnode hin, g, hg,
    congrArg Circuit.graph hcircuit, fun n node hn hin => ?_, fun name n hn => ?_⟩
  · show (h.view.perform op).1.snapshot = w.snapshot
    rw [hperform]
    exact hsnapshot
  · rw [hnode, hn, hw.sentTo_eq_nil hn hin, Option.map_some, Node.receive_nil]
  · obtain ⟨node, hn', hin, hpos⟩ := hw.fed.node hn
    have hsent : sentTo w.sends n = w.net name := LiveView.sentTo_sends hw.fed.apart hw.queued hn
    have hgn : g.nodes[n]? = some (node.receive 0 (w.net name)) := by
      rw [hnode, hn', hsent]
      rfl
    refine ⟨node, w.net name, hn', hin, hpos, hw.before name, hw.tables name, hw.net_perm name, ?_,
      hgn, fun hrun => ?_, ?_⟩
    · rw [LiveView.filter_sends hw.fed.apart hw.queued hn]
      simp only [List.isEmpty_iff]
    · have hready : g.Ready ins := hw.ready.kept (Graph.kept_sendAll hg)
      rw [hready.input_received (Prod.ext rfl hrun) hgn hin,
        Graph.waitingAt_receive node 0 _ hpos, if_pos rfl]
    · have hi : n ∈ v.circuit.inputs.of name := by
        have hinputs := (LiveView.prepare_fixed h.view op).inputs.trans (run_inputs hstart ops)
        exact hinputs ▸ hn
      have hsent := same_sent hstart hi (ops ++ [op])
      rw [run_append, last_of_flushes hflushes] at hsent
      exact hsent

/-- People and their bosses, who are people: the collection is read twice. In a transaction one person
changes, one goes and comes back, one is new and one was never there. -/
theorem flush_sends_net_change_of_self_join :
    let change (kind : ChangeKind) (key boss : Int64) : Operation :=
      .apply "people" ⟨kind, .int key, .object [("id", .int key), ("boss", .int boss)], none⟩
    let row (key boss : Int64) : Row :=
      { key := .plain (.int key), value := .object [("id", .int key), ("boss", .int boss)] }
    let q : Query :=
      { source := .collection "people" "e"
        joins := [⟨.inner, .collection "people" "m", .ref ["e", "boss"], .ref ["m", "id"]⟩] }
    let ops : List Operation :=
      [change .insert 1 1, change .insert 2 1, .begin, change .update 1 2, change .delete 2 1,
        change .insert 2 1, change .update 3 1, change .delete 4 1]
    ∃ v, LiveView.ofQuery? (fun _ v => v) id ⟨true, 1, 1⟩ true q = .ok v ∧
      ((start v).run ops).Flushes .commit ∧
      let h := (start v).run ops
      let w := (h.view.prepare .commit).1
      let net := [(row 1 1, -1), (row 1 2, 1), (row 3 1, 1)]
      w.circuit.inputs.of "people" = [0, 2] ∧ w.sends = [(0, net), (2, net)] ∧
        net.Perm ((h.last "people").difference (w.snapshot "people")) ∧
        ∃ g, w.circuit.graph.sendAll w.sends = .ok g ∧ ∀ n ∈ [0, 2],
          Graph.received (Graph.turnsOfPasses (g.nodes.length + 1) g).flatten n 0 = net ∧
            Delta.Same ((start v).sent (ops ++ [.commit]) n) (w.snapshot "people").rows := by
  intro change row q ops
  let net := [(row 1 1, -1), (row 1 2, 1), (row 3 1, 1)]
  have hrun : (LiveView.ofQuery? (fun _ v => v) id ⟨true, 1, 1⟩ true q).map (fun v =>
      decide (((start v).run ops).Flushes .commit ∧
        (((start v).run ops).view.prepare .commit).1.circuit.inputs.of "people" = [0, 2] ∧
        (((start v).run ops).view.prepare .commit).1.sends = [(0, net), (2, net)] ∧
        (∀ n ∈ [0, 2], ((((start v).run ops).view.prepare .commit).1.circuit.graph.nodes[n]?).map
          (Graph.waitingAt · 0) = some []) ∧
        ((((start v).run ops).view.prepare .commit).1.circuit.graph.sendAll
          (((start v).run ops).view.prepare .commit).1.sends).toOption.map (·.run.2.isNone) =
            some true)) = .ok true := by decide +kernel
  obtain ⟨v, hv, hdecided⟩ := map_eq_ok.mp hrun
  obtain ⟨hflushes, hinputs, hsends, hwaiting, hok⟩ := of_decide_eq_true hdecided
  obtain ⟨-, -, -, g, hg, -, -, hnet⟩ := flush_sends_net_change hv ops .commit hflushes
  have hgrun : g.run.2 = none := by
    rw [hg] at hok
    exact Option.isNone_iff_eq_none.mp (Option.some.inj hok)
  have hinput : ∀ n ∈ [0, 2],
      net.Perm (((start v).run ops).last "people" |>.difference
          ((((start v).run ops).view.prepare .commit).1.snapshot "people")) ∧
        Graph.received (Graph.turnsOfPasses (g.nodes.length + 1) g).flatten n 0 = net ∧
        Delta.Same ((start v).sent (ops ++ [.commit]) n)
          ((((start v).run ops).view.prepare .commit).1.snapshot "people").rows := by
    intro n hn
    obtain ⟨node, d, hnode, -, -, -, -, hperm, hfilter, -, hreceived, hsent⟩ :=
      hnet "people" n (hinputs ▸ hn)
    have hone : [(0, net), (2, net)].filter (fun e => decide (e.1 = n)) = [(n, net)] := by
      rcases List.mem_pair.mp hn with rfl | rfl <;> rfl
    rw [hsends, hone] at hfilter
    have hd : d = net := by
      split at hfilter
      · exact absurd hfilter (by simp)
      · exact (Prod.mk.inj (List.singleton_inj.mp hfilter)).2.symm
    have hempty : Graph.waitingAt node 0 = [] := by
      have := hwaiting n hn
      rw [hnode] at this
      exact Option.some.inj this
    rw [hd, hempty] at hreceived
    exact ⟨hd ▸ hperm, hreceived hgrun, hsent⟩
  exact ⟨v, hv, hflushes, hinputs, hsends, (hinput 0 List.mem_cons_self).1, g, hg, fun n hn =>
    (hinput n hn).2⟩

end History

end DeltaView
