import DeltaView.Proofs.Dataflow.Ends
import DeltaView.Proofs.Plan.Emission

/-!
# Circuits

A circuit serves its plan: the rows of the plan come out at the node below its sink. The only thing
that ever changes about this is the window that the plan ends with.

* `target?` is the window that a circuit is going to; once nothing is left to do it is in force.
* `Made`, **`ofPlan?_made`**: what a circuit is when it is made of a plan.
* **`ofPlan?_serves`**: it serves the plan then, and nothing has happened in it.
* `Serves.kept`, `Serves.request`: it still does whatever runs, and where its window moves.
-/

namespace DeltaView

open Graph (Computes Stands Accounts Ledger Seen AgreeTo Kept)

namespace Graph

variable {g : Graph} {ins : Nat → List Nat}

theorem kindAt_set_ne {g' : Graph} {i k : Nat} {f : Frame} (h : g'.frames = g.frames.set i f)
    (hk : k ≠ i) : g'.kindAt k = g.kindAt k := by
  rw [kindAt, kindAt, h, List.getElem?_set_ne (Ne.symm hk)]

theorem kindAt_set_self {g' : Graph} {i : Nat} {f : Frame} (h : g'.frames = g.frames.set i f)
    (hi : i < g.frames.length) : g'.kindAt i = some (f.operator, f.isInput) := by
  rw [kindAt, h, List.getElem?_set_self hi]
  rfl

end Graph

namespace Plan

/-- What is assumed of a plan does not depend on the window that it ends with. -/
theorem atWindow_regular (p : Plan) (functions : RowFunctions) (all : List Snapshot)
    (w : Option Window) : ((p.atWindow w).Layered ↔ p.Layered) ∧
      ((p.atWindow w).Regular functions all ↔ p.Regular functions all) := by
  unfold atWindow
  split
  · exact ⟨Iff.rfl, Iff.rfl⟩
  · exact ⟨Iff.rfl, Iff.rfl⟩

end Plan

namespace Circuit

variable {functions : RowFunctions} {c : Circuit} {p : Plan} {ins : Nat → List Nat} {top out : Nat}
  {l : Ledger}

/-- The window that a circuit is going to. -/
def target? (c : Circuit) : Option Window :=
  c.windowNode.bind fun n => (c.graph.kindAt n).bind fun k => k.1.window?

/-- **A circuit serves a plan**: node `top` computes what is below the plan's output, `out` leaves
what was selected of it, and the sink reads that. -/
structure Serves (functions : RowFunctions) (c : Circuit) (p : Plan) (ins : Nat → List Nat)
    (top out : Nat) : Prop where
  ready : c.graph.Ready ins
  plan : ∃ q, p.atWindow c.target? = .output q ∧
    Computes functions c.inputs.of c.graph ins q top
  selects : c.graph.Stands ins out (.map Row.selected) [top]
  sink : c.graph.Stands ins c.sink (.output []) [out]
  unread : ∀ k, c.sink ∉ ins k
  window : ∀ n, c.windowNode = some n → n = top ∧ ∃ terms w q, p = .output (.rank terms w q)
  unwindowed : c.windowNode = none → ∀ window, p.atWindow window = p
  inputs : c.inputs.Apart

/-! ## A new circuit -/

/-- **A circuit as it is made of a plan**: node `out` computes the plan, the sink reads that, and
nothing has happened in it. What is below the plan's output comes out at a node of its own, which is
that of the window if it ends with a ranking. -/
structure Made (functions : RowFunctions) (c : Circuit) (p : Plan) (ins : Nat → List Nat)
    (out : Nat) : Prop where
  ready : c.graph.Ready ins
  fresh : ∀ (i : Nat) (n : Node), c.graph.nodes[i]? = some n → Graph.Fresh n
  accounts : Accounts c.graph.nodes ins .empty
  computes : Computes functions c.inputs.of c.graph ins p out
  sink : c.graph.Stands ins c.sink (.output []) [out]
  unread : ∀ k, c.sink ∉ ins k
  inputs : c.inputs.Apart
  output : ∀ q, p = .output q → ∃ top, Computes functions c.inputs.of c.graph ins q top ∧
    c.graph.Stands ins out (.map Row.selected) [top] ∧
    c.windowNode = if q.isRank then some top else none

/-- **A circuit can be made of every plan.** -/
theorem ofPlan?_made (functions : RowFunctions) (objects : Nat → Nat) (p : Plan) :
    ∃ c ins out, ofPlan? functions objects p = .ok c ∧ Made functions c p ins out := by
  obtain ⟨w, n, windowNode, ins, hw, hb, hc, houtput⟩ := Wiring.wireQuery_spec functions objects p
  obtain ⟨w', sink, ins', hadd, hb', hgrow, hs, hlen⟩ :=
    Wiring.add_one_spec hb (.output []) rfl rfl hc.lt_length
  obtain ⟨graph, hf, hgraph, hready⟩ := Graph.finalize_ready hb'.isOpen.wired hb'.isOpen.isOpen
  -- The finished graph has the nodes of the wiring, so every node stands as it did there.
  have hagree : ∀ k, AgreeTo w'.graph graph ins' ins' k := fun k =>
    .of_frames (by rw [Graph.frames, Graph.frames, hgraph]) k
  refine ⟨⟨graph, w'.inputs, sink, windowNode⟩, ins', n,
    bind_eq_ok.mpr ⟨_, hw, bind_eq_ok.mpr ⟨_, hadd, bind_eq_ok.mpr ⟨_, hf, rfl⟩⟩⟩,
    { ready := hready, fresh := ?_, accounts := ?_,
      computes := (hgrow.computes hc).agree (fun _ _ => id) (hagree n),
      sink := hs.agree (hagree sink), unread := fun k hk => ?_, inputs := hb'.inputs,
      output := fun q hq => ?_ }⟩
  · dsimp only
    rw [hgraph]
    exact hb'.isOpen.fresh
  · dsimp only
    rw [hgraph]
    exact hb'.isOpen.accounts
  · -- The sink is the last node, so nothing comes behind it.
    rcases Nat.lt_or_ge sink k with hlt | hge
    · rw [hb'.isOpen.beyond k (by rw [hlen]; exact hlt)] at hk
      exact absurd hk (by simp)
    · exact absurd (hb'.isOpen.wired.below k sink hk) (Nat.not_lt.mpr hge)
  · obtain ⟨top, htop, hout, hwindow⟩ := houtput q hq
    exact ⟨top, (hgrow.computes htop).agree (fun _ _ => id) (hagree top),
      (hgrow.stands hout).agree (hagree n), hwindow⟩

theorem target?_of_stands {compare : Value → Value → Ordering} {w : Window} {sources : List Nat}
    (hn : c.windowNode = some top) (h : c.graph.Stands ins top (.window compare (.start w)) sources) :
    c.target? = some w := by
  rw [target?, hn, Option.bind_some, h.kind]
  rfl

/-- A new circuit is going to the window that its plan ends with. -/
theorem atWindow_target {q : Plan} (hc : Computes functions c.inputs.of c.graph ins q top)
    (hwindow : c.windowNode = if q.isRank then some top else none) :
    (Plan.output q).atWindow c.target? = .output q := by
  cases q with
  | rank terms window q' =>
    obtain ⟨m, -, hstands⟩ := hc
    rw [target?_of_stands hwindow hstands]
    rfl
  | _ => rfl

/-- **A circuit can be made of every plan and serves it**, and nothing has happened in it. -/
theorem ofPlan?_serves (functions : RowFunctions) (objects : Nat → Nat) (q : Plan) :
    ∃ c ins top out, ofPlan? functions objects (.output q) = .ok c ∧
      Serves functions c (.output q) ins top out ∧ Accounts c.graph.nodes ins .empty ∧
      (Plan.output q).atWindow c.target? = .output q := by
  obtain ⟨c, ins, out, hc, hmade⟩ := ofPlan?_made functions objects (.output q)
  obtain ⟨top, htop, hout, hwindow⟩ := hmade.output q rfl
  have htarget := atWindow_target htop hwindow
  refine ⟨c, ins, top, out, hc, ⟨hmade.ready, ⟨q, htarget, htop⟩, hout, hmade.sink, hmade.unread,
    fun n hn => ?_, fun hn window => ?_, hmade.inputs⟩, hmade.accounts, htarget⟩
  · rw [hwindow] at hn
    cases q with
    | rank terms w q' => exact ⟨(Option.some.inj hn).symm, terms, w, q', rfl⟩
    | _ => exact absurd hn (by simp [Plan.isRank])
  · rw [hwindow] at hn
    cases q with
    | rank terms w q' => exact absurd hn (by simp [Plan.isRank])
    | _ => rfl

/-! ## Runs -/

/-- The circuit with another state of its graph. -/
def withGraph (c : Circuit) (graph : Graph) : Circuit := { c with graph }

/-- Only a request turns a circuit to another window. -/
theorem target?_of_kept {graph : Graph} (hk : Kept c.graph graph) :
    (c.withGraph graph).target? = c.target? := by
  unfold target? Graph.kindAt withGraph
  rw [hk.frames]

/-- A circuit serves its plan whatever its graph does, as long as the nodes stay what they are. -/
theorem Serves.kept (h : Serves functions c p ins top out) {graph : Graph}
    (hk : Kept c.graph graph) : Serves functions (c.withGraph graph) p ins top out := by
  have hagree : ∀ k, AgreeTo c.graph graph ins ins k := fun k => .of_frames hk.frames k
  obtain ⟨q, hq, hc⟩ := h.plan
  exact ⟨h.ready.kept hk, ⟨q, target?_of_kept hk ▸ hq, hc.agree (fun _ _ => id) (hagree top)⟩,
    h.selects.agree (hagree out), h.sink.agree (hagree c.sink), h.unread, h.window, h.unwindowed,
    h.inputs⟩

/-- Once nothing is left to do, the window that a circuit was going to is in force. -/
theorem window?_eq_target? (hidle : c.graph.Idle) : c.window? = c.target? := by
  unfold window? target?
  cases c.windowNode with
  | none => rfl
  | some n =>
    rw [Option.bind_some, Option.bind_some, Graph.kindAt, Graph.frames_getElem?, Graph.window?]
    cases hn : c.graph.nodes[n]? with
    | none => rfl
    | some node =>
      have hpending : node.operator.hasPending = false := by
        have := hidle n node hn
        rw [Node.hasWork, Bool.or_eq_false_iff] at this
        exact this.2
      rw [Option.map_some, Option.map_some, Option.bind_some, Option.bind_some]
      show node.operator.window? = node.operator.reset.window?
      cases hop : node.operator with
      | window compare s =>
        rw [hop] at hpending
        have hnone : s.pending = none := by
          simpa [Operator.hasPending, WindowState.hasPending] using hpending
        rw [Operator.reset, WindowState.target, hnone]
        rfl
      | _ => rfl

/-- **What has reached the sink are the rows of the plan**, once nothing is left to do. -/
theorem Serves.consumed_shows (h : Serves functions c p ins top out)
    (ha : Accounts c.graph.nodes ins l) (hidle : c.graph.Idle) {all : List Snapshot}
    {tables : Snapshot} (hfeeds : Graph.Feeds c.inputs.of l tables) (ht : tables ∈ all)
    (hseen : Seen functions c.inputs.of c.graph ins all top l.seen l.present)
    (hl : p.Layered) (hr : p.Regular functions all) :
    Delta.Shows (l.consumed c.sink 0) ((p.atWindow c.window?).rows functions tables) := by
  obtain ⟨q, hq, hc⟩ := h.plan
  obtain ⟨hlw, hrw⟩ := p.atWindow_regular functions all c.target?
  rw [hq] at hlw hrw
  have hd := Graph.computes_delivers ha hidle hfeeds ht hseen q top le_rfl (hlw.mpr hl)
    (hrw.mpr hr) hc
  have hout := Graph.emitted_map h.selects ha hidle
  obtain ⟨op, -, -, -, hin⟩ := h.sink.reached ha hidle
  rw [window?_eq_target? hidle, hq]
  exact (hd.shows.map (f := Row.selected) fun _ => rfl).congr (hout.symm.trans (hin 0 out rfl).symm)
    (.refl _)

theorem Serves.sinkAt (h : Serves functions c p ins top out) :
    Graph.SinkAt c.graph.frames c.sink := by
  obtain ⟨f, hf, hk⟩ := Option.map_eq_some_iff.mp h.sink.kind
  exact ⟨f, hf, (Prod.mk.inj hk).1⟩

/-- The ledger goes on: nodes but the sink have emitted `out` more, and have seen no more values
than those that they have consumed in the end. -/
structure Continues (sink : Nat) (l l' : Ledger) (out : Nat → Delta Row) : Prop where
  emitted : ∀ k, k ≠ sink → l'.emitted k = l.emitted k ++ out k
  seen : ∀ k v, l'.seen k v → l.seen k v ∨ l'.present k v

theorem Continues.refl (sink : Nat) (l : Ledger) {out : Nat → Delta Row} (h : ∀ k, out k = []) :
    Continues sink l l out :=
  ⟨fun k _ => by rw [h, List.append_nil], fun _ _ => Or.inl⟩

/-- A run leaves nothing to do, takes nothing out of the sink, and shows the nodes no values but
those of the snapshot that was fed. -/
theorem Serves.run (h : Serves functions c p ins top out) (ha : Accounts c.graph.nodes ins l)
    {all : List Snapshot} {tables : Snapshot} (hfeeds : Graph.Feeds c.inputs.of l tables)
    (ht : tables ∈ all)
    (hseen : Seen functions c.inputs.of c.graph ins all top l.seen fun _ _ => False)
    {graph : Graph} (hrun : c.graph.run = (graph, none)) :
    ∃ l', Accounts graph.nodes ins l' ∧ Kept c.graph graph ∧ graph.Idle ∧ l'.sent = l.sent ∧
      l'.emitted c.sink = l.emitted c.sink ∧
      (Seen functions c.inputs.of graph ins all top l'.seen fun _ _ => False) ∧
      Continues c.sink l l' c.graph.runOut := by
  obtain ⟨l', ha', hturns, hk, hidle⟩ := Graph.run_spec h.ready ha hrun
  have hseen' : Seen functions c.inputs.of graph ins all top l'.seen l'.present := by
    intro q m n hn hl hr hq hs x hx
    rcases hturns.seen n x hx with hx | hx
    · exact Or.inl ((hseen.kept hk q m n hn hl hr hq hs x hx).resolve_right id)
    · exact Or.inr hx
  have hfeeds' : Graph.Feeds c.inputs.of l' tables := fun name n hn => by
    rw [hturns.sent]
    exact hfeeds name n hn
  exact ⟨l', ha', hk, hidle, hturns.sent, hturns.sinks c.sink h.sinkAt,
    hseen'.settle ha' hidle hfeeds' ht, fun k _ => hturns.emitted k, hturns.seen⟩

/-- Draining the sink takes out all that has reached it and was not taken out before. -/
theorem Serves.drain (h : Serves functions c p ins top out) (ha : Accounts c.graph.nodes ins l) :
    ∃ l', Accounts (c.graph.drain c.sink).1.nodes ins l' ∧
      Kept c.graph (c.graph.drain c.sink).1 ∧ l'.sent = l.sent ∧ l'.consumed = l.consumed ∧
      l'.seen = l.seen ∧ (∀ k, k ≠ c.sink → l'.emitted k = l.emitted k) ∧
      l'.emitted c.sink = l.emitted c.sink ++ (c.graph.drain c.sink).2.flatten ∧
      Delta.Same (l'.emitted c.sink) (l'.consumed c.sink 0) := by
  obtain ⟨node, hn, hreset⟩ := h.sink.node
  cases hop : node.operator with
  | output batches =>
    obtain ⟨hdrain, ha', hk⟩ := Graph.drain_spec ha hn hop h.unread
    have hreached := (ha c.sink node hn).reached
    rw [hop] at hreached
    refine ⟨_, ha', hk, rfl, rfl, rfl, fun k hk => if_neg hk, ?_, ?_⟩
    · rw [hdrain]
      exact if_pos rfl
    · dsimp only
      rw [if_pos rfl]
      exact hreached
  | _ =>
    rw [hop] at hreset
    cases hreset

/-- What becomes of a circuit that runs and whose sink is drained then: nothing is left to do, and
all that has reached the sink was taken out. -/
structure Settles (functions : RowFunctions) (c : Circuit) (all : List Snapshot)
    (ins : Nat → List Nat) (top : Nat) (l l' : Ledger) (graph : Graph) (drained : Delta Row) :
    Prop where
  accounts : Accounts graph.nodes ins l'
  kept : Kept c.graph graph
  idle : graph.Idle
  seen : Seen functions c.inputs.of graph ins all top l'.seen fun _ _ => False
  sent : l'.sent = l.sent
  drained : l'.emitted c.sink = l.emitted c.sink ++ drained
  taken : Delta.Same (l'.emitted c.sink) (l'.consumed c.sink 0)
  continues : Continues c.sink l l' c.graph.runOut

/-- **A run and the drain after it settle a circuit.** -/
theorem Serves.settles (h : Serves functions c p ins top out) (ha : Accounts c.graph.nodes ins l)
    {all : List Snapshot} {tables : Snapshot} (hfeeds : Graph.Feeds c.inputs.of l tables)
    (ht : tables ∈ all)
    (hseen : Seen functions c.inputs.of c.graph ins all top l.seen fun _ _ => False)
    {graph : Graph} (hrun : c.graph.run = (graph, none)) :
    ∃ l', Settles functions c all ins top l l' (graph.drain c.sink).1
      (graph.drain c.sink).2.flatten := by
  obtain ⟨l1, ha1, hk1, hidle, hsent1, he1, hseen1, hmore⟩ := h.run ha hfeeds ht hseen hrun
  obtain ⟨l2, ha2, hk2, hsent2, hc2, hs2, hother, hdrained, htaken⟩ := (h.kept hk1).drain ha1
  refine ⟨l2, { accounts := ha2, kept := hk1.trans hk2, idle := Graph.drain_idle hidle _,
                seen := ?_, sent := hsent2.trans hsent1, drained := ?_, taken := htaken,
                continues := ⟨fun k hk => ?_, fun k x hx => ?_⟩ }⟩
  · rw [hs2]
    exact hseen1.kept hk2
  · exact hdrained.trans (by rw [← he1]; rfl)
  · rw [hother k hk, hmore.emitted k hk]
  · rw [hs2] at hx
    show l.seen k x ∨ Delta.HasValue (l2.consumed k 0) x
    rw [hc2]
    exact hmore.seen k x hx

/-- **A circuit whose window is asked to move** is going to where the request leads then, and below
the window nothing changes. -/
theorem Serves.request (h : Serves functions c p ins top out) (ha : Accounts c.graph.nodes ins l)
    {n : Nat} (hn : c.windowNode = some n) (u : Window.Update) :
    let graph := c.graph.requestWindow n u
    Serves functions (c.withGraph graph) p ins top out ∧ Accounts graph.nodes ins l ∧
      (∀ k, k ≠ top → graph.kindAt k = c.graph.kindAt k) ∧
      ∃ window, (c.withGraph graph).target? = some (u.apply window) := by
  intro graph
  obtain ⟨rfl, terms, w, q, rfl⟩ := h.window n hn
  obtain ⟨q', hq', hc⟩ := h.plan
  obtain rfl := Plan.output.inj hq'
  obtain ⟨m, hm, hs⟩ := hc
  obtain ⟨node, hnode, hreset⟩ := hs.node
  cases hop : node.operator with
  | window compare s =>
    rw [hop] at hreset
    obtain ⟨rfl, -⟩ := Operator.window.inj hreset
    obtain ⟨hacc, hframes, horder, hfinal⟩ := Graph.requestWindow_spec ha u hnode hop
    have hnf := Graph.frame_of_node hnode
    obtain ⟨hlt, -⟩ := List.getElem?_eq_some_iff.mp hnf
    have hother : ∀ k, k ≠ n → graph.kindAt k = c.graph.kindAt k := fun k hk =>
      Graph.kindAt_set_ne hframes hk
    have hisInput : node.isInput = false := by
      have := hs.kind
      rw [Graph.kindAt, hnf] at this
      exact (Prod.mk.inj (Option.some.inj this)).2
    have hself : graph.kindAt n = some (.window (OrderTerm.compareRows terms)
        (.start (u.apply s.target)), false) := by
      rw [Graph.kindAt_set_self hframes hlt, ← hisInput]
      rfl
    have hstands : graph.Stands ins n (.window (OrderTerm.compareRows terms)
        (.start (u.apply s.target))) [m] := ⟨hself, hs.ins, hs.below⟩
    have hbelow : AgreeTo c.graph graph ins ins m := fun i hi => by
      refine ⟨hother i (Nat.ne_of_lt (Nat.lt_of_le_of_lt hi (hs.below m List.mem_cons_self))), rfl⟩
    have hout := h.selects.below n List.mem_cons_self
    have hsink := h.sink.below out List.mem_cons_self
    have htarget : (c.withGraph graph).target? = some (u.apply s.target) :=
      target?_of_stands (c := c.withGraph graph) hn hstands
    have hwired : Graph.Wired graph.frames ins := by
      rw [hframes]
      exact h.ready.wired.set_operator hnf _
    refine ⟨⟨?_, ⟨.rank terms (u.apply s.target) q, by rw [htarget]; rfl, m,
      hm.agree (fun _ _ => id) hbelow, hstands⟩, ?_, ?_, h.unread, h.window, h.unwindowed, h.inputs⟩,
      hacc, hother, s.target, htarget⟩
    · refine h.ready.of_wired hwired ?_ horder hfinal
      show graph.nodes.length = _
      rw [← Graph.length_frames, hframes, List.length_set, Graph.length_frames]
    · exact ⟨(hother out (by omega)).trans h.selects.kind, h.selects.ins, h.selects.below⟩
    · exact ⟨(hother c.sink (by omega)).trans h.sink.kind, h.sink.ins, h.sink.below⟩
  | _ =>
    rw [hop] at hreset
    cases hreset

end Circuit

end DeltaView
