import DeltaView.Proofs.Dataflow.Failure
import DeltaView.Proofs.View.Identity

/-!
# Failures of flushes

A flush of a view of a query fails only in a ranking, for want of an order key. So all flushes
succeed where there is always one to be found, and where the query ranks nothing.

* `fed_ok`: feeding the inputs of collections does not fail. **`flush_error`**: a flush.
* `FindsKeys`: no flush fails for want of an order key. **`succeeds_of_findsKeys`**.
-/

namespace DeltaView

variable {functions : RowFunctions} {p : Plan} {all : List Snapshot} {window : Option Window}
  {ins : Nat → List Nat} {top out : Nat} {l : Graph.Ledger}

namespace LiveView

/-- The inputs of collections are inputs of the graph. -/
def FeedsInputs (inputs : Inputs) (g : Graph) : Prop :=
  ∀ name, ∀ n ∈ inputs.of name, ∃ node, g.nodes[n]? = some node ∧ node.isInput = true

theorem fed_ok {v : LiveView} (h : FeedsInputs v.circuit.inputs v.circuit.graph) :
    ∃ g, v.fed = .ok g :=
  Graph.sendAll_ok fun e he => by
    obtain ⟨name, hname⟩ := mem_sends he
    exact h name e.1 hname

theorem feedsInputs_of_keepsKeys {c : Circuit} (h : c.KeepsKeys) :
    FeedsInputs c.inputs c.graph := by
  intro name n hn
  obtain ⟨f, hf, hin⟩ := h.named name n hn
  obtain ⟨node, hnode, rfl⟩ := Graph.node_of_skeleton hf
  exact ⟨node, hnode, hin⟩

/-- **A flush fails only in a ranking**, for want of an order key. -/
theorem flush_error {v w : LiveView} {output : Delta Row} {e : Error}
    (ht : v.Tracks functions p all window output ins top out l) (hkeeps : v.circuit.KeepsKeys)
    (h : v.flush = (w, .error e)) : v.circuit.graph.RankingFails e := by
  obtain ⟨g, hfeed⟩ := fed_ok (feedsInputs_of_keepsKeys hkeeps)
  have hkept := Graph.kept_sendAll hfeed
  cases v.flushCases with
  | unfed e' hfeed' _ => cases hfeed.symm.trans hfeed'
  | idle graph _ _ hflush _ => cases hflush.symm.trans h
  | fails graph graph' e' hfeed' _ hrun hflush =>
    obtain rfl := Except.ok.inj (hfeed.symm.trans hfeed')
    obtain rfl := Except.error.inj (Prod.mk.inj (hflush.symm.trans h)).2
    exact (Graph.run_error (ht.serves.ready.kept hkept) hrun).of_kept hkept
  | runs graph graph' _ _ _ hflush _ => cases hflush.symm.trans h

end LiveView

namespace History

/-- No flush that some operations make fails for want of an order key. -/
def FindsKeys (h : History) : List Operation → Prop
  | [] => True
  | op :: ops =>
    (h.Flushes op → ∀ fault, (h.view.perform op).2 ≠ .error (.orderKey fault)) ∧
      (h.step op).FindsKeys ops

theorem FindsKeys.of_succeeds {h : History} {ops : List Operation} (hok : h.Succeeds ops) :
    h.FindsKeys ops := by
  induction ops generalizing h with
  | nil => trivial
  | cons op ops ih =>
    refine ⟨fun hf fault he => ?_, ih hok.2⟩
    obtain ⟨batch, hbatch⟩ := hok.1 hf
    exact absurd (hbatch.symm.trans he) (by simp)

/-- A flush succeeds if the query ranks nothing, or there is an order key for every row. -/
theorem flush_ok {start h : History}
    (ht : h.view.Tracks functions p all window h.output ins top out l)
    (hkeeps : start.view.circuit.KeepsKeys) (hfixed : start.view.circuit.Fixed h.view.circuit)
    {op : Operation} (hf : h.Flushes op) (hkeys : start.view.circuit.graph.rankings ≠ [] →
      ∀ fault, (h.view.perform op).2 ≠ .error (.orderKey fault)) :
    ∃ batch, (h.view.perform op).2 = .ok batch := by
  have hflush := flush_of_flushes hf
  cases hresult : (h.view.perform op).2 with
  | ok batch => exact ⟨batch, rfl⟩
  | error e =>
    rw [hresult] at hflush
    have hprep := LiveView.prepare_tracks ht op
    have hfixed := hfixed.trans (LiveView.prepare_fixed h.view op)
    have hkeeps := hkeeps.fixed hfixed
    obtain ⟨⟨fault, rfl⟩, i, n, compare, s, hn, hop⟩ := LiveView.flush_error hprep hkeeps hflush
    obtain ⟨m, -, hmem⟩ := hkeeps.exists_ranking hfixed hprep.serves.ready.wired hn
      (hprep.accounts i n hn).inlets hop
    exact absurd hresult (hkeys (List.ne_nil_of_mem hmem) fault)

theorem succeeds_of_tracks {start h : History}
    (ht : h.view.Tracks functions p all window h.output ins top out l)
    (hkeeps : start.view.circuit.KeepsKeys) (hfixed : start.view.circuit.Fixed h.view.circuit)
    {ops : List Operation} (hkeys : start.view.circuit.graph.rankings ≠ [] → h.FindsKeys ops)
    (hall : (h.run ops).snapshots ⊆ all) : h.Succeeds ops := by
  induction ops generalizing h window l with
  | nil => trivial
  | cons op ops ih =>
    have hok : h.Flushes op → ∃ batch, (h.view.perform op).2 = .ok batch := fun hf =>
      flush_ok ht hkeeps hfixed hf fun hne => (hkeys hne).1 hf
    obtain ⟨l', ht', hadv⟩ := step_tracks ht op hok
      (List.Subset.trans (snapshots_run (h.step op) ops) hall)
    exact ⟨hok, ih ht' (hfixed.trans hadv.fixed) (fun hne => (hkeys hne).2) hall⟩

/-- **All flushes of a view of a query succeed**, if the query ranks nothing or no flush fails for
want of an order key. -/
theorem succeeds_of_findsKeys {objects : Nat → Nat} {optimizer : Optimizer} {autocommit : Bool}
    {q : Query} {v : LiveView}
    (hv : LiveView.ofQuery? functions objects optimizer autocommit q = .ok v) {ops : List Operation}
    (hkeys : v.circuit.graph.rankings ≠ [] → (start v).FindsKeys ops) : (start v).Succeeds ops := by
  obtain ⟨hkeeps, p, ins, top, out, ht, hrec⟩ := start_recorded ((start v).run ops).snapshots hv
  exact succeeds_of_tracks ht hkeeps hrec.fixed hkeys (List.Subset.refl _)

end History

end DeltaView
