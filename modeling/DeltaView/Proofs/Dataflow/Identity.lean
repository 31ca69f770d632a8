import DeltaView.Proofs.Dataflow.Ledger
import DeltaView.Proofs.Delta.Identified

/-!
# Operators keep rows apart

What an operator emits are rows that can be told apart by their keys, if this holds of what it
consumes: matched and padded rows have the keys of their sides, groups and values have keys of
their own, and every other operator leaves the keys of its rows alone.

* `Operator.KeepsKeys`: what is asked of the function of a map. A sink, which emits what is drained
  from it, is left out.
* **`Reached.identified`**: one operator, whichever it is.
* **`emitted_identified`**: all nodes of a graph that has nothing to do, by induction on the nodes.
-/

namespace DeltaView

variable {α β : Type}

namespace Operator

/-- The operator leaves the keys of its rows alone or makes keys of its own. -/
def KeepsKeys : Operator → Prop
  | .map f => ∀ r, (f r).key = r.key
  | .output _ => False
  | _ => True

end Operator

/-! ## Tables that are emitted -/

theorem GroupState.emittedRows_identified (view : KeyView α β) {rule : GroupRule} {s : GroupState}
    {d : Delta Row} (h : Groups rule s d) : (emittedRows s).IdentifiedBy view.ofRow := by
  refine .of_rows (s.emitted.map (·.2)) ?_ (.of_eq ?_)
  · have hkey : ∀ e ∈ s.emitted, e.2.key = .plain e.1 := fun e he =>
      h.emitted_key e.1 e.2 (Table.get?_of_mem h.keys he)
    have hkeys := h.keys
    rw [Table.KeysNodup, List.Nodup, List.pairwise_map] at hkeys
    rw [List.map_map, List.Nodup, List.pairwise_map]
    refine hkeys.imp_of_mem fun {a b} ha hb hne he => hne (view.plain_injective _ _ ?_)
    rw [← hkey a ha, ← hkey b hb]
    exact he
  · rw [emittedRows, List.map_map]
    rfl

theorem DistinctState.table_identified (view : KeyView α β) (values : Delta Value) :
    (table values).IdentifiedBy view.ofRow := by
  refine .of_rows ((Delta.present Value.cmp values).map rowOf) ?_ (.of_eq ?_)
  · rw [List.map_map]
    exact (Delta.nodup_present _ _).map fun v w h => view.plain_injective v w h
  · rw [table, Delta.mapItems, List.map_map, List.map_map]
    rfl

theorem WindowState.shown_identified (view : KeyView α β) {compare : Value → Value → Ordering}
    {S : Value → Prop} (hc : PreorderOn compare S) {s : WindowState} {d : Delta Row}
    (h : s.Holds compare S (Delta.mapItems Row.unordered d)) (hd : d.IdentifiedBy view.ofRow) :
    (Ranking.shown s.ranking.visible).IdentifiedBy view.ofRow := by
  have hrows : ((s.ranking.elements.map (·.row)).map view.ofRow).Nodup := by
    rw [h.rows_eq hc]
    have hpresent := (hd.mapItems (g := Row.unordered) fun _ => rfl).nodup_present
    exact ((List.mergeSort_perm ..).map _).nodup_iff.mpr hpresent
  refine .of_rows (s.ranking.visible.map Ranked.toRow) ?_ (.of_eq ?_)
  · rw [Ranking.visible_eq_slice, List.map_map]
    rw [List.map_map] at hrows
    exact hrows.sublist ((Window.slice_sublist _ _).map _)
  · rw [Ranking.shown, List.map_map]
    rfl

/-! ## One operator -/

/-- **What an operator has emitted are rows that can be told apart**, if this holds of what it has
consumed. -/
theorem Operator.Reached.identified (view : KeyView α β) {op : Operator}
    {consumed : Nat → Delta Row} {emitted : Delta Row} {seen : Value → Prop}
    (h : op.Reached consumed emitted seen) (hk : op.KeepsKeys)
    (hin : ∀ j, j < op.arity → (consumed j).IdentifiedBy view.ofRow)
    (ho : ∀ compare s, op = .window compare s → PreorderOn compare seen)
    (hc : ¬ view.Confuses emitted) : emitted.IdentifiedBy view.ofRow := by
  cases op with
  | input => exact (hin 0 Nat.one_pos).congr h.symm
  | map f => exact ((hin 0 Nat.one_pos).mapItems fun r => congrArg view.ofKey (hk r)).congr h.symm
  | filter p => exact ((hin 0 Nat.one_pos).filterItems p).congr h.symm
  | consolidate => exact (hin 0 Nat.one_pos).congr h.symm
  | output batches => exact hk.elim
  | join rule s =>
    obtain ⟨-, hem⟩ := h
    have htable := JoinRule.table_identified view rule (hin 0 Nat.two_pos)
      (hin 1 Nat.one_lt_two) fun hconf => hc (hconf.congr hem.symm)
    exact htable.congr hem.symm
  | group rule s => exact (GroupState.emittedRows_identified view h.1.toGroups).congr h.2.symm
  | distinct extract s => exact (DistinctState.table_identified view _).congr h.2.symm
  | window compare s =>
    obtain ⟨hholds, hem⟩ := h.2 (ho compare s rfl)
    exact (WindowState.shown_identified view (ho compare s rfl) hholds (hin 0 Nat.one_pos)).congr
      hem.symm

/-! ## All nodes -/

namespace Graph

variable {g : Graph} {ins : Nat → List Nat} {l : Ledger} {sink : Nat}

/-- **With nothing left to do, every node but the sink has emitted rows that can be told apart**, if
the inputs were sent such rows. -/
theorem emitted_identified (view : KeyView α β) (hw : Wired g.frames ins)
    (ha : Accounts g.nodes ins l) (hidle : g.Idle) (hunread : ∀ k, sink ∉ ins k)
    (hkeeps : ∀ i n, g.nodes[i]? = some n → i ≠ sink → n.operator.KeepsKeys)
    (hinput : ∀ i n, g.nodes[i]? = some n → n.isInput = true →
      n.operator.arity = 1 ∧ (l.sent i).IdentifiedBy view.ofRow)
    (hranked : ∀ i n compare s, g.nodes[i]? = some n → n.operator = .window compare s →
      PreorderOn compare (l.seen i))
    (hc : ∀ i, i < g.nodes.length → i ≠ sink → ¬ view.Confuses (l.emitted i)) (i : Nat)
    (hi : i < g.nodes.length) (hs : i ≠ sink) :
    (l.emitted i).IdentifiedBy view.ofRow := by
  induction i using Nat.strong_induction_on with
  | _ i ih =>
    have hn := List.getElem?_eq_getElem hi
    refine (ha i _ hn).reached.identified view (hkeeps i _ hn hs) (fun j hj => ?_)
      (fun compare s => hranked i _ compare s hn) (hc i hi hs)
    cases hin : g.nodes[i].isInput with
    | true =>
      obtain ⟨harity, hsent⟩ := hinput i _ hn hin
      obtain rfl : j = 0 := by omega
      exact hsent.congr (sent_of_idle ha hidle hn hin).symm
    | false =>
      have hports : (ins i).length = g.nodes[i].operator.arity :=
        (hw.ports i _ (frame_of_node hn) hin).trans (ha i _ hn).inlets
      have hp := List.getElem?_eq_getElem (hports ▸ hj)
      have hmem := List.mem_of_getElem? hp
      have hlt := hw.below i _ hmem
      refine (ih _ hlt (hlt.trans hi) fun he => hunread i (he ▸ hmem)).congr ?_
      exact (consumed_of_idle ha hidle hn hp).symm

end Graph

end DeltaView
