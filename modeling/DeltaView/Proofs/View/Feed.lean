import DeltaView.Proofs.Dataflow.Send
import DeltaView.Proofs.Plan.Rows
import DeltaView.Proofs.Plan.Wiring
import DeltaView.Proofs.Table
import DeltaView.View.Live

/-!
# Queued changes

A view queues what a change makes of the rows of a table, so what was sent to an input and what is
queued for it are always the rows of the table together.

* `applyTo_rows`: the rows of a table change by what is queued.
* `LiveView.net`: what is left of what is queued for a collection. **`filter_sends`**: each input of
  the collection gets that, and nothing else.
* **`fed_spec`**: what feeding a graph does to its ledger.
-/

namespace DeltaView

/-! ## Rows of tables -/

namespace Table

/-- The row under a key, if there is one. -/
def rowAt (k : Value) (t : Table Value Value) : Delta Row :=
  (t.get? k).toList.map fun v => ({ key := .plain k, value := v }, 1)

theorem total_rows_cons (k v : Value) (t : Table Value Value) (r : Row) :
    Delta.total r (rows ((k, v) :: t)) =
      Delta.total r [({ key := .plain k, value := v }, 1)] + Delta.total r (rows t) :=
  Delta.total_append r [_] (rows t)

theorem total_rows_erase (k : Value) (t : Table Value Value) (r : Row) :
    Delta.total r (rows (erase k t)) = Delta.total r (rows t) - Delta.total r (rowAt k t) := by
  induction t with
  | nil => rfl
  | cons e t ih =>
    obtain ⟨l, v⟩ := e
    unfold erase rowAt get?
    split
    · rename_i h
      subst h
      rw [total_rows_cons]
      exact (add_sub_cancel_left ..).symm
    · rw [total_rows_cons, total_rows_cons, ih]
      exact add_sub_assoc .. |>.symm

theorem total_rows_put (k v : Value) (t : Table Value Value) (r : Row) :
    Delta.total r (rows (put k v t)) = Delta.total r (rows t) - Delta.total r (rowAt k t) +
      Delta.total r [({ key := .plain k, value := v }, 1)] := by
  induction t with
  | nil => rw [put, total_rows_cons, add_comm]; rfl
  | cons e t ih =>
    obtain ⟨l, w⟩ := e
    unfold put rowAt get?
    split
    · rename_i h
      subst h
      rw [total_rows_cons, total_rows_cons]
      show _ = Delta.total r [({ key := .plain l, value := w }, 1)] + _ -
        Delta.total r [({ key := .plain l, value := w }, 1)] + _
      ring
    · rw [total_rows_cons, total_rows_cons, ih]
      unfold rowAt
      ring

end Table

/-- The row that a change takes out of a table. -/
theorem total_taken (k : Value) (t : Table Value Value) (r : Row) :
    Delta.total r ((t.get? k).toList.map fun v => (({ key := .plain k, value := v } : Row), -1)) =
      -Delta.total r (t.rowAt k) := by
  rw [← Delta.total_negate]
  unfold Table.rowAt Delta.negate
  rw [List.map_map]
  rfl

/-- **The rows of a table change by what is queued.** -/
theorem Change.applyTo_rows (c : Change) (t : Table Value Value) :
    Delta.Same (t.rows ++ (c.applyTo t).2) (c.applyTo t).1.rows := fun r => by
  have hput : Delta.total r (t.rows ++ if t.get? c.key = some c.value then [] else
      ((t.get? c.key).toList.map fun v => (({ key := .plain c.key, value := v } : Row), -1)) ++
        [({ key := .plain c.key, value := c.value }, 1)]) =
      Delta.total r (t.put c.key c.value).rows := by
    rw [Delta.total_append, Table.total_rows_put]
    split
    · rename_i h
      rw [Table.rowAt, h]
      show _ + 0 = _ - Delta.total r [(_, 1)] + _
      ring
    · rw [Delta.total_append, total_taken]
      ring
  unfold applyTo
  cases c.kind with
  | delete =>
    dsimp only
    rw [Delta.total_append, Table.total_rows_erase, total_taken]
    ring
  | insert => exact hput
  | update => exact hput

/-! ## Feeding -/

namespace LiveView

open Graph (Accounts Ledger Wired Kept sentTo)

variable {inputs : Inputs} {queued : Table String (Delta Row)} {v : LiveView} {g : Graph}
  {ins : Nat → List Nat} {l : Ledger} {name : String} {n : Nat}

/-- What has become of the rows of a collection since they were sent. -/
def net (v : LiveView) (name : String) : Delta Row :=
  Delta.consolidate ((v.queued.get? name).getD [])

theorem mem_copies {d : Delta Row} {e : Nat × Delta Row} (h : e ∈ copies inputs name d) :
    e.1 ∈ inputs.of name := by
  unfold copies at h
  dsimp only at h
  split at h
  · exact absurd h List.not_mem_nil
  · obtain ⟨n, hn, rfl⟩ := List.mem_map.mp h
    exact hn

/-- An input of another collection gets no copy. -/
theorem filter_copies_of_not_mem (h : n ∉ inputs.of name) (d : Delta Row) :
    (copies inputs name d).filter (·.1 = n) = [] :=
  List.filter_eq_nil_iff.mpr fun _ he heq => h (of_decide_eq_true heq ▸ mem_copies he)

/-- An input of the collection gets one copy, if there is anything to send. -/
theorem filter_copies (hi : inputs.Apart) (hn : n ∈ inputs.of name) (d : Delta Row) :
    (copies inputs name d).filter (·.1 = n) =
      if (Delta.consolidate d).isEmpty then [] else [(n, Delta.consolidate d)] := by
  unfold copies
  dsimp only
  split
  · rfl
  · rw [List.filter_map]
    show ((inputs.of name).filter fun k => decide (k = n)).map _ = _
    rw [List.filter_eq, List.count_eq_one_of_mem (hi.nodup name) hn]
    rfl

/-- **Each input of a collection gets what is queued for it**, consolidated, in one piece, and
nothing if there is nothing left of it. -/
theorem filter_sends (hi : v.circuit.inputs.Apart) (hq : v.queued.KeysNodup)
    (hn : n ∈ v.circuit.inputs.of name) : v.sends.filter (·.1 = n) =
      if (v.net name).isEmpty then [] else [(n, v.net name)] := by
  unfold sends net
  generalize v.queued = queued at hq ⊢
  induction queued with
  | nil => rfl
  | cons e queued ih =>
    obtain ⟨collection, d⟩ := e
    obtain ⟨hnew, hq⟩ := List.nodup_cons.mp hq
    rw [List.flatMap_cons, List.filter_append, ih hq, Table.get?]
    by_cases hname : collection = name
    · subst hname
      rw [if_pos rfl, Table.get?_eq_none hnew, filter_copies hi hn]
      exact List.append_nil _
    · have hother : n ∉ v.circuit.inputs.of collection := fun h =>
        hname (hi.apart collection name n h hn)
      rw [if_neg hname, filter_copies_of_not_mem hother]
      rfl

theorem sentTo_sends (hi : v.circuit.inputs.Apart) (hq : v.queued.KeysNodup)
    (hn : n ∈ v.circuit.inputs.of name) : sentTo v.sends n = v.net name := by
  rw [sentTo, filter_sends hi hq hn]
  cases v.net name <;> simp

/-- What is sent goes to inputs of collections. -/
theorem mem_sends {e : Nat × Delta Row} (h : e ∈ v.sends) :
    ∃ name, e.1 ∈ v.circuit.inputs.of name := by
  obtain ⟨⟨name, d⟩, -, he⟩ := List.mem_flatMap.mp h
  exact ⟨name, mem_copies he⟩

/-- **Feeding a graph sends every input what is queued for its collection.** -/
theorem fed_spec (hw : Wired v.circuit.graph.frames ins) (ha : Accounts v.circuit.graph.nodes ins l)
    (hi : v.circuit.inputs.Apart) (hq : v.queued.KeysNodup) (h : v.fed = .ok g) :
    ∃ l', Accounts g.nodes ins l' ∧ Kept v.circuit.graph g ∧ l'.consumed = l.consumed ∧
      l'.emitted = l.emitted ∧ l'.seen = l.seen ∧
      ∀ name, ∀ n ∈ v.circuit.inputs.of name,
        Delta.Same (l'.sent n) (l.sent n ++ (v.queued.get? name).getD []) := by
  refine ⟨_, Graph.sendAll_spec hw ha h, Graph.kept_sendAll h, rfl, rfl, rfl, fun name n hn => ?_⟩
  dsimp only
  rw [sentTo_sends hi hq hn]
  exact Delta.Same.append (.refl _) (Delta.same_consolidate _)

end LiveView

end DeltaView
