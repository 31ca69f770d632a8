import DeltaView.Proofs.Query.Optimizable

/-!
# Queries whose conditions can be moved

What is asked of a query for pushdown to be right, at every level of it: labels tell sources and
selected fields apart, every conjunct of a condition reads a source of its level, and a conjunct on
one source refuses all rows that lack it.

* `Level.PushableHere`, `Query.Pushable`: one level, and all levels.
* **`optimizable_of_pushable`**: such a query can be optimized.
-/

namespace DeltaView

/-- **What is asked of one level.** -/
structure Level.PushableHere (q : Query) : Prop where
  named : "" ∉ q.sources.map (·.label)
  distinct : (q.sources.map (·.label)).Nodup
  selected : ∀ fields, q.select = some fields → (fields.map (·.label)).Nodup
  readsSource : ∀ c ∈ q.demands, ∃ a ∈ c.labels, a ∈ q.sources.map (·.label)
  refusesAbsent : ∀ c ∈ q.demands, ∀ a, c.scope = .single a →
    ∀ row : Value, row.field? a = none → c.holds row = false

mutual

/-- Every level of a source is as asked. -/
def Source.Pushable : Source → Prop
  | .collection _ _ => True
  | .subquery q _ => Source.PushableLevel q

def Source.PushableLevel : Query → Prop
  | ⟨source, select, joins, filters, groupBy, having, orderBy, limit, offset, isDistinct, rowSelect,
      rowFilters, rowHaving⟩ =>
    Level.PushableHere ⟨source, select, joins, filters, groupBy, having, orderBy, limit, offset,
      isDistinct, rowSelect, rowFilters, rowHaving⟩ ∧ Source.Pushable source ∧
      Source.PushableJoins joins

def Source.PushableJoins : List (Join Source) → Prop
  | [] => True
  | ⟨_, source, _, _⟩ :: joins => Source.Pushable source ∧ Source.PushableJoins joins

end

/-- **Every level of a query is as asked.** -/
def Query.Pushable (q : Query) : Prop := Source.PushableLevel q

theorem Source.pushableJoins_iff {joins : List (Join Source)} :
    Source.PushableJoins joins ↔ ∀ j ∈ joins, j.source.Pushable := by
  induction joins with
  | nil => exact ⟨fun _ _ h => absurd h List.not_mem_nil, fun _ => trivial⟩
  | cons j joins ih =>
    rw [List.forall_mem_cons, ← ih]
    exact Iff.rfl

theorem Query.pushable_iff {q : Query} :
    Query.Pushable q ↔ q.PushableHere ∧ ∀ s ∈ q.sources, s.Pushable := by
  unfold Level.sources
  rw [List.forall_mem_cons, List.forall_mem_map, ← Source.pushableJoins_iff]
  obtain ⟨source, select, joins, filters, groupBy, having, orderBy, limit, offset, isDistinct,
    rowSelect, rowFilters, rowHaving⟩ := q
  exact Iff.rfl

/-! ## What may be optimized -/

mutual

theorem Source.everyLevel_of_pushable : ∀ {s : Source}, s.Pushable →
    s.EveryLevel Level.PushableHere
  | .collection _ _, _ => trivial
  | .subquery _ _, h => Query.everyLevel_of_pushable h

theorem Query.everyLevel_of_pushable : ∀ {q : Query}, Query.Pushable q →
    Query.EveryLevel Level.PushableHere q
  | ⟨_, _, _, _, _, _, _, _, _, _, _, _, _⟩, h =>
    ⟨h.1, Source.everyLevel_of_pushable h.2.1, Source.everyLevel_of_pushableJoins h.2.2⟩

theorem Source.everyLevel_of_pushableJoins : ∀ {joins : List (Join Source)},
    Source.PushableJoins joins → Source.EveryLevelOfJoins Level.PushableHere joins
  | [], _ => trivial
  | ⟨_, _, _, _⟩ :: _, h =>
    ⟨Source.everyLevel_of_pushable h.1, Source.everyLevel_of_pushableJoins h.2⟩

end

theorem Level.optimizableHere_of_pushable {q : Query}
    (h : Query.EveryLevel Level.PushableHere q) : q.OptimizableHere := by
  obtain ⟨hhere, hsources⟩ := Query.everyLevel_iff.mp h
  refine ⟨fun _ c hc hscope => ?_, fun _ _ _ s hs _ => ?_, fun _ c hc s _ hscope => Or.inr ?_⟩
  · obtain ⟨a, ha, -⟩ := hhere.readsSource c (mem_demands_iff.mpr (Or.inl hc))
    exact absurd hscope (Expr.scope_ne_constant ha)
  · refine Source.alongMain_of_everyLevel ((hsources s hs).imp fun q hq => ?_)
    exact selectsFaithfully_of_nodup (Query.everyLevel_iff.mp hq).1.selected
  · exact hhere.refusesAbsent c (mem_demands_iff.mpr (Or.inl hc)) s.label hscope

/-- **A query whose conditions can be moved can be optimized.** -/
theorem Query.optimizable_of_pushable {q : Query} (h : Query.Pushable q) : Query.Optimizable q :=
  (Query.everyLevel_of_pushable h).imp fun _ => Level.optimizableHere_of_pushable

end DeltaView
