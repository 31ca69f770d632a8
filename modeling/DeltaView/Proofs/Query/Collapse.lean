import DeltaView.Proofs.Plan.Within
import DeltaView.Proofs.Query.Sources

/-!
# Collapsed queries

A level is forwarding by its own clauses, whatever its source is. So the collapse of a source needs
no second look: what is left of it forwards nothing, at no depth.

* `Level.SameOver`: a level over other sources under the same labels.
* `isForwarding_collapse`, `collapse_subquery`: the collapse of a source from that of its level.
* **`hasLevel_collapse`**: every level of a collapsed query is the collapse of a level.
* `collapse_collapse`: what is collapsed stays so.
* **`collapse_collapsesTo`**: what all this says of a query, whose rows are left as they are.
-/

namespace DeltaView

/-! ## Levels over other sources -/

/-- **A level over other sources**, which it knows by the same labels and reads in the same way. -/
def Level.SameOver (q q' : Query) : Prop :=
  ∃ f, q' = q.reviseBy f q.filters ∧ ∀ s ∈ q.sources, (f s).label = s.label

/-! ## The collapse of a source -/

namespace Query

variable {q : Query}

theorem isForwarding_collapse (q : Query) : q.collapse.isForwarding = q.isForwarding := by
  rw [collapse_eq, Level.isForwarding_reviseBy]

theorem source_collapse (q : Query) : q.collapse.source = q.source.collapse := by
  rw [collapse_eq, Level.source_reviseBy]

/-- There is nothing more to collapse where there is not in the sources. -/
theorem collapse_collapse_of_sources
    (h : ∀ s ∈ q.sources, s.collapse.collapse = s.collapse) : q.collapse.collapse = q.collapse := by
  rw [collapse_eq, collapse_eq, Level.filters_reviseBy, Level.reviseBy_reviseBy]
  exact Level.reviseBy_congr h

end Query

namespace Source

theorem withLabel_of_withLabel (s : Source) (a b : String) :
    (s.withLabel a).withLabel b = s.withLabel b := by
  cases s with
  | collection name label => rfl
  | subquery q label => rfl

/-- **The collapse of a subquery** is that of its source if it only forwards it, and otherwise a
subquery still. -/
theorem collapse_subquery (q : Query) (label : String) : (subquery q label).collapse =
    if q.isForwarding then q.source.collapse.withLabel label else subquery q.collapse label := by
  rw [← q.isForwarding_collapse, ← q.source_collapse]
  rfl

theorem label_collapse (s : Source) : s.collapse.label = s.label := by
  cases s with
  | collection name label => rfl
  | subquery q label =>
    rw [collapse_subquery]
    split
    · exact label_withLabel _ label
    · rfl

theorem collapse_withLabel (s : Source) (label : String) :
    (s.withLabel label).collapse = s.collapse.withLabel label := by
  cases s with
  | collection name a => rfl
  | subquery q a =>
    show (subquery q label).collapse = _
    rw [collapse_subquery, collapse_subquery]
    split
    · exact (withLabel_of_withLabel _ a label).symm
    · rfl

/-- A subquery that is left does more than forward, and is the collapse of a level that was there. -/
theorem of_collapse_eq_subquery {s : Source} {p : Query} {label : String}
    (h : s.collapse = subquery p label) : p.isForwarding = false ∧
      ∃ r, p = r.collapse ∧ ∀ q : Query, s ∈ q.sources → q.HasLevel r := by
  induction s using Source.induct generalizing label with
  | collection name a => exact absurd h (by simp [collapse])
  | subquery q a ih =>
    rw [collapse_subquery] at h
    split at h
    · -- What is left is left of the source that is forwarded.
      obtain ⟨b, hb⟩ : ∃ b, q.source.collapse = subquery p b := by
        cases hsource : q.source.collapse with
        | collection name b =>
          rw [hsource] at h
          exact absurd h (by simp [withLabel])
        | subquery r b =>
          rw [hsource] at h
          obtain ⟨rfl, -⟩ := subquery.inj h
          exact ⟨b, rfl⟩
      obtain ⟨hforwards, r, hr, hlevel⟩ := ih q.source List.mem_cons_self hb
      exact ⟨hforwards, r, hr, fun _ hs => .source hs (hlevel q List.mem_cons_self)⟩
    · rename_i hforwards
      obtain ⟨rfl, -⟩ := subquery.inj h
      refine ⟨?_, q, rfl, fun _ hs => .source hs (.self q)⟩
      rw [q.isForwarding_collapse]
      exact eq_false_of_ne_true hforwards

/-- What is collapsed stays so. -/
theorem collapse_collapse (s : Source) : s.collapse.collapse = s.collapse := by
  induction s using Source.induct with
  | collection name label => rfl
  | subquery q label ih =>
    rw [collapse_subquery]
    split
    · rw [collapse_withLabel, ih q.source List.mem_cons_self]
    · rename_i hforwards
      rw [collapse_subquery, q.isForwarding_collapse, if_neg hforwards,
        Query.collapse_collapse_of_sources ih]

end Source

namespace Query

/-! ## The collapse of a query -/

theorem collapse_sameOver (q : Query) : q.SameOver q.collapse :=
  ⟨Source.collapse, q.collapse_eq, fun s _ => s.label_collapse⟩

theorem collapse_collapse (q : Query) : q.collapse.collapse = q.collapse :=
  collapse_collapse_of_sources fun s _ => s.collapse_collapse

/-- **Every level of a collapsed query is the collapse of a level.** -/
theorem hasLevel_collapse {q r' : Query} (h : q.collapse.HasLevel r') :
    ∃ r, q.HasLevel r ∧ r' = r.collapse := by
  generalize hq : q.collapse = q' at h
  induction h generalizing q with
  | self => exact ⟨q, .self q, hq.symm⟩
  | source hs _ ih =>
    rw [← hq, collapse_eq, Level.sources_reviseBy] at hs
    obtain ⟨s, hmem, hcollapse⟩ := List.mem_map.mp hs
    obtain ⟨-, p, rfl, hp⟩ := Source.of_collapse_eq_subquery hcollapse
    obtain ⟨r, hr, rfl⟩ := ih rfl
    exact ⟨r, (hp q hmem).trans hr, rfl⟩

/-- **What a query collapses to.** -/
structure CollapsesTo (q q' : Query) : Prop where
  /-- No subquery that a level reads, at any depth, does nothing but forward its source. -/
  forwardsNone : ∀ r, q'.HasLevel r → ∀ p label, Source.subquery p label ∈ r.sources →
    p.isForwarding = false
  /-- The query's own clauses are as they were, and so are the labels of its sources. -/
  same : q.SameOver q'
  /-- Each level was there, with the same clauses and over sources with the same labels. -/
  levels : ∀ r', q'.HasLevel r' → ∃ r, q.HasLevel r ∧ r.SameOver r'
  /-- There is nothing more to collapse. -/
  collapsed : q'.collapse = q'
  /-- Both have a plan or neither has, with the same rows under the same keys. -/
  rows : q.Matches q'

/-- **The collapse removes all subqueries that only forward**, and nothing else. -/
theorem collapse_collapsesTo (q : Query) : q.CollapsesTo q.collapse where
  forwardsNone := by
    intro r' hr' p label hp
    obtain ⟨r, -, rfl⟩ := hasLevel_collapse hr'
    rw [collapse_eq, Level.sources_reviseBy] at hp
    obtain ⟨s, -, hcollapse⟩ := List.mem_map.mp hp
    exact (Source.of_collapse_eq_subquery hcollapse).1
  same := q.collapse_sameOver
  levels := by
    intro r' hr'
    obtain ⟨r, hr, rfl⟩ := hasLevel_collapse hr'
    exact ⟨r, hr, r.collapse_sameOver⟩
  collapsed := q.collapse_collapse
  rows := Source.collapseLevel_matches q

end Query

end DeltaView
