import DeltaView.Plan.OfQuery
import DeltaView.Proofs.Except
import DeltaView.Proofs.Plan.Rows

/-!
# Plans of queries

Every level of a query filters the rows of its sources, which are named or joined and so without
order keys, before it groups them.

* **`ofQuery?_layered`**: groups in the plan of a query are made of rows without order keys.
-/

namespace DeltaView

namespace Plan

/-! ## Filters on top of a plan -/

theorem foldl_filter_layered {α : Type} (f : α → Expr) (conditions : List α) (p : Plan) :
    (Layered (conditions.foldl (fun p c => .filter (f c) p) p) ↔ Layered p) ∧
      isPlain (conditions.foldl (fun p c => .filter (f c) p) p) = isPlain p := by
  induction conditions generalizing p with
  | nil => exact ⟨Iff.rfl, rfl⟩
  | cons c conditions ih => exact ih (.filter (f c) p)

theorem foldl_filterBy_layered (tests : List RowFunction) (p : Plan) :
    (Layered (tests.foldl (fun p f => .filterBy f p) p) ↔ Layered p) ∧
      isPlain (tests.foldl (fun p f => .filterBy f p) p) = isPlain p := by
  induction tests generalizing p with
  | nil => exact ⟨Iff.rfl, rfl⟩
  | cons f tests ih => exact ih (.filterBy f p)

end Plan

namespace Level

/-! ## One level -/

theorem planFilters_layered (q : Query) (sources : Plan) :
    ((q.planFilters sources).Layered ↔ sources.Layered) ∧
      (q.planFilters sources).isPlain = sources.isPlain := by
  obtain ⟨h1, h2⟩ := Plan.foldl_filterBy_layered q.rowFilters
    (q.filters.foldl (fun p c => .filter c.expr p) sources)
  obtain ⟨h3, h4⟩ := Plan.foldl_filter_layered (fun c : Clause => c.expr) q.filters sources
  exact ⟨h1.trans h3, h2.trans h4⟩

theorem planSelect?_layered {q : Query} {rows p : Plan} (h : q.planSelect? rows = .ok p)
    (hl : rows.Layered) (hp : rows.isPlain = true) : p.Layered := by
  unfold planSelect? at h
  split at h
  · obtain ⟨terms, -, rfl⟩ := map_eq_ok.mp h
    exact ⟨hl, hp⟩
  · obtain ⟨projection, -, rfl⟩ := map_eq_ok.mp h
    exact hl

theorem planHaving?_layered {q : Query} {rows p : Plan} (h : q.planHaving? rows = .ok p)
    (hl : rows.Layered) : p.Layered := by
  obtain ⟨conditions, -, h⟩ := bind_eq_ok.mp h
  obtain rfl := Except.ok.inj h
  exact (Plan.foldl_filterBy_layered _ _).1.mpr
    ((Plan.foldl_filter_layered (fun c : Expr => c) conditions rows).1.mpr hl)

theorem planOrder?_layered {q : Query} {rows p : Plan} (h : q.planOrder? rows = .ok p)
    (hl : rows.Layered) : p.Layered := by
  obtain ⟨terms, -, h⟩ := bind_eq_ok.mp h
  obtain rfl := Except.ok.inj h
  split
  · exact hl
  · exact hl

theorem plan?_layered {q : Query} {known : List String} {sources p : Plan}
    (h : q.plan? known sources = .ok p) (hl : sources.Layered) (hp : sources.isPlain = true) :
    p.Layered ∧ ∃ p', p = .output p' := by
  obtain ⟨-, -, h⟩ := bind_eq_ok.mp h
  obtain ⟨-, -, h⟩ := bind_eq_ok.mp h
  obtain ⟨selected, hs, h⟩ := bind_eq_ok.mp h
  obtain ⟨kept, hk, h⟩ := bind_eq_ok.mp h
  obtain ⟨ordered, ho, h⟩ := bind_eq_ok.mp h
  obtain rfl := Except.ok.inj h
  have hfilter := planFilters_layered q sources
  have hselected := planSelect?_layered hs (hfilter.1.mpr hl) (hfilter.2.trans hp)
  have hkept := planHaving?_layered hk hselected
  have hordered : ordered.Layered := planOrder?_layered ho (by
    split
    · exact hkept
    · exact hkept)
  exact ⟨hordered, ordered, rfl⟩

end Level

namespace Plan

/-! ## Queries -/

/-- The condition of a join does not depend on what is joined. -/
theorem join?_eq_ok {main joined p : Plan} {known : List String} {kind : JoinKind}
    {left right : Expr} {label : String}
    (h : join? main joined known kind left right label = .ok p) :
    ∃ mainKey joinedKey, p = .join kind mainKey joinedKey main joined ∧
      ∀ main joined, join? main joined known kind left right label =
        .ok (.join kind mainKey joinedKey main joined) := by
  obtain ⟨condition, hcondition, h⟩ := bind_eq_ok.mp h
  split at h
  · exact absurd h (by simp [bind, Except.bind])
  · rename_i hknown
    obtain ⟨_, hmain, h⟩ := bind_eq_ok.mp h
    obtain ⟨_, hjoined, h⟩ := bind_eq_ok.mp h
    refine ⟨_, _, (Except.ok.inj h).symm, fun main joined => ?_⟩
    refine bind_eq_ok.mpr ⟨condition, hcondition, ?_⟩
    rw [if_neg hknown]
    exact bind_eq_ok.mpr ⟨_, hmain, bind_eq_ok.mpr ⟨_, hjoined, rfl⟩⟩

/-- A join has the two sides of its condition as keys, and its source a name of its own. -/
theorem join?_condition {main joined p : Plan} {known : List String} {kind : JoinKind}
    {left right : Expr} {label : String}
    (h : join? main joined known kind left right label = .ok p) :
    ∃ c, JoinCondition.orient left right known label = .ok c ∧ label ∉ known ∧
      p = .join kind c.main c.joined main joined := by
  obtain ⟨c, hc, h⟩ := bind_eq_ok.mp h
  split at h
  · exact absurd h (by simp [bind, Except.bind])
  · rename_i hknown
    obtain ⟨_, -, h⟩ := bind_eq_ok.mp h
    obtain ⟨_, -, h⟩ := bind_eq_ok.mp h
    exact ⟨c, hc, fun hmem => hknown (List.contains_iff_mem.mpr hmem), (Except.ok.inj h).symm⟩

mutual

theorem ofSource?_layered : ∀ {s : Source} {p : Plan}, ofSource? s = .ok p →
    p.Layered ∧ p.isPlain = true
  | .collection _ _, p, h => by
    obtain rfl := Except.ok.inj h
    exact ⟨trivial, rfl⟩
  | .subquery q _, p, h => by
    obtain ⟨p, hp, rfl⟩ := map_eq_ok.mp h
    exact ⟨(ofQuery?_layered hp).1, rfl⟩

/-- **Groups in the plan of a query are made of rows without order keys.** -/
theorem ofQuery?_layered : ∀ {q : Query} {p : Plan}, ofQuery? q = .ok p →
    p.Layered ∧ ∃ p', p = .output p'
  | ⟨_, _, _, _, _, _, _, _, _, _, _, _, _⟩, p, h => by
    obtain ⟨-, -, h⟩ := bind_eq_ok.mp h
    obtain ⟨main, hm, h⟩ := bind_eq_ok.mp h
    obtain ⟨rows, hr, h⟩ := bind_eq_ok.mp h
    obtain ⟨hl, hp⟩ := ofSource?_layered hm
    obtain ⟨hl', hp'⟩ := ofJoins?_layered hr hl hp
    exact Level.plan?_layered h hl' hp'

theorem ofJoins?_layered : ∀ {joins : List (Join Source)} {main : Plan} {known : List String}
    {p : Plan}, ofJoins? main known joins = .ok p → main.Layered → main.isPlain = true →
    p.Layered ∧ p.isPlain = true
  | [], main, _, p, h, hl, hp => by
    obtain rfl := Except.ok.inj h
    exact ⟨hl, hp⟩
  | ⟨_, source, _, _⟩ :: joins, main, _, p, h, hl, hp => by
    obtain ⟨joined, hj, h⟩ := bind_eq_ok.mp h
    obtain ⟨rows, hr, h⟩ := bind_eq_ok.mp h
    obtain ⟨mainKey, joinedKey, rfl, -⟩ := join?_eq_ok hr
    exact ofJoins?_layered h ⟨hl, (ofSource?_layered hj).1⟩ rfl

end

end Plan

end DeltaView
