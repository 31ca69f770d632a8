import DeltaView.Plan.Wiring
import DeltaView.Proofs.Dataflow.Operator

/-!
# The rows of a plan

What a plan means on tables that stand still: `Plan.rows` evaluates it step by step, without any
state. Rows are multisets without order keys; a ranking keeps the rows inside its window.

* `Plan.Regular` collects what the evaluation assumes of a list of snapshots: the comparison of a
  ranking is an order on the values that occur in them, and no group's row depends on the order in
  which its members are listed.
* `Shows e d`: without order keys, the rows `e` of a circuit are the rows `d` of a plan. Every step
  of a plan keeps this.
-/

namespace DeltaView

/-- What the collections hold. -/
abbrev Snapshot := String → Table Value Value

/-- The rows of a collection. -/
def Table.rows (t : Table Value Value) : Delta Row :=
  t.map fun (k, v) => ({ key := .plain k, value := v }, 1)

namespace Plan

/-- How the rows of a join are matched. -/
def joinRule (kind : JoinKind) (mainKey joinedKey : Expr) : JoinRule :=
  ⟨kind, fun r => (mainKey.eval r.value).toJoinKey, fun r => (joinedKey.eval r.value).toJoinKey⟩

/-- The rows inside a window, in the order of a comparison. -/
def ranked (compare : Value → Value → Ordering) (window : Window) (d : Delta Row) : Delta Row :=
  (window.slice (Ranking.rankedRows compare (Delta.mapItems Row.unordered d))).map (·, 1)

/-- A row with what SELECT makes of it. -/
def withProjection (functions : RowFunctions) (p : Projection) (r : Row) : Row :=
  r.withValue (r.value.withSelected (p.apply functions r.value))

/-- The row of a group with what SELECT makes of it. -/
def withGroupFields (terms : GroupTerms) (r : Row) : Row :=
  r.withValue (.ofSelected (terms.select r.value))

/-- **The rows of a plan**, step by step. -/
def rows (functions : RowFunctions) (tables : Snapshot) : Plan → Delta Row
  | .scan name => (tables name).rows
  | .named label p => Delta.mapItems (Row.named label) (rows functions tables p)
  | .join kind mainKey joinedKey p q =>
    (joinRule kind mainKey joinedKey).table (rows functions tables p) (rows functions tables q)
  | .filter condition p =>
    Delta.filterItems (fun r => condition.holds r.value) (rows functions tables p)
  | .filterBy test p =>
    Delta.filterItems (fun r => (functions test r.value).isTruthy) (rows functions tables p)
  | .project projection p =>
    Delta.mapItems (withProjection functions projection) (rows functions tables p)
  | .group terms p =>
    Delta.mapItems (withGroupFields terms) (terms.rule.table (rows functions tables p))
  | .distinct p =>
    Delta.mapItems Row.asSelected
      (DistinctState.table (Delta.mapItems (fun r => r.value.selected) (rows functions tables p)))
  | .rank terms window p =>
    ranked (OrderTerm.compareRows terms) window (rows functions tables p)
  | .output p => Delta.mapItems Row.selected (rows functions tables p)

/-- The plan with another window at its end, if it ends with one. -/
def atWindow (window : Option Window) : Plan → Plan
  | .output (.rank terms w p) => .output (.rank terms (window.getD w) p)
  | p => p

theorem atWindow_none (p : Plan) : p.atWindow none = p := by
  unfold atWindow
  split <;> rfl

/-- What the evaluation of a plan assumes of some snapshots. -/
def Regular (functions : RowFunctions) (snapshots : List Snapshot) : Plan → Prop
  | .scan _ => True
  | .named _ p => Regular functions snapshots p
  | .join _ _ _ p q => Regular functions snapshots p ∧ Regular functions snapshots q
  | .filter _ p => Regular functions snapshots p
  | .filterBy _ p => Regular functions snapshots p
  | .project _ p => Regular functions snapshots p
  | .group terms p => Regular functions snapshots p ∧
      ∀ tables ∈ snapshots, terms.rule.Steady (rows functions tables p)
  | .distinct p => Regular functions snapshots p
  | .rank terms _ p => Regular functions snapshots p ∧
      PreorderOn (OrderTerm.compareRows terms)
        fun v => ∃ tables ∈ snapshots, Delta.HasValue (rows functions tables p) v
  | .output p => Regular functions snapshots p

/-! ## Layers -/

/-- Do the rows of a plan come without order keys out of a circuit? -/
def isPlain : Plan → Bool
  | .rank _ _ _ => false
  | .filter _ p => isPlain p
  | .filterBy _ p => isPlain p
  | .project _ p => isPlain p
  | .output p => isPlain p
  | _ => true

/-- Groups are made of rows without order keys. -/
def Layered : Plan → Prop
  | .scan _ => True
  | .named _ p => Layered p
  | .join _ _ _ p q => Layered p ∧ Layered q
  | .filter _ p => Layered p
  | .filterBy _ p => Layered p
  | .project _ p => Layered p
  | .group _ p => Layered p ∧ p.isPlain = true
  | .distinct p => Layered p
  | .rank _ _ p => Layered p
  | .output p => Layered p

end Plan

/-! ## Rows without order keys -/

namespace Delta

/-- All rows are without order keys. -/
def Unordered (d : Delta Row) : Prop := Same (mapItems Row.unordered d) d

/-- Without order keys, the rows of a circuit are those of a plan. -/
def Shows (e d : Delta Row) : Prop := Same (mapItems Row.unordered e) d

theorem unordered_of_mem {d : Delta Row} (h : ∀ p ∈ d, p.1.order = none) : d.Unordered := by
  refine Same.of_eq ((mapItems_congr (g := fun r => r) fun p hp => ?_).trans (List.map_id d))
  obtain ⟨⟨k, v, o⟩, m⟩ := p
  obtain rfl : o = none := h _ hp
  rfl

theorem mapItems_unordered_twice (d : Delta Row) :
    mapItems Row.unordered (mapItems Row.unordered d) = mapItems Row.unordered d :=
  mapItems_mapItems _ _ d

theorem unordered_mapItems {α : Type} {f : α → Row} (hf : ∀ a, (f a).order = none) (d : Delta α) :
    (mapItems f d).Unordered := unordered_of_mem fun p hp => by
  obtain ⟨q, -, rfl⟩ := List.mem_map.mp hp
  exact hf q.1

namespace Shows

variable {e e' d d' : Delta Row}

theorem congr (h : Shows e d) (he : Same e e') (hd : Same d d') : Shows e' d' :=
  ((he.symm).mapItems _).trans (h.trans hd)

theorem of_same (h : Same e d) (hd : d.Unordered) : Shows e d := (h.mapItems _).trans hd

/-- The rows of a plan have no order keys. -/
theorem unordered (h : Shows e d) : d.Unordered :=
  ((Same.symm h).mapItems _).trans ((Same.of_eq (mapItems_unordered_twice e)).trans h)

/-- What is asked of rows without order keys is the same. -/
theorem mapItems_unordered (h : Shows e d) :
    Same (mapItems Row.unordered e) (mapItems Row.unordered d) :=
  h.trans h.unordered.symm

theorem map {f : Row → Row} (hf : ∀ r, (f r).unordered = f r.unordered) (h : Shows e d) :
    Shows (mapItems f e) (mapItems f d) := by
  have : mapItems Row.unordered (mapItems f e) = mapItems f (mapItems Row.unordered e) := by
    rw [mapItems_mapItems, mapItems_mapItems]
    exact mapItems_congr fun p _ => hf p.1
  rw [Shows, this]
  exact Same.mapItems h f

theorem filter {p : Row → Bool} (hp : ∀ r, p r.unordered = p r) (h : Shows e d) :
    Shows (filterItems p e) (filterItems p d) := by
  have : mapItems Row.unordered (filterItems p e) = filterItems p (mapItems Row.unordered e) := by
    rw [filterItems_mapItems]
    simp only [hp]
  rw [Shows, this]
  exact Same.filterItems h p

theorem value {α : Type} [DecidableEq α] {f : Row → α} (hf : ∀ r, f r.unordered = f r)
    (h : Shows e d) : Same (mapItems f e) (mapItems f d) := by
  have : mapItems f e = mapItems f (mapItems Row.unordered e) := by
    rw [mapItems_mapItems]
    exact mapItems_congr fun p _ => (hf p.1).symm
  rw [this]
  exact Same.mapItems h f

end Shows

end Delta

/-! ## Steps of a plan -/

namespace JoinRule

/-- A join reads no order keys, and its rows have none. -/
theorem table_unordered {rule : JoinRule} (hl : ∀ r, rule.leftKey r.unordered = rule.leftKey r)
    (hr : ∀ r, rule.rightKey r.unordered = rule.rightKey r) (left right : Delta Row) :
    Delta.Same (rule.table (Delta.mapItems Row.unordered left)
      (Delta.mapItems Row.unordered right)) (rule.table left right) := by
  have hpad : ∀ (pad : Row → Row) (key partnerKey : Row → JoinKey),
      (∀ r, pad r.unordered = pad r) → (∀ r, key r.unordered = key r) →
      (∀ r, partnerKey r.unordered = partnerKey r) → ∀ rows partners : Delta Row,
      Delta.Same (padded pad key partnerKey (Delta.mapItems Row.unordered rows)
        (Delta.mapItems Row.unordered partners)) (padded pad key partnerKey rows partners) := by
    intro pad key partnerKey hp hk hpk rows partners r
    rw [Delta.total_eq_weigh, Delta.total_eq_weigh, weigh_padded, weigh_padded,
      Delta.weigh_mapItems]
    have halone : ∀ k, isAlone partnerKey (Delta.mapItems Row.unordered partners) k =
        isAlone partnerKey partners k := fun k => by
      unfold isAlone
      rw [Delta.mass_eq_weigh, Delta.mass_eq_weigh, Delta.weigh_filterItems,
        Delta.weigh_filterItems, Delta.weigh_mapItems]
      simp only [hpk]
    simp only [hp, hk, halone]
  refine Delta.Same.append (Delta.Same.append (fun r => ?_) ?_) ?_
  · rw [Delta.total_eq_weigh, Delta.total_eq_weigh, weigh_matched, weigh_matched,
      Delta.weigh_mapItems]
    refine Delta.weigh_congr fun p _ => ?_
    rw [Delta.weigh_mapItems]
    refine Delta.weigh_congr fun q _ => ?_
    rw [relates, relates, hl, hr]
    rfl
  · split
    · exact hpad _ _ _ (fun _ => rfl) hl hr left right
    · exact .refl _
  · split
    · exact hpad _ _ _ (fun _ => rfl) hr hl right left
    · exact .refl _

theorem order_of_mem_table {rule : JoinRule} {left right : Delta Row} {p : Row × Int}
    (h : p ∈ rule.table left right) : p.1.order = none := by
  rcases mem_table_cases h with ⟨l, -, r, -, he⟩ | ⟨-, l, -, he⟩ | ⟨-, r, -, he⟩ <;> rw [he] <;> rfl

/-- The rows of a join do not depend on the order keys of its sides. -/
theorem table_shows (rule : JoinRule) (hl : ∀ r, rule.leftKey r.unordered = rule.leftKey r)
    (hr : ∀ r, rule.rightKey r.unordered = rule.rightKey r) {left right left' right' : Delta Row}
    (h : Delta.Shows left left') (h' : Delta.Shows right right') :
    Delta.Same (rule.table left right) (rule.table left' right') :=
  (table_unordered hl hr left right).symm.trans (table_congr rule h h')

end JoinRule

namespace Plan

theorem order_of_mem_groupTable {rule : GroupRule} {d : Delta Row} {p : Row × Int}
    (h : p ∈ rule.table d) : p.1.order = none := by
  obtain ⟨k, -, hk⟩ := List.mem_filterMap.mp h
  obtain ⟨r, hr, rfl⟩ := Option.map_eq_some_iff.mp hk
  unfold GroupState.rowOf? at hr
  split at hr
  · rw [← Option.some.inj hr]
  · exact absurd hr (by simp)

theorem distinctTable_unordered (values : Delta Value) :
    (DistinctState.table values).Unordered :=
  Delta.unordered_mapItems (f := DistinctState.rowOf) (fun _ => rfl) _

/-- What shows in a window are the ranked rows of its input. -/
theorem shown_shows {compare : Value → Value → Ordering} {r : Ranking} {e d : Delta Row}
    (hrank : ∀ x ∈ r.elements, x.row.order = none)
    (hrows : r.elements.map (·.row) =
      Ranking.rankedRows compare (Delta.mapItems Row.unordered e))
    (h : Delta.Shows e d) :
    Delta.Shows (Ranking.shown r.visible) (ranked compare r.window d) := by
  rw [Delta.Shows, ranked, ← Ranking.rankedRows_congr h.mapItems_unordered, ← hrows,
    Window.map_slice, ← Ranking.visible_eq_slice, Ranking.shown, Delta.mapItems, List.map_map,
    List.map_map]
  refine Delta.Same.of_eq (List.map_congr_left fun x hx => ?_)
  have hmem : x ∈ r.elements := by
    rw [Ranking.visible_eq_slice] at hx
    exact (Window.slice_sublist _ _).subset hx
  have ho := hrank x hmem
  obtain ⟨⟨k, v, o⟩, index⟩ := x
  obtain rfl : o = none := ho
  rfl

/-- The rows of a plan have no order keys. -/
theorem rows_unordered (functions : RowFunctions) (tables : Snapshot) :
    ∀ p : Plan, (p.rows functions tables).Unordered
  | .scan name => Delta.unordered_of_mem fun p hp => by
    obtain ⟨q, -, rfl⟩ := List.mem_map.mp hp
    rfl
  | .named label p => Delta.unordered_mapItems (fun _ => rfl) _
  | .join kind mainKey joinedKey p q => Delta.unordered_of_mem fun _ => JoinRule.order_of_mem_table
  | .filter condition p => Delta.Shows.filter (fun _ => rfl) (rows_unordered functions tables p)
  | .filterBy test p => Delta.Shows.filter (fun _ => rfl) (rows_unordered functions tables p)
  | .project projection p => Delta.Shows.map (fun _ => rfl) (rows_unordered functions tables p)
  | .group terms p =>
    Delta.Shows.map (fun _ => rfl) (Delta.unordered_of_mem fun _ => order_of_mem_groupTable)
  | .distinct p => Delta.Shows.map (fun _ => rfl) (distinctTable_unordered _)
  | .rank terms window p => Delta.unordered_of_mem fun q hq => by
    obtain ⟨r, hr, rfl⟩ := List.mem_map.mp hq
    have := Ranking.mem_rankedRows.mp ((Window.slice_sublist _ _).subset hr)
    exact WindowState.unordered_of_total_ne_zero (ne_of_gt this)
  | .output p => Delta.Shows.map (fun _ => rfl) (rows_unordered functions tables p)

end Plan

end DeltaView
