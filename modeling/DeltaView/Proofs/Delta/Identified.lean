import DeltaView.Proofs.Delta.Canonical
import DeltaView.Proofs.Join.Table
import DeltaView.Proofs.Value.TotalOrder

/-!
# Rows that can be told apart

A delta is `IdentifiedBy f` where every row of it is there once and no two of them agree in `f`. A
`KeyView` is a way to look at row keys: as the keys that they are, or as the values that are shown
for them, under which an absent side looks like a null one.

* `of_rows`, `exists_rows`: such a delta lists rows that are pairwise different in `f`.
* **`table_identified`**: a join keeps the rows of its sides apart, unless it pads rows of both
  sides whose keys look like absent ones.
-/

namespace DeltaView

variable {α β : Type}

namespace Delta

/-- **Every row is there once, and no two rows agree in `f`.** -/
structure IdentifiedBy (f : Row → α) (d : Delta Row) : Prop where
  once : ∀ r, total r d = 0 ∨ total r d = 1
  unique : ∀ r s, total r d ≠ 0 → total s d ≠ 0 → f r = f s → r = s

namespace IdentifiedBy

variable {f : Row → α} {d e : Delta Row}

theorem congr (h : d.IdentifiedBy f) (hs : Same d e) : e.IdentifiedBy f where
  once r := hs r ▸ h.once r
  unique r s hr hs' := h.unique r s (hs r ▸ hr) (hs s ▸ hs')

/-- Rows that are pairwise different in `f`, each once. -/
theorem of_rows (rows : List Row) (hn : (rows.map f).Nodup) (hs : Same d (rows.map (·, 1))) :
    d.IdentifiedBy f := by
  have htotal : ∀ r, total r d = if r ∈ rows then 1 else 0 := fun r => by
    rw [hs r, total_once (List.Nodup.of_map f hn)]
  have hmem : ∀ r, total r d ≠ 0 → r ∈ rows := fun r hr => by
    by_contra hno
    rw [htotal, if_neg hno] at hr
    exact hr rfl
  refine ⟨fun r => ?_, fun r s hr hs hrs => List.inj_on_of_nodup_map hn (hmem r hr) (hmem s hs) hrs⟩
  rw [htotal]
  split
  · exact Or.inr rfl
  · exact Or.inl rfl

/-- The rows that are there are pairwise different in `f`. -/
theorem nodup_present (h : d.IdentifiedBy f) : ((present Row.cmp d).map f).Nodup :=
  List.Nodup.map_on (fun r hr s hs => h.unique r s (mem_present.mp hr).ne' (mem_present.mp hs).ne')
    (Delta.nodup_present _ _)

theorem same_present (h : d.IdentifiedBy f) : Same d ((present Row.cmp d).map (·, 1)) := fun r => by
  rw [total_once (Delta.nodup_present _ _)]
  rcases h.once r with h0 | h1
  · rw [h0, if_neg fun hm => (mem_present.mp hm).ne' h0]
  · rw [h1, if_pos (mem_present.mpr (by omega))]

/-- **The rows of a delta that keeps them apart**, as a list. -/
theorem exists_rows (h : d.IdentifiedBy f) :
    ∃ rows : List Row, (rows.map f).Nodup ∧ Same d (rows.map (·, 1)) :=
  ⟨_, h.nodup_present, h.same_present⟩

/-- Multiplicities are zero or one, so a row that a change adds was not there before it. -/
theorem total_of_pos (h : d.IdentifiedBy f) (h' : (d ++ e).IdentifiedBy f) {r : Row}
    (hr : 0 < total r e) : total r d = 0 ∧ total r (d ++ e) ≠ 0 := by
  have hbefore := h.once r
  have hafter := h'.once r
  rw [total_append] at hafter ⊢
  omega

/-- A row that a change takes away is not there after it. -/
theorem total_of_neg (h : d.IdentifiedBy f) (h' : (d ++ e).IdentifiedBy f) {r : Row}
    (hr : total r e < 0) : total r d ≠ 0 ∧ total r (d ++ e) = 0 := by
  have hbefore := h.once r
  have hafter := h'.once r
  rw [total_append] at hafter ⊢
  omega

theorem filterItems (h : d.IdentifiedBy f) (p : Row → Bool) :
    (Delta.filterItems p d).IdentifiedBy f := by
  obtain ⟨rows, hn, hs⟩ := h.exists_rows
  refine of_rows (rows.filter p) (hn.sublist (List.filter_sublist.map f)) ?_
  refine (hs.filterItems p).trans (.of_eq ?_)
  rw [Delta.filterItems, List.filter_map]
  rfl

/-- A change of the rows that leaves `f` alone. -/
theorem mapItems (h : d.IdentifiedBy f) {g : Row → Row} (hg : ∀ r, f (g r) = f r) :
    (Delta.mapItems g d).IdentifiedBy f := by
  obtain ⟨rows, hn, hs⟩ := h.exists_rows
  refine of_rows (rows.map g) ?_ ((hs.mapItems g).trans (.of_eq ?_))
  · rw [List.map_map, funext hg (f := f ∘ g)]
    exact hn
  · rw [Delta.mapItems, List.map_map, List.map_map]
    rfl

end IdentifiedBy

theorem total_once_eq_count (r : Row) (rows : List Row) :
    total r (rows.map (·, (1 : Int))) = rows.count r := by
  induction rows with
  | nil => rfl
  | cons s rows ih =>
    rw [List.map_cons, total, ih, List.count_cons]
    by_cases hs : s = r <;> simp [hs, add_comm]

theorem total_once_ne_zero {rows : List Row} {r : Row} (h : r ∈ rows) :
    total r (rows.map (·, (1 : Int))) ≠ 0 := by
  rw [total_once_eq_count]
  exact Int.natCast_ne_zero.mpr (List.count_pos_iff.mpr h).ne'

/-- A row with this key is there. -/
def HasKey (d : Delta Row) (k : RowKey) : Prop := ∃ r, total r d ≠ 0 ∧ r.key = k

theorem HasKey.congr {d e : Delta Row} {k : RowKey} (h : d.HasKey k) (hs : Same d e) :
    e.HasKey k := by
  obtain ⟨r, hr, hk⟩ := h
  exact ⟨r, hs r ▸ hr, hk⟩

end Delta

/-! ## Looking at keys -/

/-- A way to look at row keys under which the sides of a joined key can be told, but for what an
absent side looks like. -/
structure KeyView (α β : Type) where
  ofKey : RowKey → α
  ofSide : Option RowKey → β
  plain_injective : ∀ v w, ofKey (.plain v) = ofKey (.plain w) → v = w
  sides : ∀ l r l' r', ofKey (.joined l r) = ofKey (.joined l' r') →
    ofSide l = ofSide l' ∧ ofSide r = ofSide r'
  ofSide_some : ∀ k k', ofSide (some k) = ofSide (some k') → ofKey k = ofKey k'

namespace KeyView

/-- Keys as they are. -/
def exact : KeyView RowKey (Option RowKey) where
  ofKey := id
  ofSide := id
  plain_injective _ _ := RowKey.plain.inj
  sides _ _ _ _ := RowKey.joined.inj
  ofSide_some _ _ := Option.some.inj

/-- Keys as the values that are shown for them. -/
def shown : KeyView Value Value where
  ofKey := RowKey.toValue
  ofSide := RowKey.sideToValue
  plain_injective _ _ h := h
  sides l r l' r' h := by
    simpa [RowKey.toValue] using h
  ofSide_some _ _ h := h

variable (view : KeyView α β)

def ofRow (r : Row) : α := view.ofKey r.key

/-- Rows of both sides of a join are padded whose keys look like absent ones. -/
def Confuses (d : Delta Row) : Prop :=
  ∃ k k', d.HasKey (.joined (some k) none) ∧ d.HasKey (.joined none (some k')) ∧
    view.ofSide (some k) = view.ofSide none ∧ view.ofSide (some k') = view.ofSide none

variable {view} in
theorem Confuses.congr {d e : Delta Row} (h : view.Confuses d) (hs : Delta.Same d e) :
    view.Confuses e := by
  obtain ⟨k, k', hk, hk', hside⟩ := h
  exact ⟨k, k', hk.congr hs, hk'.congr hs, hside⟩

theorem exact_not_confuses (d : Delta Row) : ¬ exact.Confuses d := fun ⟨_, _, _, _, h, _⟩ =>
  Option.some_ne_none _ h

/-- Only null looks like an absent side. -/
theorem sideToValue_eq_null {k : RowKey} (h : RowKey.sideToValue (some k) = .null) :
    k = .plain .null := by
  cases k with
  | plain v => exact congrArg RowKey.plain h
  | joined l r => exact absurd h (by simp [RowKey.sideToValue, RowKey.toValue])

/-- What is shown for keys is confused where a null key without partner meets another one. -/
theorem shown_confuses {d : Delta Row} (h : shown.Confuses d) :
    d.HasKey (.joined (some (.plain .null)) none) ∧
      d.HasKey (.joined none (some (.plain .null))) := by
  obtain ⟨k, k', hk, hk', hnull, hnull'⟩ := h
  obtain rfl := sideToValue_eq_null hnull
  obtain rfl := sideToValue_eq_null hnull'
  exact ⟨hk, hk'⟩

end KeyView

/-! ## Joins -/

namespace JoinRule

variable (rule : JoinRule) (lefts rights : List Row)

/-- The matched rows of two lists. -/
def matchedRows : List Row :=
  lefts.flatMap fun l => (rights.filter (rule.relates l)).map fun r => Row.merge (some l) (some r)

/-- The padded rows of one side. -/
def paddedRows (pad : Row → Row) (key partnerKey : Row → JoinKey) (rows partners : List Row) :
    List Row :=
  (rows.filter fun r => isAlone partnerKey (partners.map (·, (1 : Int))) (key r)).map pad

/-- The joined rows of two lists. -/
def tableRows : List Row :=
  rule.matchedRows lefts rights ++
    (if rule.kind.keepsLeft then
      paddedRows JoinState.padLeft rule.leftKey rule.rightKey lefts rights else []) ++
    (if rule.kind.keepsRight then
      paddedRows JoinState.padRight rule.rightKey rule.leftKey rights lefts else [])

theorem filterItems_once (p : Row → Bool) (rows : List Row) :
    Delta.filterItems p (rows.map (·, (1 : Int))) = (rows.filter p).map (·, (1 : Int)) := by
  rw [Delta.filterItems, List.filter_map]
  rfl

theorem padded_once (pad : Row → Row) (key partnerKey : Row → JoinKey) (rows partners : List Row) :
    padded pad key partnerKey (rows.map (·, (1 : Int))) (partners.map (·, (1 : Int))) =
      (paddedRows pad key partnerKey rows partners).map (·, (1 : Int)) := by
  rw [padded, filterItems_once, Delta.mapItems, paddedRows, List.map_map, List.map_map]
  rfl

theorem matched_once :
    rule.matched (lefts.map (·, (1 : Int))) (rights.map (·, (1 : Int))) =
      (rule.matchedRows lefts rights).map (·, (1 : Int)) := by
  rw [matched, matchedRows, List.flatMap_map, List.map_flatMap]
  refine List.flatMap_congr fun l _ => ?_
  show (Delta.filterItems (rule.relates l) (rights.map (·, (1 : Int)))).map _ = _
  rw [filterItems_once, List.map_map, List.map_map]
  rfl

/-- The join of rows that are there once. -/
theorem table_once :
    rule.table (lefts.map (·, (1 : Int))) (rights.map (·, (1 : Int))) =
      (rule.tableRows lefts rights).map (·, (1 : Int)) := by
  rw [table, tableRows, matched_once, padded_once, padded_once]
  split <;> split <;> simp

variable {rule} {lefts rights}

theorem mem_matchedRows {x : Row} :
    x ∈ rule.matchedRows lefts rights ↔ ∃ l ∈ lefts, ∃ r ∈ rights, rule.relates l r = true ∧
      Row.merge (some l) (some r) = x := by
  simp only [matchedRows, List.mem_flatMap, List.mem_map, List.mem_filter, and_assoc]

theorem mem_paddedRows {pad : Row → Row} {key partnerKey : Row → JoinKey} {rows partners : List Row}
    {x : Row} : x ∈ paddedRows pad key partnerKey rows partners ↔
      ∃ r ∈ rows, isAlone partnerKey (partners.map (·, (1 : Int))) (key r) = true ∧ pad r = x := by
  simp only [paddedRows, List.mem_map, List.mem_filter, and_assoc]

/-- A row with a partner is not alone. -/
theorem not_alone {key : Row → JoinKey} {partners : List Row} (hn : partners.Nodup) {r : Row}
    (hr : r ∈ partners) (hk : (key r).isSome = true) :
    isAlone key (partners.map (·, (1 : Int))) (key r) = false := by
  have hnonneg : Delta.NonNegative (partners.map (·, (1 : Int))) := fun a => by
    rw [Delta.total_once hn]
    split <;> decide
  rw [isAlone_eq_not_hasPartner hnonneg, Bool.not_eq_false', hasPartner_iff]
  refine ⟨hk, r, rfl, ?_⟩
  rw [Delta.total_once hn, if_pos hr]
  decide

variable (view : KeyView α β)

theorem nodup_paddedRows {pad : Row → Row} {key partnerKey : Row → JoinKey}
    {rows partners : List Row} (hn : (rows.map view.ofRow).Nodup)
    (hpad : ∀ r s, view.ofRow (pad r) = view.ofRow (pad s) → view.ofRow r = view.ofRow s) :
    ((paddedRows pad key partnerKey rows partners).map view.ofRow).Nodup := by
  rw [paddedRows, List.map_map]
  rw [List.Nodup, List.pairwise_map] at hn ⊢
  exact (hn.sublist List.filter_sublist).imp fun hne h => hne (hpad _ _ h)

theorem nodup_matchedRows (hl : (lefts.map view.ofRow).Nodup) (hr : (rights.map view.ofRow).Nodup) :
    ((rule.matchedRows lefts rights).map view.ofRow).Nodup := by
  have hsides : ∀ l r l' r', view.ofRow (Row.merge (some l) (some r)) =
      view.ofRow (Row.merge (some l') (some r')) →
      view.ofRow l = view.ofRow l' ∧ view.ofRow r = view.ofRow r' := fun l r l' r' h => by
    obtain ⟨h1, h2⟩ := view.sides _ _ _ _ h
    exact ⟨view.ofSide_some _ _ h1, view.ofSide_some _ _ h2⟩
  rw [matchedRows, List.map_flatMap, List.nodup_flatMap]
  refine ⟨fun l _ => ?_, ?_⟩
  · rw [List.map_map]
    rw [List.Nodup, List.pairwise_map] at hr ⊢
    exact (hr.sublist List.filter_sublist).imp fun hne h => hne (hsides l _ l _ h).2
  · rw [List.Nodup, List.pairwise_map] at hl
    refine hl.imp fun {l l'} hne x hx hx' => ?_
    simp only [List.map_map, List.mem_map, Function.comp_apply] at hx hx'
    obtain ⟨r, -, rfl⟩ := hx
    obtain ⟨r', -, h⟩ := hx'
    exact hne (hsides l' r' l r h).1.symm

/-- A padded row is alone, so its left side stands in no matched row. -/
theorem matched_ne_padLeft (hl : (lefts.map view.ofRow).Nodup) (hr : rights.Nodup) {x y : Row}
    (hx : x ∈ rule.matchedRows lefts rights)
    (hy : y ∈ paddedRows JoinState.padLeft rule.leftKey rule.rightKey lefts rights) :
    view.ofRow x ≠ view.ofRow y := fun he => by
  obtain ⟨l, hlm, r, hrm, hrel, rfl⟩ := mem_matchedRows.mp hx
  obtain ⟨l', hlm', halone, rfl⟩ := mem_paddedRows.mp hy
  obtain rfl : l = l' := List.inj_on_of_nodup_map hl hlm hlm'
    (view.ofSide_some _ _ (view.sides _ _ _ _ he).1)
  rw [relates, Bool.and_eq_true, beq_iff_eq] at hrel
  rw [← hrel.2, not_alone hr hrm (hrel.2 ▸ hrel.1)] at halone
  exact absurd halone (by simp)

theorem matched_ne_padRight (hl : lefts.Nodup) (hr : (rights.map view.ofRow).Nodup) {x y : Row}
    (hx : x ∈ rule.matchedRows lefts rights)
    (hy : y ∈ paddedRows JoinState.padRight rule.rightKey rule.leftKey rights lefts) :
    view.ofRow x ≠ view.ofRow y := fun he => by
  obtain ⟨l, hlm, r, hrm, hrel, rfl⟩ := mem_matchedRows.mp hx
  obtain ⟨r', hrm', halone, rfl⟩ := mem_paddedRows.mp hy
  obtain rfl : r = r' := List.inj_on_of_nodup_map hr hrm hrm'
    (view.ofSide_some _ _ (view.sides _ _ _ _ he).2)
  rw [relates, Bool.and_eq_true, beq_iff_eq] at hrel
  rw [hrel.2, not_alone hl hlm hrel.1] at halone
  exact absurd halone (by simp)

/-- Rows that are padded on different sides look the same only where both keys look absent. -/
theorem padLeft_ne_padRight {d : Delta Row} (hc : ¬ view.Confuses d) {l r : Row}
    (hl : Delta.total (JoinState.padLeft l) d ≠ 0) (hr : Delta.total (JoinState.padRight r) d ≠ 0) :
    view.ofRow (JoinState.padLeft l) ≠ view.ofRow (JoinState.padRight r) := fun he =>
  hc ⟨l.key, r.key, ⟨_, hl, rfl⟩, ⟨_, hr, rfl⟩, (view.sides _ _ _ _ he).1,
    (view.sides _ _ _ _ he).2.symm⟩

/-- The joined rows of two lists whose rows can be told apart. -/
theorem nodup_tableRows (hl : (lefts.map view.ofRow).Nodup) (hr : (rights.map view.ofRow).Nodup)
    (hc : ¬ view.Confuses ((rule.tableRows lefts rights).map (·, (1 : Int)))) :
    ((rule.tableRows lefts rights).map view.ofRow).Nodup := by
  have hpadl : ∀ r s, view.ofRow (JoinState.padLeft r) = view.ofRow (JoinState.padLeft s) →
      view.ofRow r = view.ofRow s := fun r s h => view.ofSide_some _ _ (view.sides _ _ _ _ h).1
  have hpadr : ∀ r s, view.ofRow (JoinState.padRight r) = view.ofRow (JoinState.padRight s) →
      view.ofRow r = view.ofRow s := fun r s h => view.ofSide_some _ _ (view.sides _ _ _ _ h).2
  have hthere : ∀ x ∈ rule.tableRows lefts rights,
      Delta.total x ((rule.tableRows lefts rights).map (·, (1 : Int))) ≠ 0 := fun x hx =>
    Delta.total_once_ne_zero hx
  rw [tableRows] at hthere ⊢
  simp only [List.map_append, List.nodup_append, List.mem_append, List.mem_map]
  refine ⟨⟨nodup_matchedRows view hl hr, ?_, ?_⟩, ?_, ?_⟩
  · split
    · exact nodup_paddedRows view hl hpadl
    · exact List.nodup_nil
  · rintro _ ⟨x, hx, rfl⟩ _ ⟨y, hy, rfl⟩
    split at hy
    · exact matched_ne_padLeft view hl (.of_map _ hr) hx hy
    · exact absurd hy List.not_mem_nil
  · split
    · exact nodup_paddedRows view hr hpadr
    · exact List.nodup_nil
  · rintro _ hx _ ⟨y, hy, rfl⟩
    have hyt := hthere y (List.mem_append_right _ hy)
    split at hy
    · rcases hx with ⟨x, hx, rfl⟩ | ⟨x, hx, rfl⟩
      · exact matched_ne_padRight view (.of_map _ hl) hr hx hy
      · have hxt := hthere x (List.mem_append_left _ (List.mem_append_right _ hx))
        split at hx
        · obtain ⟨l, -, -, rfl⟩ := mem_paddedRows.mp hx
          obtain ⟨r, -, -, rfl⟩ := mem_paddedRows.mp hy
          exact padLeft_ne_padRight view hc hxt hyt
        · exact absurd hx List.not_mem_nil
    · exact absurd hy List.not_mem_nil

/-- **A join keeps the rows of its sides apart**, unless it pads rows of both sides whose keys look
like absent ones. -/
theorem table_identified (rule : JoinRule) {left right : Delta Row}
    (hl : left.IdentifiedBy view.ofRow) (hr : right.IdentifiedBy view.ofRow)
    (hc : ¬ view.Confuses (rule.table left right)) :
    (rule.table left right).IdentifiedBy view.ofRow := by
  obtain ⟨lefts, hln, hls⟩ := hl.exists_rows
  obtain ⟨rights, hrn, hrs⟩ := hr.exists_rows
  have hsame := table_congr rule hls hrs
  rw [table_once] at hsame
  exact .of_rows _ (nodup_tableRows view hln hrn fun h => hc (h.congr hsame.symm)) hsame

end JoinRule

end DeltaView
