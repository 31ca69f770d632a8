import DeltaView.Proofs.View.Failure

/-!
# Views show all rows

A view keeps its rows under the values of their keys, and a key with an absent side has the value of
one with a null side. As long as no stage pads null keys on both sides, every row that has come out
of the graph is shown, and nothing else.

* `Mirrors`: a view shows just the rows of a delta. **`fold_mirrors`**: folding a change in keeps
  this, where the rows can be told apart by the values of their keys before and after it.
* `NullsApart`: the condition on histories. **`view_mirrors_output`**: a view shows what has come
  out, row by row.
-/

namespace DeltaView

namespace ViewRows

/-- The entry of a view for a row. -/
def entryOf (r : Row) : Value × ViewRow := (r.key.toValue, ⟨r.value, r.order⟩)

/-! ## Folding -/

variable {v : ViewRows} {d out : Delta Row} {k : Value} {row : ViewRow}

theorem keysNodup_eraseAll (h : v.KeysNodup) (keys : List Value) : (eraseAll keys v).KeysNodup := by
  induction keys generalizing v with
  | nil => exact h
  | cons l keys ih => exact ih (Table.keysNodup_erase h)

theorem get?_eraseAll (h : v.KeysNodup) (keys : List Value) (k : Value) :
    (eraseAll keys v).get? k = if k ∈ keys then none else v.get? k := by
  induction keys generalizing v with
  | nil => rfl
  | cons l keys ih =>
    show (eraseAll keys (v.erase l)).get? k = _
    rw [ih (Table.keysNodup_erase h), Table.get?_erase h]
    by_cases hk : k ∈ keys
    · rw [if_pos hk, if_pos (List.mem_cons_of_mem l hk)]
    · by_cases hl : l = k
      · simp [hl]
      · simp [hk, hl, Ne.symm hl]

theorem keysNodup_putAll (h : v.KeysNodup) (rows : List (Value × ViewRow)) :
    (putAll rows v).KeysNodup := by
  induction rows generalizing v with
  | nil => exact h
  | cons e rows ih => exact ih (Table.keysNodup_put h)

theorem get?_putAll_of_not_mem {rows : List (Value × ViewRow)} (h : k ∉ rows.map (·.1)) :
    (putAll rows v).get? k = v.get? k := by
  induction rows generalizing v with
  | nil => rfl
  | cons e rows ih =>
    rw [List.map_cons, List.mem_cons, not_or] at h
    show (putAll rows (v.put e.1 e.2)).get? k = _
    rw [ih h.2, Table.get?_put, if_neg (Ne.symm h.1)]

theorem get?_putAll_of_mem {rows : List (Value × ViewRow)} (hn : (rows.map (·.1)).Nodup)
    (h : (k, row) ∈ rows) : (putAll rows v).get? k = some row := by
  induction rows generalizing v with
  | nil => exact absurd h List.not_mem_nil
  | cons e rows ih =>
    obtain ⟨he, hn⟩ := List.nodup_cons.mp hn
    show (putAll rows (v.put e.1 e.2)).get? k = _
    rcases List.mem_cons.mp h with rfl | h
    · rw [get?_putAll_of_not_mem he, Table.get?_put, if_pos rfl]
    · exact ih hn h

/-- **A view shows just the rows of a delta**, each under the value of its key. -/
structure Mirrors (v : ViewRows) (d : Delta Row) : Prop where
  keys : v.KeysNodup
  shows : ∀ k row, v.get? k = some row ↔ ∃ r, Delta.total r d ≠ 0 ∧ entryOf r = (k, row)

theorem Mirrors.empty : Mirrors [] [] where
  keys := List.nodup_nil
  shows k row := by simp [Table.get?, Delta.total]

/-- A view that mirrors rows that are told apart has one entry for each of them. -/
theorem Mirrors.perm (h : v.Mirrors d) {rows : List Row} (hs : Delta.Same d (rows.map (·, 1)))
    (hn : (rows.map fun r => r.key.toValue).Nodup) : v.Perm (rows.map entryOf) := by
  have hrows : (rows.map entryOf).Nodup := .of_map Prod.fst (by rwa [List.map_map])
  refine (List.perm_ext_iff_of_nodup (.of_map _ h.keys) hrows).mpr fun e => ?_
  have hmem : ∀ r, Delta.total r d ≠ 0 ↔ r ∈ rows := fun r => by
    rw [hs r, Delta.total_once_eq_count, Ne, Int.natCast_eq_zero, List.count_eq_zero, not_not]
  have hget : e ∈ v ↔ v.get? e.1 = some e.2 :=
    ⟨Table.get?_of_mem h.keys, Table.mem_of_get?⟩
  rw [hget, h.shows, List.mem_map]
  exact exists_congr fun r => and_congr_left fun _ => hmem r

theorem mem_inserted (hout : out.Consolidated) {e : Value × ViewRow} :
    e ∈ inserted out ↔ ∃ r, 0 < Delta.total r out ∧ entryOf r = e := by
  simp only [inserted, List.mem_map, List.mem_filter, decide_eq_true_eq, Prod.exists]
  constructor
  · rintro ⟨r, m, ⟨hm, hpos⟩, rfl⟩
    obtain ⟨hne, rfl⟩ := hout.mem_iff.mp hm
    exact ⟨r, by omega, rfl⟩
  · rintro ⟨r, hpos, rfl⟩
    exact ⟨r, _, ⟨hout.mem_iff.mpr ⟨hpos.ne', rfl⟩, by omega⟩, rfl⟩

theorem mem_retractedKeys (hout : out.Consolidated) :
    k ∈ retractedKeys out ↔ ∃ r, Delta.total r out < 0 ∧ r.key.toValue = k := by
  simp only [retractedKeys, List.mem_map, List.mem_filter, decide_eq_true_eq, Prod.exists]
  constructor
  · rintro ⟨r, m, ⟨hm, hneg⟩, rfl⟩
    obtain ⟨-, rfl⟩ := hout.mem_iff.mp hm
    exact ⟨r, hneg, rfl⟩
  · rintro ⟨r, hneg, rfl⟩
    exact ⟨r, _, ⟨hout.mem_iff.mpr ⟨hneg.ne, rfl⟩, hneg⟩, rfl⟩

/-- The rows that a change puts in have different keys, if they are told apart afterwards. -/
theorem nodup_inserted (hout : out.Consolidated)
    (hthere : ∀ r, 0 < Delta.total r out → Delta.total r (d ++ out) ≠ 0)
    (hd' : (d ++ out).IdentifiedBy KeyView.shown.ofRow) : ((inserted out).map (·.1)).Nodup := by
  rw [inserted, List.map_map, List.Nodup, List.pairwise_map]
  have hkeys := hout.nodup
  rw [List.Nodup, List.pairwise_map] at hkeys
  have hpos : ∀ e ∈ out, ¬ e.2 < 0 → Delta.total e.1 (d ++ out) ≠ 0 := fun e he hm => by
    obtain ⟨hne, ht⟩ := hout.mem_iff.mp he
    exact hthere _ (by omega)
  refine (hkeys.sublist List.filter_sublist).imp_of_mem fun {a b} ha hb hne he => hne ?_
  obtain ⟨ha, hma⟩ := List.mem_filter.mp ha
  obtain ⟨hb, hmb⟩ := List.mem_filter.mp hb
  exact hd'.unique _ _ (hpos a ha (of_decide_eq_true hma)) (hpos b hb (of_decide_eq_true hmb)) he

theorem keysNodup_fold (h : v.KeysNodup) (out : Delta Row) : (v.fold out).1.KeysNodup :=
  keysNodup_putAll (keysNodup_eraseAll h _) _

/-- A row that a change puts in is found under its key. -/
theorem get?_fold_of_inserted (hn : ((inserted out).map (·.1)).Nodup)
    (hrow : (k, row) ∈ inserted out) : (v.fold out).1.get? k = some row :=
  get?_putAll_of_mem hn hrow

/-- A key that is only taken out has no row any more. -/
theorem get?_fold_of_retracted (h : v.KeysNodup) (hin : k ∉ (inserted out).map (·.1))
    (hgone : k ∈ retractedKeys out) : (v.fold out).1.get? k = none := by
  show (putAll (inserted out) (eraseAll (retractedKeys out) v)).get? k = none
  rw [get?_putAll_of_not_mem hin, get?_eraseAll h, if_pos hgone]

/-- A key that a change does not touch keeps its row. -/
theorem get?_fold_of_untouched (h : v.KeysNodup) (hin : k ∉ (inserted out).map (·.1))
    (hgone : k ∉ retractedKeys out) : (v.fold out).1.get? k = v.get? k := by
  show (putAll (inserted out) (eraseAll (retractedKeys out) v)).get? k = v.get? k
  rw [get?_putAll_of_not_mem hin, get?_eraseAll h, if_neg hgone]

/-- Of a key under which a change puts no row in, it adds none. -/
theorem not_pos_of_not_inserted (hout : out.Consolidated) (hin : k ∉ (inserted out).map (·.1))
    {r : Row} (hr : r.key.toValue = k) : ¬ 0 < Delta.total r out := fun hpos =>
  hin (List.mem_map.mpr ⟨entryOf r, (mem_inserted hout).mpr ⟨r, hpos, rfl⟩, hr⟩)

/-- **Folding a change into a view** that mirrors what came before makes it mirror the change as
well, where rows are told apart before and after. -/
theorem fold_mirrors (h : v.Mirrors d) (hout : out.Consolidated)
    (hd : d.IdentifiedBy KeyView.shown.ofRow) (hd' : (d ++ out).IdentifiedBy KeyView.shown.ofRow) :
    (v.fold out).1.Mirrors (d ++ out) := by
  refine ⟨keysNodup_fold h.keys out, fun k row => ?_⟩
  by_cases hin : k ∈ (inserted out).map (·.1)
  · -- A row is put in under this key, and it is the only one that is there.
    obtain ⟨⟨l, row'⟩, hmem, rfl⟩ := List.mem_map.mp hin
    have hnodup := nodup_inserted hout (fun r hr => (hd.total_of_pos hd' hr).2) hd'
    rw [get?_fold_of_inserted hnodup hmem]
    obtain ⟨r, hr, he⟩ := (mem_inserted hout).mp hmem
    have hthere := (hd.total_of_pos hd' hr).2
    constructor
    · rintro hrow
      obtain rfl := Option.some.inj hrow
      exact ⟨r, hthere, he⟩
    · rintro ⟨s, hs, hes⟩
      obtain rfl := hd'.unique r s hthere hs
        ((congrArg Prod.fst he).trans (congrArg Prod.fst hes).symm)
      exact congrArg some (congrArg Prod.snd (he.symm.trans hes))
  by_cases hgone : k ∈ retractedKeys out
  · -- The row under this key is taken out, and no other one had it.
    rw [get?_fold_of_retracted h.keys hin hgone]
    obtain ⟨r, hneg, rfl⟩ := (mem_retractedKeys hout).mp hgone
    obtain ⟨hbefore, hafter⟩ := hd.total_of_neg hd' hneg
    refine iff_of_false (by simp) fun ⟨s, hs, hes⟩ => ?_
    have hkey : s.key.toValue = r.key.toValue := congrArg Prod.fst hes
    have hnot := not_pos_of_not_inserted hout hin hkey
    have honce := hd'.once s
    have hsd : Delta.total s d ≠ 0 := fun h0 => by
      rw [Delta.total_append, h0] at hs honce
      omega
    obtain rfl := hd.unique s r hsd hbefore hkey
    exact hs hafter
  · rw [get?_fold_of_untouched h.keys hin hgone, h.shows]
    refine exists_congr fun r => and_congr_left fun he => ?_
    have hkey : r.key.toValue = k := congrArg Prod.fst he
    have hpos := not_pos_of_not_inserted hout hin hkey
    have hneg : ¬ Delta.total r out < 0 := fun hneg =>
      hgone ((mem_retractedKeys hout).mpr ⟨r, hneg, hkey⟩)
    rw [Delta.total_append, show Delta.total r out = 0 by omega, add_zero]

end ViewRows

namespace LiveView

theorem prepare_rows (v : LiveView) (op : Operation) : (v.prepare op).1.rows = v.rows :=
  prepare_keeps (·.rows) (fun _ _ => rfl) (fun _ _ _ => rfl) (fun _ _ => rfl) v op

theorem consolidated_flushed {v w : LiveView} {batch : Batch} (h : v.flush = (w, .ok batch)) :
    v.flushed.Consolidated := by
  obtain ⟨graph, -, -, ⟨-, -, -, hout⟩ | ⟨graph', -, -, -, -, hout, -⟩⟩ := flush_cases h
  · rw [hout]
    exact .nil
  · rw [hout]
    exact Delta.consolidated_consolidate _

end LiveView

namespace History

variable {functions : RowFunctions} {h : History} {ops ops' : List Operation} {op : Operation}

/-- **No stage pads null keys on both sides**: none has, after any of the operations, a row of a
null key without right side and one of a null key without left side. -/
def NullsApart (h : History) (ops : List Operation) : Prop :=
  ∀ before, before <+: ops → ∀ n, h.view.Stage n →
    ¬ ((h.emitted before n).HasKey (.joined (some (.plain .null)) none) ∧
      (h.emitted before n).HasKey (.joined none (some (.plain .null))))

theorem NullsApart.not_confuses (hn : h.NullsApart ops) {n : Nat} (hs : h.view.Stage n) :
    ¬ KeyView.shown.Confuses (h.emitted ops n) := fun hc =>
  hn ops (List.prefix_refl ops) n hs (KeyView.shown_confuses hc)

theorem NullsApart.of_prefix (hn : h.NullsApart ops') (hp : ops <+: ops') : h.NullsApart ops :=
  fun before hb => hn before (hb.trans hp)

theorem Ordered.of_prefix (ho : h.Ordered ops') (hp : ops <+: ops') : h.Ordered ops := fun e he =>
  (ho e he).mono fun _ hv => hv.mono hp

/-- It is enough that no stage has rows with both keys among all that came out. -/
theorem NullsApart.of_keys (hk : ∀ before ∈ ops.inits,
    ∀ n ∈ List.range h.view.circuit.graph.nodes.length,
      ¬ (.joined (some (.plain .null)) none ∈ (h.emitted before n).map (·.1.key) ∧
        .joined none (some (.plain .null)) ∈ (h.emitted before n).map (·.1.key))) :
    h.NullsApart ops := by
  have hmem : ∀ {d : Delta Row} {k : RowKey}, d.HasKey k → k ∈ d.map (·.1.key) := by
    rintro d _ ⟨r, hr, rfl⟩
    obtain ⟨m, hm⟩ := Delta.exists_mem_of_total_ne_zero hr
    exact List.mem_map.mpr ⟨(r, m), hm, rfl⟩
  exact fun before hb n hs ⟨hleft, hright⟩ => hk before ((List.mem_inits _ _).mpr hb) n
    (List.mem_range.mpr hs.1) ⟨hmem hleft, hmem hright⟩

/-- What has come out is shown by the view, and its rows are told apart by the values of their
keys. -/
structure Shown (h : History) : Prop where
  mirrors : h.view.rows.Mirrors h.output
  identified : h.output.IdentifiedBy KeyView.shown.ofRow

/-- A flush folds what it takes out into the rows that are shown. -/
theorem Shown.step (hs : h.Shown) (hok : h.Flushes op → ∃ batch, (h.view.perform op).2 = .ok batch)
    (hid : h.Flushes op → (h.step op).output.IdentifiedBy KeyView.shown.ofRow) :
    (h.step op).Shown := by
  by_cases hf : h.Flushes op
  · obtain ⟨batch, hbatch⟩ := hok hf
    have hflush := flush_of_flushes hf
    rw [hbatch] at hflush
    have hrows : (h.step op).view.rows = (h.view.rows.fold (h.view.prepare op).1.flushed).1 := by
      rw [← LiveView.prepare_rows h.view op]
      exact congrArg Prod.fst (LiveView.flush_fold hflush)
    have hid := hid hf
    refine ⟨?_, hid⟩
    rw [hrows]
    rw [output_of_flushes hf] at hid ⊢
    exact ViewRows.fold_mirrors hs.mirrors (LiveView.consolidated_flushed hflush) hs.identified hid
  · obtain ⟨hview, hout⟩ := step_of_quiet hf
    refine ⟨?_, hout ▸ hs.identified⟩
    rw [hout, hview, LiveView.prepare_rows]
    exact hs.mirrors

theorem start_shown (v : LiveView) (hv : v.rows = []) : (start v).Shown := by
  refine ⟨?_, .of_rows [] List.nodup_nil (.refl _)⟩
  show v.rows.Mirrors []
  rw [hv]
  exact .empty

/-- **All that comes out is shown**, at every moment of every history. -/
theorem run_shown {objects : Nat → Nat} {optimizer : Optimizer} {autocommit : Bool} {q : Query}
    {v : LiveView}
    (hv : LiveView.ofQuery? functions objects optimizer autocommit q = .ok v) (ops : List Operation)
    (hok : (start v).Succeeds ops) (ho : (start v).Ordered ops) (hn : (start v).NullsApart ops) :
    ((start v).run ops).Shown := by
  induction ops using List.reverseRecOn with
  | nil =>
    obtain ⟨p, hp, h⟩ := bind_eq_ok.mp hv
    obtain ⟨c, hc, h⟩ := bind_eq_ok.mp h
    exact start_shown v (by rw [← Except.ok.inj h])
  | append_singleton ops op ih =>
    have hprefix := List.prefix_append ops [op]
    obtain ⟨hok', hlast, -⟩ := succeeds_append.mp hok
    rw [run_append]
    refine (ih hok' (ho.of_prefix hprefix) (hn.of_prefix hprefix)).step hlast fun hf => ?_
    rw [← run_append]
    exact (stages_identified KeyView.shown hv hok hf ho fun n hs => hn.not_confuses hs).2

/-- **A view shows what has come out of its graph, row by row**: there is one entry for every row,
under the value of its key, and no two rows have one value. -/
theorem view_mirrors_output {objects : Nat → Nat} {optimizer : Optimizer} {autocommit : Bool}
    {q : Query} {v : LiveView}
    (hv : LiveView.ofQuery? functions objects optimizer autocommit q = .ok v) (ops : List Operation)
    (hkeys : v.circuit.graph.rankings ≠ [] → (start v).FindsKeys ops)
    (ho : (start v).Ordered ops) (hn : (start v).NullsApart ops) :
    let h := (start v).run ops
    ∃ rows : List Row, Delta.Same h.output (rows.map (·, 1)) ∧
      (rows.map fun r => r.key.toValue).Nodup ∧ h.view.rows.Perm (rows.map ViewRows.entryOf) := by
  intro h
  have hs : h.Shown := run_shown hv ops (succeeds_of_findsKeys hv hkeys) ho hn
  obtain ⟨rows, hnodup, hsame⟩ := hs.identified.exists_rows
  exact ⟨rows, hsame, hnodup, hs.mirrors.perm hsame hnodup⟩

/-- A null key that is padded on one side, and another key on the other side. -/
theorem view_mirrors_padded_rows :
    let functions : RowFunctions := fun _ v => v
    let keys (name : String) : Query :=
      { source := .collection name "t", select := some [⟨"k", .ref ["t", "k"]⟩]
        groupBy := [.ref ["t", "k"]] }
    let q : Query :=
      { source := .subquery (keys "a") "x"
        joins := [⟨.full, .subquery (keys "b") "y", .ref ["x", "k"], .ref ["y", "k"]⟩] }
    let put (name : String) (k : Value) : Operation :=
      .apply name ⟨.insert, .int 1, .object [("k", k)], none⟩
    let ops : List Operation := [put "a" .null, put "b" (.int 5)]
    ∃ v, LiveView.ofQuery? functions id ⟨true, 10, 32⟩ true q = .ok v ∧
      (v.circuit.graph.rankings ≠ [] → (start v).FindsKeys ops) ∧
      (start v).Ordered ops ∧ (start v).NullsApart ops ∧
      let h := (start v).run ops
      ∃ rows : List Row, Delta.Same h.output (rows.map (·, 1)) ∧
        (rows.map fun r => r.key.toValue).Nodup ∧
        h.view.rows.Perm (rows.map ViewRows.entryOf) := by
  intro functions keys q put ops
  -- What the operations do is computed at once, and then read off.
  have hrun : (LiveView.ofQuery? functions id ⟨true, 10, 32⟩ true q).map (fun v =>
      decide ((start v).Succeeds ops ∧ (∀ e ∈ v.circuit.graph.rankings,
          PreorderOn e.2 (· ∈ (start v).values ops e.1)) ∧
        ∀ before ∈ ops.inits, ∀ n ∈ List.range v.circuit.graph.nodes.length,
          ¬ (.joined (some (.plain .null)) none ∈ ((start v).emitted before n).map (·.1.key) ∧
            .joined none (some (.plain .null)) ∈ ((start v).emitted before n).map (·.1.key)))) =
      .ok true := by decide +kernel
  obtain ⟨v, hv, hdecided⟩ := map_eq_ok.mp hrun
  obtain ⟨hok, hvalues, hpadded⟩ := of_decide_eq_true hdecided
  have hkeys : v.circuit.graph.rankings ≠ [] → (start v).FindsKeys ops := fun _ =>
    .of_succeeds hok
  have hordered : (start v).Ordered ops := .of_values hvalues
  have hnulls : (start v).NullsApart ops := .of_keys hpadded
  exact ⟨v, hv, hkeys, hordered, hnulls, view_mirrors_output hv ops hkeys hordered hnulls⟩

/-- **Null keys that are padded on both sides overwrite each other**: an absent side and a null key
have one value, so one row of two is shown. -/
theorem view_mirrors_output_fails :
    let functions : RowFunctions := fun _ v => v
    let keys (name : String) : Query :=
      { source := .collection name name, select := some [⟨"k", .ref [name, "k"]⟩]
        groupBy := [.ref [name, "k"]] }
    let q : Query :=
      { source := .subquery (keys "a") "x"
        joins := [⟨.full, .subquery (keys "b") "y", .ref ["x", "k"], .ref ["y", "k"]⟩] }
    let put (name : String) : Operation :=
      .apply name ⟨.insert, .int 1, .object [("k", .null)], none⟩
    ∃ v, LiveView.ofQuery? functions id ⟨false, 10, 32⟩ true q = .ok v ∧
      (start v).Succeeds [put "a", put "b"] ∧ ((start v).run [put "a"]).Flushes (put "b") ∧
      let h := (start v).run [put "a", put "b"]
      ¬ ∃ rows : List Row, Delta.Same h.output (rows.map (·, 1)) ∧
        h.view.rows.Perm (rows.map ViewRows.entryOf) := by
  intro functions keys q put
  let left : Row :=
    { key := .joined (some (.plain .null)) none, value := .object [("x", .object [("k", .null)])] }
  have hrun : (LiveView.ofQuery? functions id ⟨false, 10, 32⟩ true q).map (fun v =>
      decide ((start v).Succeeds [put "a", put "b"] ∧
        ((start v).run [put "a"]).Flushes (put "b") ∧
        Delta.total left ((start v).run [put "a", put "b"]).output = 1 ∧
        ViewRows.entryOf left ∉ ((start v).run [put "a", put "b"]).view.rows)) = .ok true := by
    decide +kernel
  obtain ⟨v, hv, hdecided⟩ := map_eq_ok.mp hrun
  obtain ⟨hsucceeds, hflushes, hthere, hmissing⟩ := of_decide_eq_true hdecided
  refine ⟨v, hv, hsucceeds, hflushes, fun ⟨rows, hsame, hperm⟩ => hmissing ?_⟩
  rw [hsame left, Delta.total_once_eq_count] at hthere
  have hmem : left ∈ rows := List.count_pos_iff.mp (by omega)
  exact hperm.mem_iff.mpr (List.mem_map_of_mem hmem)

end History

end DeltaView
