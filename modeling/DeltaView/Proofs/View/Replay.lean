import DeltaView.Proofs.View.Mirror

/-!
# Replaying changes

A batch tells, key by key, what a flush makes of the rows that are shown. Whoever knows the values
that were shown before and replays the batch has those that are shown after it.

* `Change.replay`: an insertion or an update sets its key, and a deletion removes it.
* `ViewRows.nodup_fold`: a batch names each key once.
* **`ViewRows.replay_fold`**: replaying what folding reports gives what the rows show then.
-/

namespace DeltaView

/-! ## Replaying -/

/-- What is shown under the key of a change after it. -/
def Change.result (c : Change) : Option Value :=
  match c.kind with
  | .delete => none
  | _ => some c.value

/-- The values that are shown, after a change. -/
def Change.replay (shown : Value → Option Value) (c : Change) : Value → Option Value :=
  Function.update shown c.key c.result

/-- The values that are shown, after changes one after the other. -/
def replay (shown : Value → Option Value) (changes : List Change) : Value → Option Value :=
  changes.foldl Change.replay shown

theorem replay_append (shown : Value → Option Value) (changes changes' : List Change) :
    replay shown (changes ++ changes') = replay (replay shown changes) changes' :=
  List.foldl_append

theorem replay_of_not_mem {shown : Value → Option Value} {changes : List Change} {k : Value}
    (h : k ∉ changes.map (·.key)) : replay shown changes k = shown k := by
  induction changes generalizing shown with
  | nil => rfl
  | cons c changes ih =>
    rw [List.map_cons, List.mem_cons, not_or] at h
    exact (ih h.2).trans (Function.update_of_ne h.1 _ _)

theorem replay_of_mem {shown : Value → Option Value} {changes : List Change} {c : Change}
    (hn : (changes.map (·.key)).Nodup) (h : c ∈ changes) :
    replay shown changes c.key = c.result := by
  induction changes generalizing shown with
  | nil => exact absurd h List.not_mem_nil
  | cons d changes ih =>
    obtain ⟨hd, hn⟩ := List.nodup_cons.mp hn
    rcases List.mem_cons.mp h with rfl | h
    · exact (replay_of_not_mem hd).trans (Function.update_self _ _ _)
    · exact ih hn h

namespace ViewRows

variable {v removed added : ViewRows} {d : Delta Row} {k : Value}

/-- The values that rows show, key by key. -/
def values (v : ViewRows) (k : Value) : Option Value := (v.get? k).map (·.value)

/-! ## What is folded -/

/-- The last row that is put in under a key stays, and otherwise the one that was there. -/
theorem get?_putAll (rows : List (Value × ViewRow)) (v : ViewRows) (k : Value) :
    (putAll rows v).get? k = ((putAll rows []).get? k).or (v.get? k) := by
  induction rows generalizing v with
  | nil => rfl
  | cons e rows ih =>
    show (putAll rows (v.put e.1 e.2)).get? k =
      ((putAll rows (Table.put e.1 e.2 [])).get? k).or (v.get? k)
    rw [ih, ih (Table.put e.1 e.2 []), Option.or_assoc, Table.get?_put, Table.get?_put]
    split <;> rfl

theorem mem_restrict {keys : List Value} {row : ViewRow} :
    (k, row) ∈ restrict keys v ↔ k ∈ keys ∧ v.get? k = some row := by
  simp only [restrict, List.mem_filterMap, Option.map_eq_some_iff, Prod.mk.injEq]
  constructor
  · rintro ⟨l, hl, r, hr, rfl, rfl⟩
    exact ⟨List.mem_eraseDups.mp hl, hr⟩
  · rintro ⟨hk, hr⟩
    exact ⟨k, List.mem_eraseDups.mpr hk, row, hr, rfl, rfl⟩

theorem keysNodup_restrict (keys : List Value) (v : ViewRows) : (restrict keys v).KeysNodup := by
  rw [Table.KeysNodup, restrict, List.map_filterMap]
  refine (nodup_eraseDups keys).filterMap fun k l b hk hl => ?_
  simp only [Option.map_map, Option.mem_def, Option.map_eq_some_iff] at hk hl
  obtain ⟨_, -, hkb⟩ := hk
  obtain ⟨_, -, hlb⟩ := hl
  exact hkb.trans hlb.symm

/-! ## What is reported -/

theorem mem_changes {c : Change} :
    c ∈ changes removed added ↔
      (∃ k old, (k, old) ∈ removed ∧ replacement added k old = c) ∨
        ∃ k new, (k, new) ∈ added ∧ removed.get? k = none ∧ ⟨.insert, k, new.value, none⟩ = c := by
  simp only [changes, sortByKey, List.mem_append, List.mem_map, List.mem_mergeSort, List.mem_filter,
    Option.isNone_iff_eq_none, Prod.exists, and_assoc]

@[simp] theorem replacement_key (added : ViewRows) (k : Value) (old : ViewRow) :
    (replacement added k old).key = k := by
  unfold replacement
  split <;> rfl

@[simp] theorem replacement_result (added : ViewRows) (k : Value) (old : ViewRow) :
    (replacement added k old).result = added.values k := by
  unfold replacement values
  split <;> (rename_i h; rw [h]; rfl)

/-- **A batch names each key once.** -/
theorem nodup_changes (hr : removed.KeysNodup) (ha : added.KeysNodup) :
    ((changes removed added).map (·.key)).Nodup := by
  have hkeys : ((changes removed added).map (·.key)).Perm
      (removed.map (·.1) ++ (added.filter fun e => (removed.get? e.1).isNone).map (·.1)) := by
    rw [changes, List.map_append, List.map_map, List.map_map]
    refine List.Perm.append ?_ ((List.mergeSort_perm _ _).map _)
    rw [List.map_congr_left fun e _ => replacement_key added e.1 e.2]
    exact (List.mergeSort_perm _ _).map _
  refine hkeys.nodup_iff.mpr (List.nodup_append.mpr ⟨hr, ?_, fun k hk l hl hkl => ?_⟩)
  · exact ha.sublist (List.filter_sublist.map _)
  · obtain ⟨⟨l, new⟩, hmem, rfl⟩ := List.mem_map.mp hl
    obtain ⟨⟨k, old⟩, hold, rfl⟩ := List.mem_map.mp hk
    have hnone := Option.isNone_iff_eq_none.mp (List.mem_filter.mp hmem).2
    rw [← show k = l from hkl, Table.get?_of_mem hr hold] at hnone
    cases hnone

/-- What is replayed under each key: what was put in or taken out there. -/
theorem replay_changes (hr : removed.KeysNodup) (ha : added.KeysNodup)
    (shown : Value → Option Value) (k : Value) :
    replay shown (changes removed added) k =
      if (added.get? k).isSome || (removed.get? k).isSome then added.values k else shown k := by
  have hn := nodup_changes hr ha
  cases hold : removed.get? k with
  | some old =>
    have hmem : replacement added k old ∈ changes removed added :=
      mem_changes.mpr (Or.inl ⟨k, old, Table.mem_of_get? hold, rfl⟩)
    have hreplay : replay shown (changes removed added) (replacement added k old).key = _ :=
      replay_of_mem hn hmem
    rw [replacement_key, replacement_result] at hreplay
    rw [hreplay, Option.isSome_some, Bool.or_true, if_pos rfl]
  | none =>
    cases hnew : added.get? k with
    | some new =>
      have hmem : (⟨.insert, k, new.value, none⟩ : Change) ∈ changes removed added :=
        mem_changes.mpr (Or.inr ⟨k, new, Table.mem_of_get? hnew, hold, rfl⟩)
      rw [values, hnew]
      exact replay_of_mem hn hmem
    | none =>
      refine replay_of_not_mem fun hk => ?_
      obtain ⟨c, hc, rfl⟩ := List.mem_map.mp hk
      rcases mem_changes.mp hc with ⟨l, old, hmem, rfl⟩ | ⟨l, new, hmem, -, rfl⟩
      · rw [replacement_key, Table.get?_of_mem hr hmem] at hold
        cases hold
      · rw [Table.get?_of_mem ha hmem] at hnew
        cases hnew

/-! ## Folding -/

theorem nodup_fold (v : ViewRows) (d : Delta Row) : ((v.fold d).2.map (·.key)).Nodup :=
  nodup_changes (keysNodup_restrict _ _) (keysNodup_putAll Table.keysNodup_nil _)

/-- **Replaying what folding reports** gives the values that the rows show then. -/
theorem replay_fold (h : v.KeysNodup) (d : Delta Row) :
    replay v.values (v.fold d).2 = (v.fold d).1.values := by
  funext k
  have hremoved := keysNodup_restrict (retractedKeys d) v
  have hadded : (putAll (inserted d) []).KeysNodup :=
    keysNodup_putAll Table.keysNodup_nil _
  show replay v.values (changes (restrict (retractedKeys d) v) (putAll (inserted d) [])) k =
    ((putAll (inserted d) (eraseAll (retractedKeys d) v)).get? k).map (·.value)
  rw [replay_changes hremoved hadded, get?_putAll _ (eraseAll _ v), get?_eraseAll h]
  generalize putAll (inserted d) [] = added
  generalize retractedKeys d = keys at hremoved ⊢
  have hrestrict : (restrict keys v).get? k = if k ∈ keys then v.get? k else none := by
    refine Option.ext fun row => ?_
    have hmem : (restrict keys v).get? k = some row ↔ (k, row) ∈ restrict keys v :=
      ⟨Table.mem_of_get?, Table.get?_of_mem hremoved⟩
    rw [hmem, mem_restrict]
    split <;> simp_all
  rw [hrestrict]
  unfold values
  cases added.get? k with
  | some new => rfl
  | none =>
    by_cases hk : k ∈ keys
    · cases v.get? k <;> simp [hk]
    · simp [hk]

end ViewRows

end DeltaView
