import DeltaView.Proofs.View.Feed

/-!
# Differences of tables

What has to be done to the rows of one table to have those of another: key by key, the old row is
taken out and the new one is put in, and nothing is done where they are the same.

* `Table.difference`: the change from one table to another.
* **`total_difference`**, **`consolidated_difference`**: it makes the one out of the other, and
  there is nothing in it that could be merged or dropped.
-/

namespace DeltaView

namespace Table

variable {old new t : Table Value Value} {k : Value} {r : Row}

/-- What is done under a key: at most one removal and one insertion, and nothing if the row
stays. -/
def changeAt (old new : Table Value Value) (k : Value) : Delta Row :=
  if old.get? k = new.get? k then [] else Delta.negate (old.rowAt k) ++ new.rowAt k

/-- The change from one table to another, key by key. -/
def difference (old new : Table Value Value) : Delta Row :=
  ((old ++ new).map (·.1)).eraseDups.flatMap (changeAt old new)

/-! ## Rows under a key -/

theorem mem_rowAt {e : Row × Int} (h : e ∈ t.rowAt k) :
    e.1.key = .plain k ∧ t.get? k = some e.1.value ∧ e.2 = 1 := by
  obtain ⟨v, hv, rfl⟩ := List.mem_map.mp h
  exact ⟨rfl, Option.mem_toList.mp hv, rfl⟩

theorem rowAt_of_not_mem (h : k ∉ t.map (·.1)) : t.rowAt k = [] := by
  rw [rowAt, get?_eq_none h]
  rfl

/-- The rows of a table under a key are the row that is looked up there. -/
theorem total_rows_eq (h : t.KeysNodup) (hk : r.key = .plain k) :
    Delta.total r t.rows = Delta.total r (t.rowAt k) := by
  induction t with
  | nil => rfl
  | cons e t ih =>
    obtain ⟨l, v⟩ := e
    obtain ⟨hl, ht⟩ := List.nodup_cons.mp h
    rw [total_rows_cons, ih ht]
    by_cases hlk : l = k
    · subst hlk
      rw [rowAt_of_not_mem hl, rowAt, get?, if_pos rfl]
      exact add_zero _
    · have hother : Delta.total r [({ key := .plain l, value := v }, (1 : Int))] = 0 :=
        Delta.total_eq_zero_of_not_mem fun e he heq => by
          rw [List.mem_singleton.mp he] at heq
          rw [← heq] at hk
          exact hlk (RowKey.plain.inj hk)
      rw [hother, zero_add, rowAt, rowAt, get?, if_neg hlk]

theorem total_rows_of_joined {left right : Option RowKey} (hk : r.key = .joined left right) :
    Delta.total r t.rows = 0 :=
  Delta.total_eq_zero_of_not_mem fun e he heq => by
    obtain ⟨⟨l, v⟩, -, rfl⟩ := List.mem_map.mp he
    rw [← heq] at hk
    cases hk

/-! ## Differences -/

theorem mem_changeAt {e : Row × Int} (h : e ∈ changeAt old new k) :
    e.1.key = .plain k ∧
      ((old.get? k = some e.1.value ∧ e.2 = -1) ∨ (new.get? k = some e.1.value ∧ e.2 = 1)) := by
  unfold changeAt at h
  split at h
  · cases h
  · rcases List.mem_append.mp h with h | h
    · obtain ⟨⟨x, m⟩, hx, rfl⟩ := List.mem_map.mp h
      obtain ⟨hk, hv, rfl⟩ := mem_rowAt hx
      exact ⟨hk, Or.inl ⟨hv, rfl⟩⟩
    · obtain ⟨hk, hv, hm⟩ := mem_rowAt h
      exact ⟨hk, Or.inr ⟨hv, hm⟩⟩

theorem total_changeAt (old new : Table Value Value) (k : Value) (r : Row) :
    Delta.total r (changeAt old new k) =
      Delta.total r (new.rowAt k) - Delta.total r (old.rowAt k) := by
  unfold changeAt
  split
  · rename_i hsame
    rw [rowAt, rowAt, hsame]
    exact (sub_self _).symm
  · rw [Delta.total_append, Delta.total_negate]
    ring

/-- In a list of different keys one at most changes a row. -/
theorem total_flatMap_changeAt {keys : List Value} (hn : keys.Nodup) (hk : r.key = .plain k) :
    Delta.total r (keys.flatMap (changeAt old new)) =
      if k ∈ keys then Delta.total r (changeAt old new k) else 0 := by
  induction keys with
  | nil => rfl
  | cons l keys ih =>
    obtain ⟨hl, hn⟩ := List.nodup_cons.mp hn
    rw [List.flatMap_cons, Delta.total_append, ih hn]
    by_cases hlk : l = k
    · subst hlk
      rw [if_neg hl, if_pos List.mem_cons_self, add_zero]
    · have hother : Delta.total r (changeAt old new l) = 0 :=
        Delta.total_eq_zero_of_not_mem fun e he heq => by
          rw [← heq, (mem_changeAt he).1] at hk
          exact hlk (RowKey.plain.inj hk)
      simp [hother, Ne.symm hlk]

/-- **The difference makes one table out of the other.** -/
theorem total_difference (ho : old.KeysNodup) (hn : new.KeysNodup) (r : Row) :
    Delta.total r (difference old new) = Delta.total r new.rows - Delta.total r old.rows := by
  cases hk : r.key with
  | plain k =>
    rw [difference, total_flatMap_changeAt (nodup_eraseDups _) hk, total_changeAt,
      total_rows_eq ho hk, total_rows_eq hn hk]
    split
    · rfl
    · rename_i hnot
      rw [List.mem_eraseDups, List.map_append, List.mem_append, not_or] at hnot
      rw [rowAt_of_not_mem hnot.1, rowAt_of_not_mem hnot.2]
      rfl
  | joined left right =>
    rw [total_rows_of_joined hk, total_rows_of_joined hk]
    refine Delta.total_eq_zero_of_not_mem fun e he heq => ?_
    obtain ⟨k, -, hmem⟩ := List.mem_flatMap.mp he
    rw [← heq, (mem_changeAt hmem).1] at hk
    cases hk

theorem nodup_changeAt (old new : Table Value Value) (k : Value) :
    ((changeAt old new k).map (·.1)).Nodup := by
  unfold changeAt rowAt
  cases old.get? k with
  | none => cases new.get? k <;> simp [Delta.negate]
  | some v =>
    cases new.get? k with
    | none => simp [Delta.negate]
    | some w =>
      by_cases hvw : v = w
      · simp [hvw]
      · simp [Delta.negate, hvw]

/-- **In a difference each row is named once**, with the multiplicity one or minus one. -/
theorem consolidated_difference (old new : Table Value Value) :
    (difference old new).Consolidated := by
  refine ⟨?_, fun e he => ?_⟩
  · rw [difference, List.map_flatMap, List.nodup_flatMap]
    refine ⟨fun k _ => nodup_changeAt old new k, ?_⟩
    refine (nodup_eraseDups _).imp fun {k l} hne r hk hl => hne ?_
    obtain ⟨e, he, rfl⟩ := List.mem_map.mp hk
    obtain ⟨f, hf, hfe⟩ := List.mem_map.mp hl
    have hkey := (mem_changeAt he).1
    rw [← hfe, (mem_changeAt hf).1] at hkey
    exact (RowKey.plain.inj hkey).symm
  · obtain ⟨k, -, hmem⟩ := List.mem_flatMap.mp he
    rcases (mem_changeAt hmem).2 with ⟨-, h⟩ | ⟨-, h⟩ <;> rw [h] <;> decide

/-- A consolidated change that makes one table out of another is their difference. -/
theorem perm_difference (ho : old.KeysNodup) (hn : new.KeysNodup) {d : Delta Row}
    (hd : d.Consolidated) (h : Delta.Same (old.rows ++ d) new.rows) :
    d.Perm (difference old new) := by
  refine hd.perm (consolidated_difference old new) fun r => ?_
  have hr := h r
  rw [Delta.total_append] at hr
  rw [total_difference ho hn]
  omega

end Table

end DeltaView
