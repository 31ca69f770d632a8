import DeltaView.Table
import Mathlib.Data.List.Nodup

/-!
# Look-ups in tables

A table means what `get?` gives. `put` keeps the keys apart, and where they are apart `erase` takes
out one of them.

* `get?_erase`, `get?_set`: look-ups after a change at one key.
-/

namespace DeltaView

theorem nodup_eraseDups {α : Type} [DecidableEq α] (items : List α) : items.eraseDups.Nodup := by
  cases items with
  | nil => exact List.nodup_nil
  | cons a items =>
    rw [List.eraseDups_cons]
    refine List.nodup_cons.mpr ⟨fun hmem => ?_, nodup_eraseDups (items.filter fun b => !b == a)⟩
    simpa using List.of_mem_filter (List.mem_eraseDups.mp hmem)
termination_by items.length
decreasing_by exact Nat.lt_succ_of_le (List.length_filter_le _ _)

namespace Table

variable {κ α : Type} [DecidableEq κ]

/-- No key stands twice. -/
def KeysNodup (t : Table κ α) : Prop := (t.map (·.1)).Nodup

omit [DecidableEq κ] in
theorem keysNodup_nil : KeysNodup ([] : Table κ α) := List.nodup_nil

theorem get?_eq_none {k : κ} {t : Table κ α} (h : k ∉ t.map (·.1)) : get? k t = none := by
  induction t with
  | nil => rfl
  | cons p t ih =>
    obtain ⟨l, a⟩ := p
    rw [List.map_cons, List.mem_cons, not_or] at h
    rw [get?, if_neg fun e => h.1 e.symm, ih h.2]

theorem mem_of_get? {k : κ} {a : α} {t : Table κ α} (h : get? k t = some a) : (k, a) ∈ t := by
  induction t with
  | nil => exact absurd h (by simp [get?])
  | cons p t ih =>
    obtain ⟨l, b⟩ := p
    rw [get?] at h
    split at h
    · rename_i hl
      rw [← hl, Option.some.inj h]
      exact List.mem_cons_self
    · exact List.mem_cons_of_mem _ (ih h)

theorem get?_of_mem {k : κ} {a : α} {t : Table κ α} (h : KeysNodup t) (hm : (k, a) ∈ t) :
    get? k t = some a := by
  induction t with
  | nil => exact absurd hm (by simp)
  | cons p t ih =>
    obtain ⟨l, b⟩ := p
    obtain ⟨hl, ht⟩ := List.nodup_cons.mp h
    rw [get?]
    rcases List.mem_cons.mp hm with he | hmem
    · obtain ⟨rfl, rfl⟩ := Prod.mk.inj he
      rw [if_pos rfl]
    · rw [if_neg fun e => hl (List.mem_map.mpr ⟨(k, a), hmem, e.symm⟩), ih ht hmem]

theorem mem_keys_put {k l : κ} {a : α} {t : Table κ α} :
    l ∈ (put k a t).map (·.1) ↔ l = k ∨ l ∈ t.map (·.1) := by
  induction t with
  | nil => simp [put]
  | cons p t ih =>
    obtain ⟨m, b⟩ := p
    unfold put
    split
    · rename_i hm
      subst hm
      simp
    · rw [List.map_cons, List.mem_cons, ih, List.map_cons, List.mem_cons]
      tauto

theorem keysNodup_put {k : κ} {a : α} {t : Table κ α} (h : KeysNodup t) :
    KeysNodup (put k a t) := by
  induction t with
  | nil => simp [KeysNodup, put]
  | cons p t ih =>
    obtain ⟨m, b⟩ := p
    obtain ⟨hm, ht⟩ := List.nodup_cons.mp h
    unfold put
    split
    · rename_i hmk
      subst hmk
      exact h
    · rename_i hmk
      refine List.nodup_cons.mpr ⟨fun hmem => ?_, ih ht⟩
      rcases mem_keys_put.mp hmem with e | hmem
      · exact hmk e
      · exact hm hmem

theorem erase_sublist (k : κ) (t : Table κ α) : (erase k t).Sublist t := by
  induction t with
  | nil => exact List.Sublist.refl _
  | cons p t ih =>
    obtain ⟨m, b⟩ := p
    unfold erase
    split
    · exact List.sublist_cons_self _ _
    · exact ih.cons_cons _

theorem keysNodup_erase {k : κ} {t : Table κ α} (h : KeysNodup t) : KeysNodup (erase k t) :=
  h.sublist ((erase_sublist k t).map _)

theorem get?_erase {k : κ} {t : Table κ α} (h : KeysNodup t) (l : κ) :
    get? l (erase k t) = if k = l then none else get? l t := by
  induction t with
  | nil => simp [erase, get?]
  | cons p t ih =>
    obtain ⟨m, b⟩ := p
    obtain ⟨hm, ht⟩ := List.nodup_cons.mp h
    unfold erase
    by_cases hmk : m = k
    · subst hmk
      rw [if_pos rfl]
      by_cases hl : m = l
      · subst hl
        rw [if_pos rfl, get?_eq_none hm]
      · rw [if_neg hl, get?, if_neg hl]
    · rw [if_neg hmk, get?, ih ht, get?]
      by_cases hl : m = l
      · rw [if_pos hl, if_pos hl, if_neg fun e => hmk (hl.trans e.symm)]
      · rw [if_neg hl, if_neg hl]

theorem keysNodup_set {k : κ} {a : Option α} {t : Table κ α} (h : KeysNodup t) :
    KeysNodup (set k a t) := by
  cases a with
  | none => exact keysNodup_erase h
  | some a => exact keysNodup_put h

theorem get?_set {k : κ} {a : Option α} {t : Table κ α} (h : KeysNodup t) (l : κ) :
    get? l (set k a t) = if k = l then a else get? l t := by
  cases a with
  | none => exact get?_erase h l
  | some a => exact get?_put k l a t

end Table

end DeltaView
