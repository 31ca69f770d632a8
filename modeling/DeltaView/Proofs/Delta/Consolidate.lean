import DeltaView.Proofs.Delta.Slots
import Mathlib.Data.List.Perm.Basic
import Mathlib.Data.List.Nodup
import Mathlib.Tactic.LinearCombination

/-!
# Consolidated deltas

A delta is consolidated when every item has at most one entry and no entry has multiplicity zero.
Such a delta is determined by its totals up to the order of its entries.

* `total_consolidate`, `consolidated_consolidate`: consolidation keeps all totals and yields a
  consolidated delta.
* `total_adjust`, `Consolidated.adjust`: a table kept by `adjust` stays consolidated, and one
  total changes by what is added.
* `NonNegative.mass_eq_zero_iff`: multiplicities that are not negative cancel only if all are zero.
* **`Consolidated.perm`**: two consolidated deltas with the same totals have the same entries.
-/

namespace DeltaView

namespace Delta

variable {α M : Type} [CommRing M]

/-- Every item at most once, and no multiplicity of zero. -/
structure Consolidated (d : Delta α M) : Prop where
  nodup : (d.map (·.1)).Nodup
  ne_zero : ∀ e ∈ d, e.2 ≠ 0

namespace Consolidated

theorem nil : Consolidated ([] : Delta α M) := ⟨List.nodup_nil, fun _ h => absurd h (by simp)⟩

theorem entries_nodup {d : Delta α M} (h : d.Consolidated) : d.Nodup := List.Nodup.of_map _ h.nodup

theorem tail {p : α × M} {d : Delta α M} (h : Consolidated (p :: d)) : Consolidated d :=
  ⟨(List.nodup_cons.mp h.nodup).2, fun e he => h.ne_zero e (List.mem_cons_of_mem _ he)⟩

theorem of_perm {d e : Delta α M} (h : e.Consolidated) (hp : d.Perm e) : d.Consolidated :=
  ⟨(hp.map _).nodup_iff.mpr h.nodup, fun p hm => h.ne_zero p (hp.mem_iff.mp hm)⟩

end Consolidated

variable [DecidableEq α]

/-! ## Totals of a list without repeated items -/

theorem total_of_mem {d : Delta α M} (h : (d.map (·.1)).Nodup) {a : α} {m : M}
    (hm : (a, m) ∈ d) : total a d = m := by
  induction d with
  | nil => exact absurd hm (by simp)
  | cons p d ih =>
    obtain ⟨b, k⟩ := p
    obtain ⟨hb, hd⟩ := List.nodup_cons.mp h
    rw [total]
    rcases List.mem_cons.mp hm with he | hmem
    · obtain ⟨rfl, rfl⟩ := Prod.mk.inj he
      rw [if_pos rfl, total_eq_zero_of_not_mem fun e he hea =>
        hb (List.mem_map.mpr ⟨e, he, hea⟩), add_zero]
    · have hne : b ≠ a := fun e => hb (List.mem_map.mpr ⟨(a, m), hmem, e.symm⟩)
      rw [if_neg hne, zero_add, ih hd hmem]

theorem exists_mem_of_total_ne_zero {d : Delta α M} {a : α} (h : total a d ≠ 0) :
    ∃ m, (a, m) ∈ d := by
  by_contra hn
  refine h (total_eq_zero_of_not_mem fun e he hea => hn ⟨e.2, ?_⟩)
  rw [← hea]
  exact he

namespace Consolidated

variable {d e : Delta α M}

/-- The entries of a consolidated delta are its items with their totals. -/
theorem mem_iff (h : d.Consolidated) {a : α} {m : M} :
    (a, m) ∈ d ↔ m ≠ 0 ∧ total a d = m := by
  constructor
  · intro hm
    exact ⟨h.ne_zero _ hm, total_of_mem h.nodup hm⟩
  · rintro ⟨h0, rfl⟩
    obtain ⟨m, hm⟩ := exists_mem_of_total_ne_zero h0
    rwa [total_of_mem h.nodup hm]

/-- **A consolidated delta is determined by its totals**, up to order. -/
theorem perm (h : d.Consolidated) (h' : e.Consolidated) (hs : Same d e) : d.Perm e := by
  refine (List.perm_ext_iff_of_nodup h.entries_nodup h'.entries_nodup).mpr fun p => ?_
  rw [show p = (p.1, p.2) from rfl, h.mem_iff, h'.mem_iff, hs p.1]

theorem eq_nil (h : d.Consolidated) (hz : ∀ a, total a d = 0) : d = [] :=
  List.perm_nil.mp (h.perm nil hz)

end Consolidated

theorem same_of_perm {d e : Delta α M} (h : d.Perm e) : Same d e := fun a => by
  induction h with
  | nil => rfl
  | cons p _ ih => obtain ⟨b, m⟩ := p; rw [total, total, ih]
  | swap p q d =>
    obtain ⟨b, m⟩ := p
    obtain ⟨c, n⟩ := q
    simp only [total]
    ring
  | trans _ _ ih ih' => exact ih.trans ih'

/-! ## Consolidation -/

variable [DecidableEq M]

theorem total_dropZeros (a : α) (d : Delta α M) :
    total a (d.filter fun ((_, m) : α × M) => m != 0) = total a d := by
  induction d with
  | nil => rfl
  | cons p d ih =>
    obtain ⟨b, m⟩ := p
    by_cases h : m = 0
    · rw [List.filter_cons_of_neg (by simp [h]), ih, total]
      simp [h]
    · rw [List.filter_cons_of_pos (by simp [h]), total, total, ih]

omit [CommRing M] [DecidableEq α] [DecidableEq M] in
theorem map_fst_pairs (items : List α) (f : α → M) :
    (items.map fun a => (a, f a)).map (·.1) = items := by
  simp [Function.comp_def]

theorem consolidate_sublist (d : Delta α M) :
    ((consolidate d).map (·.1)).Sublist (d.map (·.1)).eraseDups := by
  have h := (List.filter_sublist (p := fun e : α × M => e.2 != 0)
    (l := (d.map (·.1)).eraseDups.map fun a => (a, total a d))).map (·.1)
  rw [map_fst_pairs] at h
  rw [consolidate_eq]
  exact h

theorem total_consolidate (a : α) (d : Delta α M) : total a (consolidate d) = total a d := by
  rw [consolidate_eq, total_dropZeros]
  by_cases ha : a ∈ d.map (·.1)
  · refine total_of_mem ?_ (List.mem_map.mpr ⟨a, List.mem_eraseDups.mpr ha, rfl⟩)
    rw [map_fst_pairs]
    exact nodup_eraseDups _
  · rw [total_eq_zero_of_not_mem fun e he hea => ha ?_,
      total_eq_zero_of_not_mem fun e he hea => ha (List.mem_map.mpr ⟨e, he, hea⟩)]
    obtain ⟨b, hb, rfl⟩ := List.mem_map.mp he
    exact hea ▸ List.mem_eraseDups.mp hb

theorem same_consolidate (d : Delta α M) : Same (consolidate d) d := fun a => total_consolidate a d

/-- **Consolidation yields a consolidated delta.** -/
theorem consolidated_consolidate (d : Delta α M) : (consolidate d).Consolidated := by
  refine ⟨(nodup_eraseDups _).sublist (consolidate_sublist d), fun e he => ?_⟩
  rw [consolidate_eq] at he
  simpa using (List.mem_filter.mp he).2

theorem consolidate_eq_nil_iff {d : Delta α M} : consolidate d = [] ↔ ∀ a, total a d = 0 := by
  constructor
  · intro h a
    rw [← total_consolidate, h]
    rfl
  · intro h
    exact (consolidated_consolidate d).eq_nil fun a => by rw [total_consolidate, h a]

/-! ## Adjusting a table -/

theorem total_adjust (b a : α) (m : M) (d : Delta α M) :
    total b (adjust a m d) = total b d + if a = b then m else 0 := by
  induction d with
  | nil =>
    unfold adjust
    split
    · rename_i h
      simp [total, h]
    · simp [total]
  | cons p d ih =>
    obtain ⟨c, k⟩ := p
    unfold adjust
    split
    · rename_i h
      subst h
      split
      · rename_i hz
        by_cases hb : c = b
        · simp only [total, if_pos hb]
          linear_combination -hz
        · simp [total, hb]
      · by_cases hb : c = b
        · simp only [total, if_pos hb]
          ring
        · simp [total, hb]
    · simp only [total, ih]
      ring

theorem mem_keys_of_mem_adjust {b a : α} {m : M} {d : Delta α M}
    (h : b ∈ (adjust a m d).map (·.1)) : b = a ∨ b ∈ d.map (·.1) := by
  induction d with
  | nil =>
    unfold adjust at h
    split at h
    · exact absurd h (by simp)
    · exact Or.inl (by simpa using h)
  | cons p d ih =>
    obtain ⟨c, k⟩ := p
    rw [List.map_cons, List.mem_cons]
    unfold adjust at h
    split at h
    · split at h
      · exact Or.inr (Or.inr h)
      · exact Or.inr (List.mem_cons.mp h)
    · rcases List.mem_cons.mp h with e | hmem
      · exact Or.inr (Or.inl e)
      · rcases ih hmem with e | hmem
        · exact Or.inl e
        · exact Or.inr (Or.inr hmem)

/-- **A table kept by `adjust` stays consolidated.** -/
theorem Consolidated.adjust {d : Delta α M} (h : d.Consolidated) (a : α) (m : M) :
    (adjust a m d).Consolidated := by
  induction d with
  | nil =>
    unfold Delta.adjust
    split
    · exact Consolidated.nil
    · rename_i hm
      exact ⟨by simp, fun e he => by rw [List.mem_singleton.mp he]; exact hm⟩
  | cons p d ih =>
    obtain ⟨c, k⟩ := p
    obtain ⟨hc, hd⟩ := List.nodup_cons.mp h.nodup
    unfold Delta.adjust
    split
    · split
      · exact h.tail
      · rename_i hz
        refine ⟨h.nodup, fun e he => ?_⟩
        rcases List.mem_cons.mp he with rfl | he
        · exact hz
        · exact h.tail.ne_zero e he
    · rename_i hca
      have ih := ih h.tail
      refine ⟨List.nodup_cons.mpr ⟨fun hmem => ?_, ih.nodup⟩, fun e he => ?_⟩
      · rcases mem_keys_of_mem_adjust hmem with e | hmem
        · exact hca e
        · exact hc hmem
      · rcases List.mem_cons.mp he with rfl | he
        · exact h.ne_zero _ List.mem_cons_self
        · exact ih.ne_zero e he

/-- Adjusting by all entries of a delta adds its totals. -/
theorem adjust_foldl (counts d : Delta α M) (h : counts.Consolidated) :
    let out := d.foldl (fun counts (a, m) => adjust a m counts) counts
    out.Consolidated ∧ ∀ a, total a out = total a counts + total a d := by
  induction d generalizing counts with
  | nil => exact ⟨h, fun a => by simp [total]⟩
  | cons p d ih =>
    obtain ⟨b, m⟩ := p
    obtain ⟨hn, ht⟩ := ih (adjust b m counts) (h.adjust b m)
    refine ⟨hn, fun a => ?_⟩
    rw [List.foldl_cons, ht a, total_adjust, total]
    ring

/-! ## Deltas without negative multiplicities -/

/-- No item has a negative multiplicity. -/
def NonNegative (d : Delta α) : Prop := ∀ a, 0 ≤ total a d

omit [DecidableEq α] in
theorem mass_nonneg_of_forall : ∀ {d : Delta α}, (∀ e ∈ d, 0 < e.2) → 0 ≤ mass d
  | [], _ => le_refl _
  | (_, m) :: d, h => by
    have hm : 0 < m := h _ List.mem_cons_self
    have hd := mass_nonneg_of_forall fun e he => h e (List.mem_cons_of_mem _ he)
    rw [mass]
    omega

/-- Multiplicities that are not negative add up to zero only where all of them are. -/
theorem NonNegative.mass_eq_zero_iff {d : Delta α} (h : d.NonNegative) :
    mass d = 0 ↔ ∀ a, total a d = 0 := by
  have hpos : ∀ e ∈ consolidate d, 0 < e.2 := fun e he => by
    obtain ⟨h0, ht⟩ := (consolidated_consolidate d).mem_iff.mp he
    have := h e.1
    rw [total_consolidate] at ht
    omega
  rw [← consolidate_eq_nil_iff, ← (same_consolidate d).mass]
  constructor
  · intro hm
    cases hc : consolidate d with
    | nil => rfl
    | cons e rest =>
      rw [hc] at hm hpos
      have h1 := hpos e List.mem_cons_self
      have h2 := mass_nonneg_of_forall fun p hp => hpos p (List.mem_cons_of_mem _ hp)
      rw [mass] at hm
      omega
  · intro hc
    rw [hc]
    rfl

theorem NonNegative.filterItems {d : Delta α} (h : d.NonNegative) (p : α → Bool) :
    (Delta.filterItems p d).NonNegative := fun a => by
  rw [total_filterItems]
  split
  · exact h a
  · exact le_refl 0

end Delta

end DeltaView
