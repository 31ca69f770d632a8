import DeltaView.Grouping
import DeltaView.Proofs.Delta.Consolidate

/-!
# The members of groups

A grouping is a delta of keyed items, cut by key. `Represents g e` says that the group of every
key holds the items that `e` has under that key.

* `members_adjust`: an adjustment changes one group and leaves the others alone.
* **`Represents.adjust`**: it adds one keyed entry to what the grouping represents.
* `Represents.weigh_keyed`, `Represents.weigh_members`: sums over all groups, or over one, are
  sums over the delta that they represent.
-/

namespace DeltaView

namespace Grouping

variable {κ α M : Type} [DecidableEq κ] [DecidableEq α] [CommRing M]

/-- All entries, each under the key of its group. -/
def keyed (g : Grouping κ α M) : Delta (κ × α) M :=
  g.flatMap fun (k, d) => Delta.mapItems (k, ·) d

omit [DecidableEq α] [CommRing M] in
theorem members_eq_nil {k : κ} {g : Grouping κ α M} (h : k ∉ g.map (·.1)) : members k g = [] := by
  induction g with
  | nil => rfl
  | cons p g ih =>
    obtain ⟨l, d⟩ := p
    rw [List.map_cons, List.mem_cons, not_or] at h
    rw [members, if_neg fun e => h.1 e.symm, ih h.2]

/-! ## Adjusting -/

section Adjusting

variable [DecidableEq M]

theorem mem_keys_adjust {k l : κ} {a : α} {m : M} {g : Grouping κ α M}
    (h : l ∈ (adjust k a m g).map (·.1)) : l = k ∨ l ∈ g.map (·.1) := by
  induction g with
  | nil =>
    unfold adjust at h
    split at h
    · exact absurd h (by simp)
    · exact Or.inl (by simpa using h)
  | cons p g ih =>
    obtain ⟨j, d⟩ := p
    rw [List.map_cons, List.mem_cons]
    unfold adjust at h
    split at h
    · split at h
      · exact Or.inr (Or.inr h)
      · exact Or.inr (List.mem_cons.mp h)
    · rcases List.mem_cons.mp h with e | hmem
      · exact Or.inr (Or.inl e)
      · rcases ih hmem with e | hmem
        · exact Or.inl e
        · exact Or.inr (Or.inr hmem)

theorem nodup_adjust {k : κ} {a : α} {m : M} {g : Grouping κ α M} (h : (g.map (·.1)).Nodup) :
    ((adjust k a m g).map (·.1)).Nodup := by
  induction g with
  | nil =>
    unfold adjust
    split <;> simp
  | cons p g ih =>
    obtain ⟨l, d⟩ := p
    obtain ⟨hl, hg⟩ := List.nodup_cons.mp h
    unfold adjust
    split
    · split
      · exact hg
      · exact h
    · rename_i hlk
      refine List.nodup_cons.mpr ⟨fun hmem => ?_, ih hg⟩
      rcases mem_keys_adjust hmem with e | hmem
      · exact hlk e
      · exact hl hmem

/-- An adjustment changes one group and leaves the others alone. -/
theorem members_adjust {k : κ} {a : α} {m : M} {g : Grouping κ α M} (h : (g.map (·.1)).Nodup)
    (l : κ) :
    members l (adjust k a m g) = if k = l then Delta.adjust a m (members k g) else members l g := by
  induction g with
  | nil =>
    unfold adjust
    by_cases hm : m = 0 <;> by_cases hk : k = l <;> simp [hm, hk, members, Delta.adjust]
  | cons p g ih =>
    obtain ⟨j, d⟩ := p
    obtain ⟨hj, hg⟩ := List.nodup_cons.mp h
    unfold adjust
    by_cases hjk : j = k
    · subst hjk
      rw [if_pos rfl]
      cases hd : Delta.adjust a m d with
      | nil =>
        by_cases hl : j = l
        · rw [if_pos hl, members, if_pos rfl, hd, ← hl, members_eq_nil hj]
        · rw [if_neg hl, members, if_neg hl]
      | cons q e =>
        by_cases hl : j = l
        · rw [if_pos hl, members, if_pos hl, members, if_pos rfl, hd]
        · rw [if_neg hl, members, if_neg hl, members, if_neg hl]
    · rw [if_neg hjk, members, ih hg]
      by_cases hjl : j = l
      · rw [if_pos hjl, if_neg fun e => hjk (hjl.trans e.symm), members, if_pos hjl]
      · rw [if_neg hjl, members, if_neg hjk, members, if_neg hjl]

end Adjusting

/-! ## What a grouping represents -/

/-- No key occurs twice, all groups are consolidated, and the group of a key holds what a delta
has under that key. -/
structure Represents (g : Grouping κ α M) (e : Delta (κ × α) M) : Prop where
  nodup : (g.map (·.1)).Nodup
  consolidated : ∀ k, (members k g).Consolidated
  total : ∀ k a, Delta.total a (members k g) = Delta.total (k, a) e

namespace Represents

variable {g : Grouping κ α M} {d e : Delta (κ × α) M}

theorem empty : Represents ([] : Grouping κ α M) [] :=
  ⟨List.nodup_nil, fun _ => Delta.Consolidated.nil, fun _ _ => rfl⟩

theorem congr (h : Represents g d) (hs : Delta.Same d e) : Represents g e :=
  ⟨h.nodup, h.consolidated, fun k a => (h.total k a).trans (hs (k, a))⟩

/-- **An adjustment adds one keyed entry.** -/
theorem adjust [DecidableEq M] (h : Represents g e) (k : κ) (a : α) (m : M) :
    Represents (adjust k a m g) (e ++ [((k, a), m)]) := by
  refine ⟨nodup_adjust h.nodup, fun l => ?_, fun l b => ?_⟩
  · rw [members_adjust h.nodup]
    by_cases hk : k = l
    · rw [if_pos hk]
      exact (h.consolidated k).adjust a m
    · rw [if_neg hk]
      exact h.consolidated l
  · rw [members_adjust h.nodup, Delta.total_append]
    by_cases hk : k = l
    · subst hk
      rw [if_pos rfl, Delta.total_adjust, h.total]
      simp [Delta.total]
    · rw [if_neg hk, h.total]
      simp [Delta.total, hk]

theorem members_same (h : Represents g e) (k : κ) :
    Delta.Same (members k g)
      (Delta.mapItems (·.2) (Delta.filterItems (fun p => p.1 = k) e)) := fun a => by
  rw [h.total, Delta.total_eq_weigh, Delta.total_mapItems, Delta.weigh_filterItems]
  refine Delta.weigh_congr fun p _ => ?_
  obtain ⟨⟨l, b⟩, m⟩ := p
  by_cases hl : l = k <;> by_cases hb : b = a <;> simp [hl, hb]

/-- A sum over one group. -/
theorem weigh_members (h : Represents g e) (k : κ) (f : α → M) :
    Delta.weigh f (members k g) = Delta.weigh (fun p => if p.1 = k then f p.2 else 0) e := by
  rw [(h.members_same k).weigh, Delta.weigh_mapItems, Delta.weigh_filterItems]
  simp

/-- The entries of all groups together are the delta that is represented. -/
theorem keyed_same (h : Represents g e) : Delta.Same (keyed g) e := by
  rintro ⟨k, a⟩
  rw [← h.total k a]
  have hn := h.nodup
  clear h
  induction g with
  | nil => rfl
  | cons p g ih =>
    obtain ⟨l, d⟩ := p
    obtain ⟨hl, hg⟩ := List.nodup_cons.mp hn
    have hsplit : keyed ((l, d) :: g) = Delta.mapItems (l, ·) d ++ keyed g := rfl
    rw [hsplit, Delta.total_append, ih hg, Delta.total_mapItems, members]
    by_cases hk : l = k
    · subst hk
      simp [members_eq_nil hl, Delta.total_eq_weigh]
    · rw [if_neg hk, Delta.weigh_congr (g := fun _ => 0) fun q _ => if_neg fun e =>
        hk (Prod.mk.inj e).1, Delta.weigh_zero, zero_add]

/-- A sum over all groups. -/
theorem weigh_keyed (h : Represents g e) (f : κ × α → M) :
    Delta.weigh f (keyed g) = Delta.weigh f e := h.keyed_same.weigh f

end Represents

end Grouping

end DeltaView
