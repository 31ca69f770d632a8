import DeltaView.Proofs.Delta.Consolidate
import Mathlib.Order.Defs.LinearOrder

/-!
# Canonical forms

A delta has many lists of entries. Sorted by a total order of the items and consolidated, it has
one: `canonical cmp d` depends on the totals of `d` alone, so what is computed from it is a
function of the multiset and not of the way the multiset is listed.

* **`canonical_eq`**: deltas with the same totals have one canonical form.
* `present` lists the items with a positive multiplicity.
-/

namespace DeltaView

variable {α : Type}

/-- Is the order of two items the one in which they stand? -/
def inOrder (cmp : α → α → Ordering) (a b : α) : Bool := (cmp a b).isLE

theorem inOrder_total (cmp : α → α → Ordering) [Std.TransCmp cmp] (a b : α) :
    inOrder cmp a b || inOrder cmp b a := by
  have hswap : cmp b a = (cmp a b).swap := Std.OrientedCmp.eq_swap
  rw [inOrder, inOrder, hswap]
  cases cmp a b <;> rfl

theorem pairwise_sorted {cmp : α → α → Ordering} [Std.TransCmp cmp] (items : List α) :
    (items.mergeSort (inOrder cmp)).Pairwise fun a b => inOrder cmp a b := by
  refine List.pairwise_mergeSort (fun a b c hab hbc => ?_) (inOrder_total cmp) items
  exact Std.TransCmp.isLE_trans hab hbc

namespace Delta

variable {M : Type} [DecidableEq α] [CommRing M] [DecidableEq M]

/-- The one list of entries that stands for a multiset. -/
def canonical (cmp : α → α → Ordering) (d : Delta α M) : Delta α M :=
  (consolidate d).mergeSort fun a b => inOrder cmp a.1 b.1

theorem canonical_perm (cmp : α → α → Ordering) (d : Delta α M) :
    (canonical cmp d).Perm (consolidate d) := List.mergeSort_perm ..

theorem same_canonical (cmp : α → α → Ordering) (d : Delta α M) : Same (canonical cmp d) d :=
  (same_of_perm (canonical_perm cmp d)).trans (same_consolidate d)

theorem consolidated_canonical (cmp : α → α → Ordering) (d : Delta α M) :
    (canonical cmp d).Consolidated :=
  (consolidated_consolidate d).of_perm (canonical_perm cmp d)

/-- **Deltas with the same totals have one canonical form.** -/
theorem canonical_eq {cmp : α → α → Ordering} [Std.TransCmp cmp] [Std.LawfulEqCmp cmp]
    {d e : Delta α M} (h : Same d e) : canonical cmp d = canonical cmp e := by
  have hp : (canonical cmp d).Perm (canonical cmp e) :=
    (consolidated_canonical cmp d).perm (consolidated_canonical cmp e)
      ((same_canonical cmp d).trans (h.trans (same_canonical cmp e).symm))
  have trans : ∀ p q r : α × M, inOrder cmp p.1 q.1 → inOrder cmp q.1 r.1 → inOrder cmp p.1 r.1 :=
    fun _ _ _ => Std.TransCmp.isLE_trans
  have total : ∀ p q : α × M, inOrder cmp p.1 q.1 || inOrder cmp q.1 p.1 := fun p q =>
    inOrder_total cmp p.1 q.1
  refine @List.Perm.eq_of_pairwise _ (fun p q : α × M => inOrder cmp p.1 q.1 = true) _ _ ?_
    (List.pairwise_mergeSort trans total _) (List.pairwise_mergeSort trans total _) hp
  rintro ⟨a, m⟩ ⟨b, n⟩ hm hn hab hba
  have heven : cmp a b = .eq := Std.OrientedCmp.isLE_antisymm hab hba
  obtain rfl := Std.LawfulEqCmp.eq_of_compare heven
  obtain ⟨-, rfl⟩ := (consolidated_canonical cmp d).mem_iff.mp hm
  obtain ⟨-, rfl⟩ := (consolidated_canonical cmp e).mem_iff.mp hn
  rw [same_canonical, same_canonical, h]

/-! ## Items that are there -/

section Present

variable [LinearOrder M]

/-- The items whose multiplicity is positive, each once. -/
def present (cmp : α → α → Ordering) (d : Delta α M) : List α :=
  ((canonical cmp d).filter fun p => decide (0 < p.2)).map (·.1)

theorem mem_present {cmp : α → α → Ordering} {d : Delta α M} {a : α} :
    a ∈ present cmp d ↔ 0 < total a d := by
  unfold present
  rw [List.mem_map]
  constructor
  · rintro ⟨⟨b, m⟩, hm, rfl⟩
    obtain ⟨hm, hpos⟩ := List.mem_filter.mp hm
    obtain ⟨-, ht⟩ := (consolidated_canonical cmp d).mem_iff.mp hm
    rw [← same_canonical cmp d, ht]
    exact of_decide_eq_true hpos
  · intro hpos
    refine ⟨(a, total a d), List.mem_filter.mpr ⟨?_, decide_eq_true hpos⟩, rfl⟩
    exact (consolidated_canonical cmp d).mem_iff.mpr ⟨ne_of_gt hpos, same_canonical cmp d a⟩

theorem nodup_present (cmp : α → α → Ordering) (d : Delta α M) : (present cmp d).Nodup :=
  (consolidated_canonical cmp d).nodup.sublist (List.filter_sublist.map _)

theorem present_eq {cmp : α → α → Ordering} [Std.TransCmp cmp] [Std.LawfulEqCmp cmp]
    {d e : Delta α M} (h : Same d e) : present cmp d = present cmp e := by
  rw [present, present, canonical_eq h]

end Present

omit [DecidableEq M] in
/-- A list without repetitions, as a multiset. -/
theorem total_once {items : List α} (h : items.Nodup) (a : α) :
    total a (items.map (·, (1 : M))) = if a ∈ items then 1 else 0 := by
  induction items with
  | nil => rfl
  | cons b items ih =>
    obtain ⟨hb, hn⟩ := List.nodup_cons.mp h
    rw [List.map_cons, total, ih hn]
    by_cases hba : b = a
    · subst hba
      simp [hb]
    · simp [hba, Ne.symm hba]

end Delta

end DeltaView
