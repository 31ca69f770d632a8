import DeltaView.Proofs.Delta.Canonical
import DeltaView.Proofs.Value.TotalOrder
import DeltaView.Window.Operator

/-!
# The order of a ranking

A ranking sorts rows by a comparison of their values, then by key and value. The comparison only
has to be a total preorder on the values that occur: `PreorderOn compare S` says so for a set `S`.

* `Rankable S`: rows without an order key whose values are in the set. Among them `compareRows` is
  a total order (`compareRows_transCmp`, `compareRows_eq_iff`).
* `Ranking.rankedRows`: the rows that are there, in order; what a ranking has to show.
* **`eq_rankedRows`**: a strictly sorted list of just these rows is that one.
-/

namespace DeltaView

/-- A comparison that is a total preorder on the values of a set. -/
structure PreorderOn (compare : Value → Value → Ordering) (S : Value → Prop) : Prop where
  swap : ∀ {a b}, S a → S b → compare b a = (compare a b).swap
  trans : ∀ {a b c}, S a → S b → S c →
    (compare a b).isLE → (compare b c).isLE → (compare a c).isLE

/-- A total preorder of all values is one on every set. -/
theorem PreorderOn.of_transCmp (compare : Value → Value → Ordering) [Std.TransCmp compare]
    (S : Value → Prop) : PreorderOn compare S where
  swap _ _ := Std.OrientedCmp.eq_swap
  trans _ _ _ := Std.TransCmp.isLE_trans

theorem PreorderOn.mono {compare : Value → Value → Ordering} {S T : Value → Prop}
    (h : PreorderOn compare T) (hst : ∀ v, S v → T v) : PreorderOn compare S where
  swap ha hb := h.swap (hst _ ha) (hst _ hb)
  trans ha hb hc := h.trans (hst _ ha) (hst _ hb) (hst _ hc)

/-- On the values of a list it can be checked. -/
instance PreorderOn.decidableMem (compare : Value → Value → Ordering) (values : List Value) :
    Decidable (PreorderOn compare (· ∈ values)) :=
  decidable_of_iff ((∀ a ∈ values, ∀ b ∈ values, compare b a = (compare a b).swap) ∧
      ∀ a ∈ values, ∀ b ∈ values, ∀ c ∈ values,
        (compare a b).isLE → (compare b c).isLE → (compare a c).isLE)
    ⟨fun h => ⟨fun ha hb => h.1 _ ha _ hb, fun ha hb hc => h.2 _ ha _ hb _ hc⟩,
      fun h => ⟨fun _ ha _ hb => h.swap ha hb, fun _ ha _ hb _ hc => h.trans ha hb hc⟩⟩

namespace Ranking

variable {compare : Value → Value → Ordering} {S : Value → Prop}

/-- A row without an order key whose value is in a set. -/
def Rankable (S : Value → Prop) (r : Row) : Prop := r.order = none ∧ S r.value

/-- Among rankable rows, the order of rows is one. -/
theorem compareRows_transCmp (h : PreorderOn compare S) :
    Std.TransCmp fun a b : Subtype (Rankable S) => compareRows compare a.1 b.1 :=
  haveI : Std.TransCmp fun a b : Subtype S => compare a.1 b.1 :=
    { eq_swap := fun {a b} => h.swap b.2 a.2
      isLE_trans := fun {a b c} => h.trans a.2 b.2 c.2 }
  haveI := transCmp_then (c := RowKey.cmp) (d := Value.cmp) Row.key Row.value
  transCmp_then (α := Subtype (Rankable S)) (c := fun a b : Subtype S => compare a.1 b.1)
    (d := fun a b : Row => (RowKey.cmp a.key b.key).then (Value.cmp a.value b.value))
    (fun r => ⟨r.1.value, r.2.2⟩) (fun r => r.1)

theorem compareRows_eq_iff (h : PreorderOn compare S) {a b : Row} (ha : Rankable S a)
    (hb : Rankable S b) : compareRows compare a b = .eq ↔ a = b := by
  have hself : compare b.value b.value = .eq := by
    have := h.swap hb.2 hb.2
    cases hc : compare b.value b.value <;> simp [hc] at this ⊢
  unfold compareRows
  rw [Ordering.then_eq_eq, Ordering.then_eq_eq, RowKey.cmp_eq_iff, Value.cmp_eq_iff]
  constructor
  · rintro ⟨-, hk, hv⟩
    obtain ⟨k, v, o⟩ := a
    obtain ⟨k', v', o'⟩ := b
    obtain rfl : o = none := ha.1
    obtain rfl : o' = none := hb.1
    obtain rfl : k = k' := hk
    obtain rfl : v = v' := hv
    rfl
  · rintro rfl
    exact ⟨hself, rfl, rfl⟩

theorem compareRows_swap (h : PreorderOn compare S) {a b : Row} (ha : Rankable S a)
    (hb : Rankable S b) : compareRows compare b a = (compareRows compare a b).swap :=
  have := compareRows_transCmp h
  @Std.OrientedCmp.eq_swap (Subtype (Rankable S)) (fun a b => compareRows compare a.1 b.1) _
    ⟨b, hb⟩ ⟨a, ha⟩

theorem compareRows_lt_trans (h : PreorderOn compare S) {a b c : Row} (ha : Rankable S a)
    (hb : Rankable S b) (hc : Rankable S c) (hab : compareRows compare a b = .lt)
    (hbc : compareRows compare b c = .lt) : compareRows compare a c = .lt :=
  have := compareRows_transCmp h
  @Std.TransCmp.lt_trans (Subtype (Rankable S)) (fun a b => compareRows compare a.1 b.1) _
    ⟨a, ha⟩ ⟨b, hb⟩ ⟨c, hc⟩ hab hbc

/-! ## The rows in order -/

/-- Sorting rankable rows sorts them, whatever the comparison does to other rows. -/
theorem pairwise_mergeSort_rankable (h : PreorderOn compare S) {rows : List Row}
    (hr : ∀ r ∈ rows, Rankable S r) :
    (rows.mergeSort (inOrder (compareRows compare))).Pairwise fun a b =>
      inOrder (compareRows compare) a b := by
  have := compareRows_transCmp h
  have hmap := List.map_mergeSort (f := Subtype.val) (l := rows.attachWith (Rankable S) hr)
    (r := inOrder fun a b => compareRows compare a.1 b.1) (s := inOrder (compareRows compare))
    fun _ _ _ _ => rfl
  rw [List.attachWith_map_subtype_val] at hmap
  rw [← hmap, List.pairwise_map]
  exact pairwise_sorted _

variable {M : Type} [CommRing M] [DecidableEq M] [LinearOrder M]

/-- The rows with a positive multiplicity, in order. -/
def rankedRows (compare : Value → Value → Ordering) (d : Delta Row M) : List Row :=
  (Delta.present Row.cmp d).mergeSort (inOrder (compareRows compare))

theorem mem_rankedRows {d : Delta Row M} {r : Row} :
    r ∈ rankedRows compare d ↔ 0 < Delta.total r d := by
  rw [rankedRows, List.mem_mergeSort, Delta.mem_present]

theorem nodup_rankedRows (compare : Value → Value → Ordering) (d : Delta Row M) :
    (rankedRows compare d).Nodup :=
  (List.mergeSort_perm _ _).nodup_iff.mpr (Delta.nodup_present _ _)

theorem rankedRows_congr {d e : Delta Row M} (h : Delta.Same d e) :
    rankedRows compare d = rankedRows compare e := by rw [rankedRows, rankedRows, Delta.present_eq h]

/-- **A strictly sorted list of the rows that are there is the ranking's.** -/
theorem eq_rankedRows (h : PreorderOn compare S) {rows : List Row} {d : Delta Row M}
    (hr : ∀ r ∈ rows, Rankable S r)
    (hs : rows.Pairwise fun a b => compareRows compare a b = .lt)
    (hm : ∀ r, r ∈ rows ↔ 0 < Delta.total r d) : rows = rankedRows compare d := by
  have hpresent : ∀ r ∈ Delta.present Row.cmp d, Rankable S r := fun r hmem =>
    hr r ((hm r).mpr (Delta.mem_present.mp hmem))
  have hnodup : rows.Nodup := hs.imp_of_mem fun {a b} ha hb hab e => by
    rw [(compareRows_eq_iff h (hr a ha) (hr b hb)).mpr e] at hab
    exact absurd hab (by decide)
  have hperm : rows.Perm (rankedRows compare d) :=
    ((List.perm_ext_iff_of_nodup hnodup (Delta.nodup_present _ _)).mpr fun r => by
      rw [hm, Delta.mem_present]).trans (List.mergeSort_perm ..).symm
  refine @List.Perm.eq_of_pairwise _ (fun a b => inOrder (compareRows compare) a b = true) _ _
    ?_ ?_ (pairwise_mergeSort_rankable h hpresent) hperm
  · intro a b ha hb hab hba
    have hb := hr b (hperm.mem_iff.mpr hb)
    refine (compareRows_eq_iff h (hr a ha) hb).mp ?_
    rw [inOrder, compareRows_swap h (hr a ha) hb] at hba
    rw [inOrder] at hab
    cases hc : compareRows compare a b <;> simp [hc] at hab hba ⊢
  · exact hs.imp fun hab => by rw [inOrder, hab]; rfl

end Ranking

end DeltaView
