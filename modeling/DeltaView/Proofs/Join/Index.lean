import DeltaView.Join.Operator
import DeltaView.Proofs.Grouping

/-!
# What a join index holds

A join index lists the rows of a delta by key and keeps the mass of every key. `Holds i e` says
that it does so for the keyed rows `e`, whatever the order in which they came.

* **`Holds.addAll`**, `Holds.append`: rows that are added, one by one or as another index, are
  held together with those that were there.
* `Holds.mass`: the mass of a key is the sum of the multiplicities under it.
* **`weigh_joined_pairs`**: the pairs of two indexes are the product of the deltas that they
  hold, whichever of them is gone through.
-/

namespace DeltaView

variable {M : Type}

/-- The rows of a delta with their keys. -/
def keyedRows (key : Row → JoinKey) (d : Delta Row M) : Delta (JoinKey × Row) M :=
  Delta.mapItems (fun r => (key r, r)) d

@[simp] theorem keyedRows_append (key : Row → JoinKey) (d e : Delta Row M) :
    keyedRows key (d ++ e) = keyedRows key d ++ keyedRows key e := Delta.mapItems_append _ d e

variable [CommRing M]

theorem weigh_keyedRows (f : JoinKey × Row → M) (key : Row → JoinKey) (d : Delta Row M) :
    Delta.weigh f (keyedRows key d) = Delta.weigh (fun r => f (key r, r)) d :=
  Delta.weigh_mapItems f _ d

namespace JoinIndex

/-- Rows by key, and the mass of every key, as they are in a delta of keyed rows. -/
structure Holds (i : JoinIndex M) (e : Delta (JoinKey × Row) M) : Prop where
  groups : i.groups.Represents e
  masses : i.masses.Consolidated
  mass : ∀ k, i.mass k = Delta.weigh (fun p => if p.1 = k then 1 else 0) e

namespace Holds

variable {i j : JoinIndex M} {d e : Delta (JoinKey × Row) M}

theorem empty : Holds (M := M) empty [] :=
  ⟨Grouping.Represents.empty, Delta.Consolidated.nil, fun _ => rfl⟩

theorem congr (h : Holds i d) (hs : Delta.Same d e) : Holds i e :=
  ⟨h.groups.congr hs, h.masses, fun k => (h.mass k).trans (hs.weigh _)⟩

omit [CommRing M] in
theorem entries_eq_keyed (i : JoinIndex M) :
    (i.entries.map fun (k, r, m) => ((k, r), m)) = Grouping.keyed i.groups := by
  unfold entries Grouping.keyed Delta.mapItems
  rw [List.map_flatMap]
  refine List.flatMap_congr fun p _ => ?_
  rw [List.map_map]
  rfl

section Adding

variable [DecidableEq M]

theorem add (h : Holds i e) (k : JoinKey) (r : Row) (m : M) :
    Holds (i.add k r m) (e ++ [((k, r), m)]) := by
  refine ⟨h.groups.adjust k r m, h.masses.adjust k m, fun l => ?_⟩
  have hm : i.mass l = Delta.total l i.masses := rfl
  show Delta.total l (Delta.adjust k m i.masses) = _
  rw [Delta.total_adjust, Delta.weigh_append, ← h.mass l, hm]
  simp

theorem foldl_add (h : Holds i e) (rows : List (JoinKey × Row × M)) :
    Holds (rows.foldl (fun i (k, r, m) => i.add k r m) i)
      (e ++ rows.map fun (k, r, m) => ((k, r), m)) := by
  induction rows generalizing i e with
  | nil => simpa using h
  | cons p rows ih =>
    obtain ⟨k, r, m⟩ := p
    have := ih (h.add k r m)
    rwa [List.append_assoc] at this

/-- **Rows that are added one by one are held together with those that were there.** -/
theorem addAll (h : Holds i e) (key : Row → JoinKey) (d : Delta Row M) :
    Holds (i.addAll key d) (e ++ keyedRows key d) := by
  have := h.foldl_add (d.map fun p => (key p.1, p.1, p.2))
  rwa [List.foldl_map, List.map_map] at this

theorem ofDelta (key : Row → JoinKey) (d : Delta Row M) :
    Holds (JoinIndex.ofDelta key d) (keyedRows key d) := Holds.empty.addAll key d

/-- The rows of an index that is added are held together with those that were there. -/
theorem append (h : Holds i d) (h' : Holds j e) : Holds (i.append j) (d ++ e) := by
  refine (h.foldl_add j.entries).congr ?_
  rw [entries_eq_keyed]
  exact (Delta.Same.refl d).append h'.groups.keyed_same

end Adding

/-- A sum over all rows of an index. -/
theorem weigh_entries (h : Holds i e) (f : JoinKey × Row → M) :
    Delta.weigh f (i.entries.map fun (k, r, m) => ((k, r), m)) = Delta.weigh f e := by
  rw [entries_eq_keyed, h.groups.weigh_keyed]

theorem weigh_rows (h : Holds i e) (k : JoinKey) (f : Row → M) :
    Delta.weigh f (i.rows k) = Delta.weigh (fun p => if p.1 = k then f p.2 else 0) e :=
  h.groups.weigh_members k f

theorem keys_nodup (h : Holds i e) : i.keys.Nodup := h.groups.nodup

/-- Under a key without a group there is no mass. -/
theorem mass_eq_zero (h : Holds i e) {k : JoinKey} (hk : k ∉ i.keys) : i.mass k = 0 := by
  rw [h.mass k, ← h.weigh_rows k fun _ => 1, rows, Grouping.members_eq_nil hk, Delta.weigh_nil]

end Holds

/-! ## Pairs -/

/-- The sum over the pairs of two groups. -/
theorem weigh_groupPairs (f : Row → M) (left right : Delta Row M) :
    Delta.weigh f (JoinState.joined (groupPairs left right)) =
      Delta.weigh (fun l => Delta.weigh (fun r => f (Row.merge (some l) (some r))) right) left := by
  unfold JoinState.joined groupPairs
  rw [List.map_flatMap]
  refine Delta.weigh_flatMap f _ _ (fun p => ?_) left
  obtain ⟨l, m⟩ := p
  rw [List.map_map]
  exact Delta.weigh_scaled f (fun r => Row.merge (some l) (some r)) m right

omit [CommRing M] in
theorem joined_append (a b : List (Row × Row × M)) :
    JoinState.joined (a ++ b) = JoinState.joined a ++ JoinState.joined b := List.map_append

/-- The sum over the pairs that the groups of one side give, from the sums for single groups. -/
theorem weigh_joined_flatMap {i : JoinIndex M} {e : Delta (JoinKey × Row) M} (h : Holds i e)
    (f : Row → M) (part : JoinKey × Delta Row M → List (Row × Row × M))
    (g : JoinKey → Row → M)
    (hg : ∀ p, Delta.weigh f (JoinState.joined (part p)) = Delta.weigh (g p.1) p.2) :
    Delta.weigh f (JoinState.joined (i.groups.flatMap part)) =
      Delta.weigh (fun p => g p.1 p.2) e := by
  rw [← h.groups.weigh_keyed]
  unfold Grouping.keyed
  generalize i.groups = groups
  induction groups with
  | nil => rfl
  | cons p groups ih =>
    obtain ⟨k, d⟩ := p
    rw [List.flatMap_cons, List.flatMap_cons, joined_append, Delta.weigh_append, hg, ih,
      Delta.weigh_append, Delta.weigh_mapItems]

/-- **The pairs of two indexes are the product of what they hold**, over equal keys that are not
absent. -/
theorem weigh_joined_pairs {i j : JoinIndex M} {d e : Delta (JoinKey × Row) M} (hi : Holds i d)
    (hj : Holds j e) (f : Row → M) :
    Delta.weigh f (JoinState.joined (i.pairs j)) =
      Delta.weigh (fun p => Delta.weigh (fun q =>
        if p.1.isSome ∧ q.1 = p.1 then f (Row.merge (some p.2) (some q.2)) else 0) e) d := by
  unfold pairs
  split
  · rw [weigh_joined_flatMap hi f _ fun k l => if k.isSome then
      Delta.weigh (fun q => if q.1 = k then f (Row.merge (some l) (some q.2)) else 0) e else 0]
    · refine Delta.weigh_congr fun p _ => ?_
      by_cases hp : p.1.1.isSome <;> simp [hp]
    · rintro ⟨k, d⟩
      by_cases hk : k.isSome
      · simp only [if_pos hk, weigh_groupPairs]
        exact Delta.weigh_congr fun l _ => hj.weigh_rows k _
      · simp [if_neg hk, JoinState.joined]
  · rw [weigh_joined_flatMap hj f _ fun k r => if k.isSome then
      Delta.weigh (fun p => if p.1 = k then f (Row.merge (some p.2) (some r)) else 0) d else 0]
    · rw [Delta.weigh_comm]
      refine Delta.weigh_congr fun q _ => ?_
      by_cases hq : q.1.1.isSome
      · rw [if_pos hq]
        refine Delta.weigh_congr fun p _ => ?_
        by_cases hpq : p.1.1 = q.1.1
        · simp [hpq, hq]
        · rw [if_neg hpq, if_neg fun h => hpq h.2.symm]
      · rw [if_neg hq]
        refine ((Delta.weigh_congr fun p _ => if_neg fun h => hq ?_).trans
          (Delta.weigh_zero d)).symm
        rw [h.2]
        exact h.1
    · rintro ⟨k, e⟩
      by_cases hk : k.isSome
      · simp only [if_pos hk, weigh_groupPairs]
        rw [Delta.weigh_comm]
        exact Delta.weigh_congr fun r _ => hi.weigh_rows k _
      · simp [if_neg hk, JoinState.joined]

end JoinIndex

end DeltaView
