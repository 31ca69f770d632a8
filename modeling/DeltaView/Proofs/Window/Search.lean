import DeltaView.Proofs.Window.Order

/-!
# Search in a ranking

A row is looked up by halving. In a strictly ordered list the search finds the row where it is, or
the one place between the rows before it and the rows after it.

* `narrow_spec`: halving ends at the last element that is not above what is sought.
* **`search_spec`**: what the two outcomes of a search say about the list.
-/

namespace DeltaView

namespace Ranking

/-! ## Halving -/

/-- Is the element at a position above what is sought? -/
def aboveAt (isAbove : Ranked → Bool) (elements : List Ranked) (i : Nat) : Bool :=
  (elements[i]?).any isAbove

/-- **Halving ends at the last element that is not above what is sought**, or at the first one. -/
theorem narrow_spec {isAbove : Ranked → Bool} {elements : List Ranked}
    (hmono : ∀ i j, i ≤ j → j < elements.length → aboveAt isAbove elements i →
      aboveAt isAbove elements j) :
    ∀ {size base : Nat}, 0 < size → base + size ≤ elements.length →
      (base = 0 ∨ aboveAt isAbove elements base = false) →
      (∀ j, base + size ≤ j → j < elements.length → aboveAt isAbove elements j) →
      narrow isAbove elements base size < elements.length ∧
        (narrow isAbove elements base size = 0 ∨
          aboveAt isAbove elements (narrow isAbove elements base size) = false) ∧
        ∀ j, narrow isAbove elements base size < j → j < elements.length →
          aboveAt isAbove elements j := by
  intro size
  induction size using Nat.strong_induction_on with
  | _ size ih =>
    intro base hpos hlen hlow hhigh
    rw [narrow]
    split
    · rename_i h1
      have hhalf : 0 < size / 2 := Nat.div_pos h1 (by decide)
      have hle : size / 2 ≤ size - size / 2 := by omega
      dsimp only
      split
      · -- The middle is above: what is sought is not behind it.
        rename_i hmid
        refine ih _ (by omega) (by omega) (by omega) hlow fun j hj hjl => ?_
        exact hmono (base + size / 2) j (by omega) hjl hmid
      · rename_i hmid
        refine ih _ (by omega) (by omega) (by omega) (Or.inr ?_) fun j hj hjl => ?_
        · exact Bool.eq_false_iff.mpr hmid
        · exact hhigh j (by omega) hjl
    · exact ⟨by omega, hlow, fun j hj hjl => hhigh j (by omega) hjl⟩

/-! ## Searching -/

variable {compare : Value → Value → Ordering} {S : Value → Prop}

/-- A strictly ordered list of rankable rows. -/
structure Ordered (compare : Value → Value → Ordering) (S : Value → Prop)
    (elements : List Ranked) : Prop where
  rankable : ∀ e ∈ elements, Rankable S e.row
  sorted : elements.Pairwise fun a b => compareRows compare a.row b.row = .lt

namespace Ordered

variable {elements : List Ranked}

theorem nil : Ordered compare S [] := ⟨by simp, List.Pairwise.nil⟩

theorem sublist {elements' : List Ranked} (h : Ordered compare S elements)
    (hs : elements'.Sublist elements) : Ordered compare S elements' :=
  ⟨fun e he => h.rankable e (hs.subset he), h.sorted.sublist hs⟩

theorem lt_of_lt (h : Ordered compare S elements) {i j : Nat} {a b : Ranked} (hij : i < j)
    (hi : elements[i]? = some a) (hj : elements[j]? = some b) :
    compareRows compare a.row b.row = .lt := by
  obtain ⟨hil, rfl⟩ := List.getElem?_eq_some_iff.mp hi
  obtain ⟨hjl, rfl⟩ := List.getElem?_eq_some_iff.mp hj
  exact List.pairwise_iff_getElem.mp h.sorted i j hil hjl hij

/-- Behind an element that is above a row, all are. -/
theorem above_mono (hc : PreorderOn compare S) (h : Ordered compare S elements) {row : Row}
    (hrow : Rankable S row) (i j : Nat) (hij : i ≤ j) (hj : j < elements.length)
    (hi : aboveAt (fun e => compareRows compare e.row row == .gt) elements i) :
    aboveAt (fun e => compareRows compare e.row row == .gt) elements j := by
  rcases Nat.lt_or_eq_of_le hij with hlt | rfl
  · have hil : i < elements.length := by omega
    unfold aboveAt at hi ⊢
    rw [List.getElem?_eq_getElem hil, Option.any_some, beq_iff_eq] at hi
    rw [List.getElem?_eq_getElem hj, Option.any_some, beq_iff_eq]
    have ha := h.rankable _ (List.getElem_mem hil)
    have hb := h.rankable _ (List.getElem_mem hj)
    have hab := h.lt_of_lt hlt (List.getElem?_eq_getElem hil) (List.getElem?_eq_getElem hj)
    have hra : compareRows compare row elements[i].row = .lt := by
      rw [compareRows_swap hc ha hrow, hi]
      rfl
    rw [compareRows_swap hc hrow hb, compareRows_lt_trans hc hrow ha hb hra hab]
    rfl
  · exact hi

/-- An element that is above a row is one that the row is before. -/
theorem lt_of_above (hc : PreorderOn compare S) (h : Ordered compare S elements) {row : Row}
    (hrow : Rankable S row) {j : Nat} {e : Ranked} (he : elements[j]? = some e)
    (ha : aboveAt (fun e => compareRows compare e.row row == .gt) elements j) :
    compareRows compare row e.row = .lt := by
  rw [aboveAt, he, Option.any_some, beq_iff_eq] at ha
  rw [compareRows_swap hc (h.rankable e (List.mem_of_getElem? he)) hrow, ha]
  rfl

/-- Up to an element that is before a row, all are. -/
theorem lt_of_mem_take (hc : PreorderOn compare S) (h : Ordered compare S elements) {row : Row}
    (hrow : Rankable S row) {p : Nat} {a : Ranked} (ha : elements[p]? = some a)
    (hlt : compareRows compare a.row row = .lt) :
    ∀ e ∈ elements.take (p + 1), compareRows compare e.row row = .lt := by
  intro e he
  obtain ⟨i, hi⟩ := List.mem_iff_getElem?.mp he
  have hip : i < p + 1 := by
    obtain ⟨hil, -⟩ := List.getElem?_eq_some_iff.mp hi
    rw [List.length_take] at hil
    omega
  rw [List.getElem?_take_of_lt hip] at hi
  rcases Nat.lt_or_eq_of_le (Nat.le_of_lt_succ hip) with hbefore | rfl
  · exact compareRows_lt_trans hc (h.rankable e (List.mem_of_getElem? hi))
      (h.rankable a (List.mem_of_getElem? ha)) hrow (h.lt_of_lt hbefore hi ha) hlt
  · obtain rfl : a = e := Option.some.inj (ha.symm.trans hi)
    exact hlt

end Ordered

/-- What holds of all elements from a position on holds of the rest of the list. -/
theorem forall_mem_drop {elements : List Ranked} {p : Nat} {P : Ranked → Prop}
    (h : ∀ j, p ≤ j → ∀ e, elements[j]? = some e → P e) : ∀ e ∈ elements.drop p, P e := by
  intro e he
  obtain ⟨i, hi⟩ := List.mem_iff_getElem?.mp he
  rw [List.getElem?_drop] at hi
  exact h (p + i) (Nat.le_add_right p i) e hi

/-- A place in a list: where the row is, or between the rows before it and those after it. -/
def Place.Fits (compare : Value → Value → Ordering) (elements : List Ranked) (row : Row) :
    Place → Prop
  | .found p => ∃ e, elements[p]? = some e ∧ e.row = row
  | .missing p => p ≤ elements.length ∧
      (∀ e ∈ elements.take p, compareRows compare e.row row = .lt) ∧
      ∀ e ∈ elements.drop p, compareRows compare row e.row = .lt

/-- **A search in an ordered list gives a place that fits.** -/
theorem search_spec (hc : PreorderOn compare S) {elements : List Ranked}
    (h : Ordered compare S elements) {row : Row} (hrow : Rankable S row) :
    (search compare elements row).Fits compare elements row := by
  cases hlen : elements.length with
  | zero =>
    obtain rfl := List.length_eq_zero_iff.mp hlen
    exact ⟨by simp, by simp, by simp⟩
  | succ n =>
    have hsize : 0 < elements.length := by omega
    obtain ⟨hb, hlow, hhigh⟩ := narrow_spec (h.above_mono hc hrow) hsize
      (Nat.le_of_eq (Nat.zero_add _)) (Or.inl rfl) fun j hj hjl => by omega
    unfold search
    dsimp only
    generalize narrow (fun e => compareRows compare e.row row == .gt) elements 0
      elements.length = base at hb hlow hhigh ⊢
    have habove : ∀ j, base < j → ∀ e, elements[j]? = some e → compareRows compare row e.row = .lt :=
      fun j hj e he =>
        h.lt_of_above hc hrow he (hhigh j hj (List.getElem?_eq_some_iff.mp he).choose)
    have hat : elements[base]? = some elements[base] := List.getElem?_eq_getElem hb
    have hmem := h.rankable _ (List.getElem_mem hb)
    rw [hat]
    dsimp only
    cases hcmp : compareRows compare elements[base].row row with
    | eq => exact ⟨_, hat, (compareRows_eq_iff hc hmem hrow).mp hcmp⟩
    | lt => exact ⟨hb, h.lt_of_mem_take hc hrow hat hcmp, forall_mem_drop habove⟩
    | gt =>
      -- Only the first element can be above the row: nothing is before it.
      have hgt : aboveAt (fun e => compareRows compare e.row row == .gt) elements base := by
        rw [aboveAt, hat, Option.any_some, hcmp]
        rfl
      obtain rfl : base = 0 := hlow.resolve_right (by rw [hgt]; decide)
      refine ⟨Nat.zero_le _, by simp, forall_mem_drop fun j _ e he => ?_⟩
      rcases Nat.eq_zero_or_pos j with rfl | hj
      · exact h.lt_of_above hc hrow he hgt
      · exact habove j hj e he

end Ranking

end DeltaView
