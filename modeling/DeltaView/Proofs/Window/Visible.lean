import DeltaView.Proofs.Delta.Total
import DeltaView.Window.Operator
import Mathlib.Tactic.LinearCombination

/-!
# What shows, and how it changes

The rows inside a window are a slice of the ranking (`visible_eq_slice`). Sums over them are
differences of two prefix sums, one up to the end of the window and one up to its start. An
insertion shifts the elements behind it by one, so it changes either prefix sum by the new element
less the one that is pushed over that edge; what comes in and what goes out is read off from there.

* **`insert_change`**, **`delete_change`**, **`moveWindow_change`**: what the three operations
  report is the change of what shows, for every list of elements and every window.
-/

namespace DeltaView

/-- The part of a list that a window shows. -/
def Window.slice {α : Type} (w : Window) (items : List α) : List α :=
  if w.isNegative then []
  else
    match w.limit with
    | some n => (items.drop w.offset.toNat).take n.toNat
    | none => items.drop w.offset.toNat

namespace Window

variable {α β : Type}

theorem slice_sublist (w : Window) (items : List α) : (w.slice items).Sublist items := by
  unfold slice
  split
  · exact List.nil_sublist _
  · split
    · exact (List.take_sublist ..).trans (List.drop_sublist ..)
    · exact List.drop_sublist ..

theorem slice_nil (w : Window) : w.slice ([] : List α) = [] :=
  List.sublist_nil.mp (w.slice_sublist [])

theorem slice_unbounded (items : List α) : unbounded.slice items = items := rfl

theorem map_slice (w : Window) (f : α → β) (items : List α) :
    w.slice (items.map f) = (w.slice items).map f := by
  unfold slice
  split
  · rfl
  · split <;> simp [List.map_drop, List.map_take]

end Window

namespace Ranking

/-- Elements as rows with their order keys, each once. -/
def shown {M : Type} [OfNat M 1] (elements : List Ranked) : Delta Row M :=
  elements.map fun e => (e.toRow, 1)

/-- The rows that a ranking shows are the part of its rows inside the window. -/
theorem visible_eq_slice (r : Ranking) : r.visible = r.window.slice r.elements := by
  unfold visible Window.slice Window.stop? Window.start
  by_cases hn : r.window.isNegative
  · simp [hn]
  · cases r.window.limit with
    | none => simp [hn]
    | some n =>
      simp only [hn, Bool.false_eq_true, if_false, Option.map_some]
      rw [List.drop_take, Nat.add_sub_cancel_left]

/-! ## An element more -/

/-- The list with one more element, at a position. -/
def insertAt (elements : List Ranked) (p : Nat) (e : Ranked) : List Ranked :=
  elements.take p ++ e :: elements.drop p

theorem length_insertAt {elements : List Ranked} {p : Nat} (e : Ranked)
    (hp : p ≤ elements.length) : (insertAt elements p e).length = elements.length + 1 := by
  simp only [insertAt, List.length_append, List.length_take, List.length_cons, List.length_drop]
  omega

theorem getElem?_insertAt_self {elements : List Ranked} {p : Nat} (e : Ranked)
    (hp : p ≤ elements.length) : (insertAt elements p e)[p]? = some e := by
  rw [insertAt, List.getElem?_append_right (by simp)]
  simp [hp]

theorem getElem?_insertAt_of_lt {elements : List Ranked} {p k : Nat} (e : Ranked)
    (hp : p ≤ elements.length) (hk : p < k) :
    (insertAt elements p e)[k]? = elements[k - 1]? := by
  have hl : (elements.take p).length = p := by simp [hp]
  obtain ⟨j, rfl⟩ := Nat.exists_eq_add_of_lt hk
  rw [insertAt, List.getElem?_append_right (by omega), hl,
    show p + j + 1 - p = j + 1 by omega, List.getElem?_cons_succ, List.getElem?_drop]
  rfl

theorem getElem?_insertAt_of_gt {elements : List Ranked} {p k : Nat} (e : Ranked)
    (hp : p ≤ elements.length) (hk : k < p) :
    (insertAt elements p e)[k]? = elements[k]? := by
  rw [insertAt, List.getElem?_append_left (by simp; omega), List.getElem?_take, if_pos hk]

/-! ## Prefix sums -/

section Sums

variable {M : Type} [CommRing M]

/-- The sum of a function over the first elements. -/
def sumTo (f : Ranked → M) (elements : List Ranked) (k : Nat) : M :=
  ((elements.take k).map f).sum

/-- The summand of an element that may be missing. -/
def summand (f : Ranked → M) (e : Option Ranked) : M := (e.map f).getD 0

theorem sumTo_zero (f : Ranked → M) (elements : List Ranked) : sumTo f elements 0 = 0 := by
  rw [sumTo, List.take_zero]
  rfl

theorem sumTo_succ (f : Ranked → M) (elements : List Ranked) (k : Nat) :
    sumTo f elements (k + 1) = sumTo f elements k + summand f elements[k]? := by
  rw [sumTo, List.take_add_one, List.map_append, List.sum_append, summand]
  cases elements[k]? <;> simp [sumTo]

theorem sumTo_cons (f : Ranked → M) (e : Ranked) (elements : List Ranked) (k : Nat) :
    sumTo f (e :: elements) (k + 1) = f e + sumTo f elements k := by
  rw [sumTo, List.take_succ_cons, List.map_cons, List.sum_cons, sumTo]

/-- An insertion changes the sums that go past it: by the new element, less the element that is
pushed out at the end. -/
theorem sumTo_insertAt (f : Ranked → M) {elements : List Ranked} {p : Nat} (e : Ranked)
    (hp : p ≤ elements.length) (k : Nat) :
    sumTo f (insertAt elements p e) k = sumTo f elements k +
      if p < k then f e - summand f (insertAt elements p e)[k]? else 0 := by
  have hl : (elements.take p).length = p := by simp [hp]
  by_cases hk : p < k
  · obtain ⟨j, rfl⟩ := Nat.exists_eq_add_of_lt hk
    have hj : p + j + 1 - p = j + 1 := by omega
    rw [if_pos hk, getElem?_insertAt_of_lt e hp hk, Nat.add_sub_cancel, sumTo_succ f elements,
      sumTo, insertAt, List.take_append, hl, List.take_of_length_le (by omega), hj,
      List.take_succ_cons, sumTo, List.take_add]
    simp only [List.map_append, List.map_cons, List.sum_append, List.sum_cons]
    ring
  · rw [if_neg hk, add_zero, sumTo, sumTo, insertAt, List.take_append, hl,
      show k - p = 0 by omega, List.take_zero, List.append_nil, List.take_take,
      Nat.min_eq_left (by omega)]

end Sums

/-! ## The window as a pair of bounds -/

/-- The first rank behind the window, in a list of at most `n` elements. -/
def stopOf (w : Window) (n : Nat) : Nat := max w.start (w.stop?.getD n)

theorem start_le_stop {w : Window} {stop : Nat} (h : w.stop? = some stop) : w.start ≤ stop := by
  unfold Window.stop? at h
  unfold Window.start
  by_cases hn : w.isNegative
  · simp [hn]
  · rw [if_neg hn, Option.map_eq_some_iff] at h
    obtain ⟨n, -, rfl⟩ := h
    simp [hn]

theorem stopOf_eq_of_some {w : Window} {stop : Nat} (h : w.stop? = some stop) (n : Nat) :
    stopOf w n = stop := by
  rw [stopOf, h, Option.getD_some, Nat.max_eq_right (start_le_stop h)]

theorem le_stopOf_of_none {w : Window} (h : w.stop? = none) (n : Nat) : n ≤ stopOf w n := by
  rw [stopOf, h, Option.getD_none]
  exact Nat.le_max_right _ _

theorem start_le_stopOf (w : Window) (n : Nat) : w.start ≤ stopOf w n := Nat.le_max_left _ _

theorem isBefore_iff {w : Window} {p n : Nat} (hp : p < n) :
    w.isBefore p = true ↔ p < stopOf w n := by
  unfold Window.isBefore
  cases h : w.stop? with
  | none => simpa using lt_of_lt_of_le hp (le_stopOf_of_none h n)
  | some stop => simp [stopOf_eq_of_some h]

variable {M : Type} [CommRing M]

theorem sum_shown (f : Row → M) (elements : List Ranked) :
    Delta.weigh f (shown elements) = (elements.map fun e => f e.toRow).sum := by
  induction elements with
  | nil => rfl
  | cons e elements ih =>
    show 1 * f e.toRow + Delta.weigh f (shown elements) = _
    rw [ih, one_mul, List.map_cons, List.sum_cons]

theorem sum_drop (g : Ranked → M) (elements : List Ranked) (k : Nat) :
    ((elements.drop k).map g).sum = (elements.map g).sum - sumTo g elements k := by
  have := congrArg (fun l => (l.map g).sum) (List.take_append_drop k elements)
  rw [List.map_append, List.sum_append] at this
  rw [sumTo]
  linear_combination this

/-- A sum over what shows is a difference of two prefix sums. -/
theorem weigh_visible (f : Row → M) (r : Ranking) {n : Nat} (hn : r.elements.length ≤ n) :
    Delta.weigh f (shown r.visible) =
      sumTo (fun e => f e.toRow) r.elements (stopOf r.window n) -
        sumTo (fun e => f e.toRow) r.elements r.window.start := by
  rw [sum_shown, visible]
  cases hs : r.window.stop? with
  | none =>
    have hall := le_stopOf_of_none hs n
    rw [sum_drop, sumTo, sumTo, List.take_of_length_le (i := stopOf r.window n) (by omega)]
  | some stop =>
    have hle := start_le_stop hs
    dsimp only
    rw [sum_drop, stopOf_eq_of_some hs, sumTo, sumTo, sumTo, List.take_take, Nat.min_eq_left hle]

/-! ## What operations do to a ranking -/

variable {compare : Value → Value → Ordering} {r : Ranking} {row : Row}

theorem search_found_lt {elements : List Ranked} {p : Nat}
    (h : search compare elements row = .found p) : p < elements.length := by
  unfold search at h
  dsimp only at h
  split at h
  · exact absurd h (by simp)
  · rename_i e he
    obtain ⟨hlt, -⟩ := List.getElem?_eq_some_iff.mp he
    split at h
    · exact Place.found.inj h ▸ hlt
    · exact absurd h (by simp)
    · exact absurd h (by simp)

theorem search_missing_le {elements : List Ranked} {p : Nat}
    (h : search compare elements row = .missing p) : p ≤ elements.length := by
  unfold search at h
  dsimp only at h
  split at h
  · exact Place.missing.inj h ▸ Nat.zero_le _
  · rename_i e he
    obtain ⟨hlt, -⟩ := List.getElem?_eq_some_iff.mp he
    split at h
    · exact absurd h (by simp)
    · exact Place.missing.inj h ▸ hlt
    · exact Place.missing.inj h ▸ Nat.le_of_lt hlt

/-- What an insertion that succeeds does: nothing to a row that is there, and otherwise one more
element at the place of the row. -/
theorem insert_cases {r' : Ranking} {c : WindowChange} (h : r.insert compare row = .ok (r', c)) :
    ((∃ p, search compare r.elements row = .found p) ∧ r' = r ∧ c = {}) ∨
    ∃ p index, search compare r.elements row = .missing p ∧
      r' = { r with elements := insertAt r.elements p ⟨row, index⟩ } ∧
      c = if r.window.isBefore p then
        { moveIn := (insertAt r.elements p ⟨row, index⟩)[max p r.window.start]?
          moveOut := r.window.stop?.bind fun stop => (insertAt r.elements p ⟨row, index⟩)[stop]? }
      else {} := by
  unfold insert at h
  split at h
  · rename_i p hp
    obtain ⟨rfl, rfl⟩ := Prod.mk.inj (Except.ok.inj h)
    exact Or.inl ⟨⟨p, hp⟩, rfl, rfl⟩
  · rename_i p hp
    split at h
    · exact absurd h (by simp)
    · rename_i index _
      obtain ⟨rfl, rfl⟩ := Prod.mk.inj (Except.ok.inj h)
      exact Or.inr ⟨p, index, hp, rfl, rfl⟩

/-- What a deletion does: nothing to a row that is not there, and otherwise one element less. -/
theorem delete_cases (compare : Value → Value → Ordering) (r : Ranking) (row : Row) :
    ((∃ p, search compare r.elements row = .missing p) ∧ r.delete compare row = (r, {})) ∨
    ∃ p, search compare r.elements row = .found p ∧
      r.delete compare row = ({ r with elements := r.elements.eraseIdx p },
        if r.window.isBefore p then
          { moveOut :=
              if r.window.start ≤ p then r.elements[p]?
              else (r.elements.eraseIdx p)[r.window.start - 1]?
            moveIn := r.window.stop?.bind fun stop =>
              if stop = 0 then none else (r.elements.eraseIdx p)[stop - 1]? }
        else {}) := by
  unfold delete
  split
  · rename_i p hp
    exact Or.inl ⟨⟨p, hp⟩, rfl⟩
  · rename_i p hp
    exact Or.inr ⟨p, hp, rfl⟩

/-- An element taken out, and put in again. -/
theorem insertAt_eraseIdx {elements : List Ranked} {p : Nat} {e : Ranked}
    (h : elements[p]? = some e) : insertAt (elements.eraseIdx p) p e = elements := by
  obtain ⟨hlt, rfl⟩ := List.getElem?_eq_some_iff.mp h
  have hl : (elements.take p).length = p := by
    rw [List.length_take, Nat.min_eq_left (Nat.le_of_lt hlt)]
  rw [insertAt, List.eraseIdx_eq_take_drop_succ, List.take_left' hl, List.drop_left' hl,
    ← List.drop_eq_getElem_cons hlt, List.take_append_drop]

/-- A prefix of the elements before a deletion, where the shorter list has an element put in. -/
theorem sumTo_of_eraseIdx (f : Ranked → M) {elements : List Ranked} {p : Nat} {e : Ranked}
    (h : elements[p]? = some e) (k : Nat) :
    sumTo f elements k = sumTo f (elements.eraseIdx p) k +
      if p < k then f e - summand f (elements.eraseIdx p)[k - 1]? else 0 := by
  have hback := insertAt_eraseIdx h
  obtain ⟨hlt, -⟩ := List.getElem?_eq_some_iff.mp h
  have hle : p ≤ (elements.eraseIdx p).length := by
    rw [List.length_eraseIdx_of_lt hlt]
    omega
  have hsum := sumTo_insertAt f e hle k
  rw [hback] at hsum
  rw [hsum]
  split
  · rename_i hk
    rw [← getElem?_insertAt_of_lt e hle hk, hback]
  · rfl

/-- The elements at the ends of the window, where it is bounded. -/
theorem summand_stop (f : Ranked → M) (w : Window) {elements : List Ranked} {n : Nat}
    (hn : elements.length ≤ n) :
    summand f (w.stop?.bind fun stop => elements[stop]?) = summand f elements[stopOf w n]? := by
  cases h : w.stop? with
  | none =>
    have := le_stopOf_of_none h n
    rw [Option.bind_none, List.getElem?_eq_none (by omega)]
  | some stop => rw [Option.bind_some, stopOf_eq_of_some h]

theorem summand_beforeStop (f : Ranked → M) {w : Window} {elements : List Ranked} {p n : Nat}
    (hn : elements.length < n) (hp : p < stopOf w n) :
    summand f (w.stop?.bind fun stop => if stop = 0 then none else elements[stop - 1]?) =
      summand f elements[stopOf w n - 1]? := by
  cases h : w.stop? with
  | none =>
    have := le_stopOf_of_none h n
    rw [Option.bind_none, List.getElem?_eq_none (by omega)]
  | some stop =>
    rw [stopOf_eq_of_some h] at hp ⊢
    rw [Option.bind_some, if_neg (by omega)]

end Ranking

open Ranking

namespace WindowState

variable {M : Type} [CommRing M] {compare : Value → Value → Ordering} {r : Ranking} {row : Row}

@[simp] theorem summand_none (f : Ranked → M) : summand f none = 0 := rfl

@[simp] theorem summand_some (f : Ranked → M) (e : Ranked) : summand f (some e) = f e := rfl

theorem weigh_emitChange (f : Row → M) (c : WindowChange) :
    Delta.weigh f (emitChange c) =
      summand (fun e => f e.toRow) c.moveIn - summand (fun e => f e.toRow) c.moveOut := by
  obtain ⟨moveIn, moveOut⟩ := c
  cases moveIn <;> cases moveOut <;> simp [emitChange]
  ring

/-- **An insertion reports the change of what shows.** -/
theorem insert_change {r' : Ranking} {c : WindowChange}
    (h : r.insert compare row = .ok (r', c)) (f : Row → M) :
    Delta.weigh f (emitChange c) =
      Delta.weigh f (shown r'.visible) - Delta.weigh f (shown r.visible) := by
  rcases insert_cases h with ⟨-, rfl, rfl⟩ | ⟨p, index, hp, rfl, rfl⟩
  · rw [sub_self]
    rfl
  · have hle := search_missing_le hp
    generalize (⟨row, index⟩ : Ranked) = e
    have hlen := length_insertAt e hle
    have hstart := start_le_stopOf r.window (r.elements.length + 1)
    rw [weigh_visible f _ (n := r.elements.length + 1) (le_of_eq hlen),
      weigh_visible f r (n := r.elements.length + 1) (by omega)]
    dsimp only
    rw [sumTo_insertAt _ e hle, sumTo_insertAt _ e hle]
    by_cases hb : r.window.isBefore p
    · have hstop := (isBefore_iff (by omega : p < r.elements.length + 1)).mp hb
      rw [if_pos hb, weigh_emitChange, summand_stop _ _ (le_of_eq hlen), if_pos hstop]
      by_cases hs : r.window.start ≤ p
      · rw [Nat.max_eq_left hs, getElem?_insertAt_self e hle, summand_some,
          if_neg (by omega)]
        ring
      · rw [Nat.max_eq_right (by omega), if_pos (by omega)]
        ring
    · have hstop : ¬ p < stopOf r.window (r.elements.length + 1) := fun h =>
        hb ((isBefore_iff (by omega)).mpr h)
      rw [if_neg hb, if_neg hstop, if_neg (by omega), weigh_emitChange]
      simp

/-- **A deletion reports the change of what shows.** -/
theorem delete_change (compare : Value → Value → Ordering) (r : Ranking) (row : Row)
    (f : Row → M) :
    Delta.weigh f (emitChange (r.delete compare row).2) =
      Delta.weigh f (shown (r.delete compare row).1.visible) - Delta.weigh f (shown r.visible) := by
  rcases delete_cases compare r row with ⟨-, hd⟩ | ⟨p, hp, hd⟩
  · rw [hd, sub_self]
    rfl
  · rw [hd]
    have hlt := search_found_lt hp
    obtain ⟨e, he⟩ : ∃ e, r.elements[p]? = some e := ⟨_, List.getElem?_eq_getElem hlt⟩
    have hlen : (r.elements.eraseIdx p).length + 1 = r.elements.length := by
      rw [List.length_eraseIdx_of_lt hlt]
      omega
    have hstart := start_le_stopOf r.window r.elements.length
    rw [weigh_visible f _ (n := r.elements.length) (by dsimp only; omega),
      weigh_visible f r (n := r.elements.length) (le_refl _)]
    dsimp only
    rw [sumTo_of_eraseIdx _ he (stopOf r.window r.elements.length),
      sumTo_of_eraseIdx _ he r.window.start]
    by_cases hb : r.window.isBefore p
    · have hstop := (isBefore_iff hlt).mp hb
      rw [if_pos hb, weigh_emitChange, summand_beforeStop _ (by omega) hstop, if_pos hstop]
      by_cases hs : r.window.start ≤ p
      · rw [if_pos hs, he, summand_some, if_neg (by omega)]
        ring
      · rw [if_neg hs, if_pos (by omega)]
        ring
    · have hstop : ¬ p < stopOf r.window r.elements.length := fun h =>
        hb ((isBefore_iff hlt).mpr h)
      rw [if_neg hb, if_neg hstop, if_neg (by omega), weigh_emitChange]
      simp

/-! ## Moving the window -/

/-- The sum over the elements whose rank, counted from `rank` on, shows. -/
def rankSum (f : Ranked → M) (shows : Nat → Bool) : Nat → List Ranked → M
  | _, [] => 0
  | rank, e :: es => (if shows rank then f e else 0) + rankSum f shows (rank + 1) es

theorem weigh_newlyIn (f : Row → M) (was is : Nat → Bool) (rank : Nat) (es : List Ranked) :
    ((newlyIn was is rank es).map fun e => f e.toRow).sum -
        ((newlyIn is was rank es).map fun e => f e.toRow).sum =
      rankSum (fun e => f e.toRow) is rank es - rankSum (fun e => f e.toRow) was rank es := by
  induction es generalizing rank with
  | nil => exact (sub_self _).trans (sub_self _).symm
  | cons e es ih =>
    have := ih (rank + 1)
    unfold newlyIn rankSum
    cases was rank <;> cases is rank <;> simp <;> linear_combination this

theorem rankSum_eq (f : Ranked → M) {start stop : Nat} (h : start ≤ stop) (shows : Nat → Bool)
    (es : List Ranked) (rank : Nat)
    (hs : ∀ k, rank ≤ k → k < rank + es.length → (shows k = true ↔ start ≤ k ∧ k < stop)) :
    rankSum f shows rank es = sumTo f es (stop - rank) - sumTo f es (start - rank) := by
  induction es generalizing rank with
  | nil => simp [rankSum, sumTo]
  | cons e es ih =>
    have hrank := hs rank (le_refl _) (by simp)
    rw [rankSum, ih (rank + 1) fun k hk hkl => hs k (by omega) (by simp at hkl ⊢; omega)]
    have hto : ∀ k, sumTo f (e :: es) (k - rank) =
        (if rank < k then f e else 0) + sumTo f es (k - (rank + 1)) := fun k => by
      by_cases hk : rank < k
      · rw [if_pos hk, show k - rank = k - (rank + 1) + 1 by omega, sumTo_cons]
      · rw [if_neg hk, show k - rank = 0 by omega, show k - (rank + 1) = 0 by omega, sumTo_zero,
          sumTo_zero, add_zero]
    have hshows : (if shows rank then f e else 0) =
        (if rank < stop then f e else 0) - (if rank < start then f e else 0) := by
      simp only [hrank]
      split_ifs <;> first | omega | simp
    rw [hto, hto]
    linear_combination hshows

theorem weigh_visible_eq_rankSum (f : Row → M) (r : Ranking) :
    Delta.weigh f (shown r.visible) =
      rankSum (fun e => f e.toRow) r.window.shows 0 r.elements := by
  rw [weigh_visible f r (le_refl _), rankSum_eq _ (start_le_stopOf r.window r.elements.length)]
  · rfl
  · intro k _ hk
    rw [Window.shows, Bool.and_eq_true, decide_eq_true_iff,
      isBefore_iff (by omega : k < r.elements.length)]

/-- **A move of the window reports the change of what shows.** -/
theorem moveWindow_change (r : Ranking) (w : Window) (f : Row → M) :
    Delta.weigh f (((r.moveWindow w).2.moveOuts.map fun e => (e.toRow, -1)) ++
        ((r.moveWindow w).2.moveIns.map fun e => (e.toRow, 1))) =
      Delta.weigh f (shown (r.moveWindow w).1.visible) - Delta.weigh f (shown r.visible) := by
  have hneg : ∀ es : List Ranked, Delta.weigh f (es.map fun e => (e.toRow, (-1 : M))) =
      -(es.map fun e => f e.toRow).sum := fun es => by
    rw [← sum_shown, ← Delta.weigh_negate]
    simp only [Delta.negate, shown, List.map_map]
    rfl
  have hins : ∀ es : List Ranked, Delta.weigh f (es.map fun e => (e.toRow, (1 : M))) =
      (es.map fun e => f e.toRow).sum := sum_shown f
  have := weigh_newlyIn f r.window.shows w.shows 0 r.elements
  rw [Delta.weigh_append, hneg, hins, weigh_visible_eq_rankSum, weigh_visible_eq_rankSum]
  simp only [moveWindow]
  linear_combination this

end WindowState

end DeltaView
