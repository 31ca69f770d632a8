import DeltaView.Proofs.Window.Indexes
import Mathlib.Data.List.Nodup

/-!
# What a ranking reports

An insertion and a deletion report at most one element that comes into the window and one that
leaves it, read off at the edges of the window. A move of the window reports all of them.

* `Window.mem_slice`: what shows is what has a rank in the window.
* `edges_reports`: which element a new one brings in and which one it pushes out. A deletion is an
  insertion read backwards (`delete_eq_flip`).
* `Window.IsGap`: a window of no rows behind some others. There an element that goes past it is
  reported to come in and to leave, although nothing shows (`Ranking.insert_misreports_before_gap`).
* **`Ranking.run_reports`**: after any calls, what the next call reports is the change of what
  shows, but for the insertions and deletions before a gap.
-/

namespace DeltaView

/-! ## What is reported -/

/-- The change of one row is the change of what shows. -/
structure WindowChange.Reports (c : WindowChange) (before after : List Ranked) : Prop where
  moveIn : ∀ e, c.moveIn = some e ↔ e ∈ after ∧ e ∉ before
  moveOut : ∀ e, c.moveOut = some e ↔ e ∈ before ∧ e ∉ after

/-- The move of a window is the change of what shows, in order. -/
structure WindowMove.Reports (m : WindowMove) (before after : List Ranked) : Prop where
  moveIns : m.moveIns = after.filter (· ∉ before)
  moveOuts : m.moveOuts = before.filter (· ∉ after)

/-- Nothing comes in and nothing leaves where what shows stays. -/
theorem WindowChange.Reports.refl (shown : List Ranked) : Reports {} shown shown :=
  ⟨fun _ => ⟨nofun, fun h => absurd h.1 h.2⟩, fun _ => ⟨nofun, fun h => absurd h.1 h.2⟩⟩

/-- The change back. -/
def WindowChange.flip (c : WindowChange) : WindowChange := ⟨c.moveOut, c.moveIn⟩

theorem WindowChange.Reports.flip {c : WindowChange} {before after : List Ranked}
    (h : c.Reports before after) : c.flip.Reports after before :=
  ⟨h.moveOut, h.moveIn⟩

namespace Window

/-- A window of no rows behind some others. -/
def IsGap (w : Window) : Prop := w.limit = some 0 ∧ 0 < w.offset

instance (w : Window) : Decidable w.IsGap := inferInstanceAs (Decidable (_ ∧ _))

variable {w : Window}

theorem isBefore_iff_forall {k : Nat} : w.isBefore k = true ↔ ∀ stop ∈ w.stop?, k < stop := by
  unfold isBefore
  cases w.stop? <;> simp

theorem shows_iff {k : Nat} :
    w.shows k = true ↔ w.start ≤ k ∧ ∀ stop ∈ w.stop?, k < stop := by
  rw [shows, Bool.and_eq_true, decide_eq_true_iff, isBefore_iff_forall]

/-- Where a window that is no gap has an end behind its first rank, it shows something there. -/
theorem start_lt_of_stop {stop : Nat} (hgap : ¬ w.IsGap) (hs : w.stop? = some stop)
    (hpos : 0 < stop) : w.start < stop := by
  unfold stop? at hs
  unfold start
  by_cases hn : w.isNegative
  · rw [if_pos hn] at hs ⊢
    exact hpos
  · rw [if_neg hn] at hs ⊢
    obtain ⟨n, hlimit, rfl⟩ := Option.map_eq_some_iff.mp hs
    have hnonneg : 0 ≤ w.offset ∧ 0 ≤ n := by
      simpa [isNegative, hlimit] using hn
    have hne : ¬ (n = 0 ∧ 0 < w.offset) := fun h => hgap ⟨by rw [hlimit, h.1], h.2⟩
    omega

/-- A gap ends where it starts. -/
theorem stop_of_isGap (hgap : w.IsGap) : w.stop? = some w.start := by
  obtain ⟨hlimit, hoffset⟩ := hgap
  have hn : w.isNegative = false := by
    simp [isNegative, hlimit]
    omega
  simp [stop?, start, hn, hlimit]

/-- What shows is what has a rank in the window. -/
theorem mem_slice {α : Type} {items : List α} {a : α} :
    a ∈ w.slice items ↔ ∃ k, items[k]? = some a ∧ w.shows k = true := by
  simp only [shows_iff, slice, start, stop?]
  by_cases hn : w.isNegative
  · simp [hn]
  · cases w.limit with
    | none =>
      simp only [hn, Bool.false_eq_true, if_false, List.mem_iff_getElem?, List.getElem?_drop]
      constructor
      · rintro ⟨i, hi⟩
        exact ⟨_, hi, Nat.le_add_right .., by simp⟩
      · rintro ⟨k, hk, hstart, -⟩
        exact ⟨k - w.offset.toNat, by rwa [Nat.add_sub_cancel' hstart]⟩
    | some n =>
      simp only [hn, Bool.false_eq_true, if_false, List.mem_iff_getElem?, List.getElem?_take,
        List.getElem?_drop]
      constructor
      · rintro ⟨i, hi⟩
        split_ifs at hi with hlt
        exact ⟨_, hi, Nat.le_add_right .., by simpa using hlt⟩
      · rintro ⟨k, hk, hstart, hstop⟩
        have hlt : k < w.offset.toNat + n.toNat := hstop _ rfl
        refine ⟨k - w.offset.toNat, ?_⟩
        rw [if_pos (by omega), Nat.add_sub_cancel' hstart, hk]

theorem slice_of_isGap {α : Type} (hgap : w.IsGap) (items : List α) : w.slice items = [] := by
  refine List.eq_nil_iff_forall_not_mem.mpr fun a ha => ?_
  obtain ⟨k, -, hk⟩ := mem_slice.mp ha
  obtain ⟨hstart, hstop⟩ := shows_iff.mp hk
  exact absurd (hstop _ (stop_of_isGap hgap)) (by omega)

end Window

/-- The change of one row is the change of what shows, unless the window is a gap: then nothing
shows, and what is reported to come in and to go out is the same. -/
def WindowChange.ReportsOffGap (c : WindowChange) (w : Window) (before after : List Ranked) :
    Prop :=
  if w.IsGap then before = [] ∧ after = [] ∧ c.moveIn = c.moveOut else c.Reports before after

theorem WindowChange.ReportsOffGap.refl (w : Window) (items : List Ranked) :
    ReportsOffGap {} w (w.slice items) (w.slice items) := by
  unfold ReportsOffGap
  split_ifs with hgap
  · exact ⟨Window.slice_of_isGap hgap items, Window.slice_of_isGap hgap items, rfl⟩
  · exact .refl _

theorem WindowChange.ReportsOffGap.flip {c : WindowChange} {w : Window}
    {before after : List Ranked} (h : c.ReportsOffGap w before after) :
    c.flip.ReportsOffGap w after before := by
  unfold ReportsOffGap at h ⊢
  split_ifs with hgap
  · rw [if_pos hgap] at h
    exact ⟨h.2.1, h.1, h.2.2.symm⟩
  · rw [if_neg hgap] at h
    exact Reports.flip h

namespace Ranking

variable {w : Window} {elements : List Ranked} {p : Nat} {e x : Ranked}

/-! ## At the edges of the window -/

/-- What is read off at the edges of the window for an element that is new at a position: the
first element that shows from there on comes in, and the one behind the window goes out. -/
def edges (w : Window) (p : Nat) (elements : List Ranked) : WindowChange :=
  if w.isBefore p then
    { moveIn := elements[max p w.start]?
      moveOut := w.stop?.bind fun stop => elements[stop]? }
  else {}

/-- The rank of an element before another one is put in at a position. -/
def rankBefore (p k : Nat) : Nat := if k < p then k else k - 1

theorem getElem?_rankBefore {k : Nat} (hp : p ≤ elements.length) (hk : k ≠ p) :
    elements[rankBefore p k]? = (insertAt elements p x)[k]? := by
  unfold rankBefore
  split_ifs with hlt
  · rw [getElem?_insertAt_of_gt x hp hlt]
  · rw [getElem?_insertAt_of_lt x hp (by omega)]

/-- Among elements that differ, an element shows where its rank does. -/
theorem mem_slice_iff_shows (hnodup : elements.Nodup) {k : Nat} (hk : elements[k]? = some e) :
    e ∈ w.slice elements ↔ w.shows k = true := by
  refine ⟨fun h => ?_, fun h => Window.mem_slice.mpr ⟨k, hk, h⟩⟩
  obtain ⟨j, hj, hshows⟩ := Window.mem_slice.mp h
  have hlt : j < elements.length := (List.getElem?_eq_some_iff.mp hj).1
  rwa [← (List.getElem?_inj hlt hnodup).mp (hj.trans hk.symm)]

/-- What showed before an element was put in. -/
theorem mem_slice_iff_shows_rankBefore (hp : p ≤ elements.length)
    (hnodup : (insertAt elements p x).Nodup) {k : Nat}
    (hk : (insertAt elements p x)[k]? = some e) :
    e ∈ w.slice elements ↔ k ≠ p ∧ w.shows (rankBefore p k) = true := by
  have hsub : elements.Nodup := by
    refine hnodup.sublist ?_
    rw [insertAt]
    conv_lhs => rw [← List.take_append_drop p elements]
    exact (List.sublist_cons_self _ _).append_left _
  by_cases hkp : k = p
  · subst hkp
    rw [getElem?_insertAt_self x hp, Option.some_inj] at hk
    subst hk
    refine iff_of_false (fun h => ?_) (fun h => h.1 rfl)
    have hmem := (w.slice_sublist elements).subset h
    rw [insertAt, List.nodup_middle, List.take_append_drop] at hnodup
    exact (List.nodup_cons.mp hnodup).1 hmem
  · rw [mem_slice_iff_shows hsub ((getElem?_rankBefore hp hkp).trans hk)]
    exact ⟨fun h => ⟨hkp, h⟩, And.right⟩

/-- The rank at which an element comes in. -/
theorem comes_in_iff (hgap : ¬ w.IsGap) {k : Nat} :
    w.shows k = true ∧ ¬ (k ≠ p ∧ w.shows (rankBefore p k) = true) ↔
      w.isBefore p = true ∧ k = max p w.start := by
  simp only [Window.shows_iff, Window.isBefore_iff_forall, rankBefore]
  cases hs : w.stop? with
  | none =>
    simp only [Option.mem_def, reduceCtorEq, false_implies, implies_true, and_true, true_and]
    split_ifs <;> omega
  | some stop =>
    have hstart := fun hpos => Window.start_lt_of_stop hgap hs hpos
    simp only [Option.mem_def, Option.some.injEq, forall_eq']
    split_ifs <;> omega

/-- The rank at which an element goes out. -/
theorem goes_out_iff (hgap : ¬ w.IsGap) {k : Nat} :
    (k ≠ p ∧ w.shows (rankBefore p k) = true) ∧ ¬ w.shows k = true ↔
      w.isBefore p = true ∧ w.stop? = some k := by
  simp only [Window.shows_iff, Window.isBefore_iff_forall, rankBefore]
  cases hs : w.stop? with
  | none =>
    simp only [Option.mem_def, reduceCtorEq, false_implies, implies_true, and_true, and_false,
      iff_false]
    split_ifs <;> omega
  | some stop =>
    have hstart := fun hpos => Window.start_lt_of_stop hgap hs hpos
    simp only [Option.mem_def, Option.some.injEq, forall_eq']
    split_ifs <;> omega

theorem exists_rank_and_iff {P : Prop} (h : P → e ∈ elements) :
    (∃ k : Nat, elements[k]? = some e ∧ P) ↔ P := by
  refine ⟨fun ⟨_, _, hP⟩ => hP, fun hP => ?_⟩
  obtain ⟨k, hk⟩ := List.mem_iff_getElem?.mp (h hP)
  exact ⟨k, hk, hP⟩

/-- **Off a gap, what is read off at the edges is the change of what shows.** -/
theorem edges_reports (hgap : ¬ w.IsGap) (hp : p ≤ elements.length)
    (hnodup : (insertAt elements p x).Nodup) :
    (edges w p (insertAt elements p x)).Reports (w.slice elements)
      (w.slice (insertAt elements p x)) := by
  have hafter := fun e k hk => mem_slice_iff_shows (w := w) (e := e) (k := k) hnodup hk
  have hbefore := fun e k hk =>
    mem_slice_iff_shows_rankBefore (w := w) (e := e) (k := k) hp hnodup hk
  constructor
  · intro e
    calc (edges w p (insertAt elements p x)).moveIn = some e
      _ ↔ ∃ k, (insertAt elements p x)[k]? = some e ∧ w.isBefore p = true ∧ k = max p w.start := by
        unfold edges
        split_ifs with hb <;> simp [hb]
      _ ↔ ∃ k, (insertAt elements p x)[k]? = some e ∧
            (e ∈ w.slice (insertAt elements p x) ∧ e ∉ w.slice elements) :=
        exists_congr fun k => and_congr_right fun hk => by
          rw [hafter e k hk, hbefore e k hk, comes_in_iff hgap]
      _ ↔ e ∈ w.slice (insertAt elements p x) ∧ e ∉ w.slice elements :=
        exists_rank_and_iff fun h => (w.slice_sublist _).subset h.1
  · intro e
    calc (edges w p (insertAt elements p x)).moveOut = some e
      _ ↔ ∃ k, (insertAt elements p x)[k]? = some e ∧ w.isBefore p = true ∧ w.stop? = some k := by
        unfold edges
        split_ifs with hb <;> simp [hb, Option.bind_eq_some_iff, and_comm]
      _ ↔ ∃ k, (insertAt elements p x)[k]? = some e ∧
            (e ∈ w.slice elements ∧ e ∉ w.slice (insertAt elements p x)) :=
        exists_congr fun k => and_congr_right fun hk => by
          rw [hafter e k hk, hbefore e k hk, goes_out_iff hgap]
      _ ↔ e ∈ w.slice elements ∧ e ∉ w.slice (insertAt elements p x) :=
        exists_rank_and_iff fun h => mem_insertAt.mpr (Or.inr ((w.slice_sublist _).subset h.1))

/-- Before a gap, the same element comes in and goes out. -/
theorem edges_of_isGap (hgap : w.IsGap) (p : Nat) (elements : List Ranked) :
    (edges w p elements).moveIn = (edges w p elements).moveOut := by
  unfold edges
  split_ifs with hb
  · have hlt : p < w.start := Window.isBefore_iff_forall.mp hb _ (Window.stop_of_isGap hgap)
    rw [Nat.max_eq_right (Nat.le_of_lt hlt), Window.stop_of_isGap hgap, Option.bind_some]
  · rfl

theorem edges_reportsOffGap (hp : p ≤ elements.length)
    (hnodup : (insertAt elements p x).Nodup) :
    (edges w p (insertAt elements p x)).ReportsOffGap w (w.slice elements)
      (w.slice (insertAt elements p x)) := by
  unfold WindowChange.ReportsOffGap
  split_ifs with hgap
  · exact ⟨Window.slice_of_isGap hgap _, Window.slice_of_isGap hgap _, edges_of_isGap hgap _ _⟩
  · exact edges_reports hgap hp hnodup

/-! ## A move of the window -/

theorem newlyIn_sublist (was is : Nat → Bool) (rank : Nat) (elements : List Ranked) :
    (newlyIn was is rank elements).Sublist elements := by
  induction elements generalizing rank with
  | nil => exact List.Sublist.slnil
  | cons x elements ih =>
    rw [newlyIn]
    split_ifs
    · exact (ih _).cons_cons x
    · exact (ih _).cons x

theorem mem_newlyIn {was is : Nat → Bool} {rank : Nat} :
    e ∈ newlyIn was is rank elements ↔
      ∃ k, elements[k]? = some e ∧ is (rank + k) = true ∧ ¬ was (rank + k) = true := by
  induction elements generalizing rank with
  | nil => simp [newlyIn]
  | cons x elements ih =>
    have hrest : e ∈ newlyIn was is (rank + 1) elements ↔
        ∃ k, (x :: elements)[k + 1]? = some e ∧
          is (rank + (k + 1)) = true ∧ ¬ was (rank + (k + 1)) = true := by
      rw [ih]
      simp only [List.getElem?_cons_succ, Nat.add_assoc, Nat.add_comm 1]
    have hhead : (some x = some e ∧ is (rank + 0) = true ∧ ¬ was (rank + 0) = true) ↔
        (is rank && !was rank) = true ∧ e = x := by
      rw [and_comm, Option.some_inj, @eq_comm _ x e, Bool.and_eq_true, Bool.not_eq_true',
        Nat.add_zero, Bool.not_eq_true]
    rw [← Nat.or_exists_add_one, ← hrest, List.getElem?_cons_zero, hhead, newlyIn]
    split_ifs with hx
    · rw [List.mem_cons, and_iff_right hx]
    · exact (or_iff_right fun h => hx h.1).symm

/-- The elements that come to show are those that show in one window and not in the other. -/
theorem newlyIn_eq_filter (hnodup : elements.Nodup) (was is : Window) :
    newlyIn was.shows is.shows 0 elements =
      (is.slice elements).filter (· ∉ was.slice elements) := by
  have hsub := newlyIn_sublist was.shows is.shows 0 elements
  have hsub' : ((is.slice elements).filter (· ∉ was.slice elements)).Sublist elements :=
    List.filter_sublist.trans (is.slice_sublist elements)
  refine (hnodup.perm_iff_eq_of_sublist hsub hsub').mp
    ((List.perm_ext_iff_of_nodup (hnodup.sublist hsub) (hnodup.sublist hsub')).mpr fun e => ?_)
  rw [mem_newlyIn, List.mem_filter, decide_eq_true_iff]
  constructor
  · rintro ⟨k, hk, his, hwas⟩
    rw [Nat.zero_add] at his hwas
    exact ⟨Window.mem_slice.mpr ⟨k, hk, his⟩, fun h => hwas ((mem_slice_iff_shows hnodup hk).mp h)⟩
  · rintro ⟨his, hwas⟩
    obtain ⟨k, hk, hshows⟩ := Window.mem_slice.mp his
    rw [mem_slice_iff_shows hnodup hk] at hwas
    exact ⟨k, hk, by rwa [Nat.zero_add], by rwa [Nat.zero_add]⟩

/-! ## One call -/

variable {compare : Value → Value → Ordering} {r r' : Ranking} {row : Row} {c : WindowChange}

/-- **What an insertion reports is the change of what shows**, off a gap. -/
theorem insert_reports (h : r.insert compare row = .ok (r', c)) (hnodup : r'.elements.Nodup) :
    c.ReportsOffGap r.window r.visible r'.visible := by
  rw [visible_eq_slice, visible_eq_slice]
  rcases insert_cases h with ⟨-, rfl, rfl⟩ | ⟨p, index, hp, rfl, rfl⟩
  · exact .refl _ _
  · exact edges_reportsOffGap (search_missing_le hp) hnodup

/-- A deletion reports what the insertion of the element would, the other way round. -/
theorem delete_eq_flip {p : Nat} (h : search compare r.elements row = .found p) :
    r.delete compare row =
      ({ r with elements := r.elements.eraseIdx p }, (edges r.window p r.elements).flip) := by
  obtain ⟨⟨_, hq⟩, -⟩ | ⟨q, hq, hd⟩ := delete_cases compare r row
  · rw [h] at hq
    cases hq
  rw [h] at hq
  obtain rfl := Place.found.inj hq
  have hlt := search_found_lt h
  have hle : p ≤ (r.elements.eraseIdx p).length := by
    rw [List.length_eraseIdx_of_lt hlt]
    omega
  -- Behind the element, the list before the deletion is one ahead of the list after it.
  have hbehind : ∀ k, p < k → (r.elements.eraseIdx p)[k - 1]? = r.elements[k]? := fun k hk => by
    rw [← getElem?_insertAt_of_lt r.elements[p] hle hk,
      insertAt_eraseIdx (List.getElem?_eq_getElem hlt)]
  have hin : r.window.isBefore p = true →
      (r.window.stop?.bind fun stop =>
        if stop = 0 then none else (r.elements.eraseIdx p)[stop - 1]?) =
      r.window.stop?.bind fun stop => r.elements[stop]? := fun hb => by
    cases hs : r.window.stop? with
    | none => rfl
    | some stop =>
      have hstop : p < stop := Window.isBefore_iff_forall.mp hb _ hs
      rw [Option.bind_some, Option.bind_some, if_neg (by omega), hbehind _ hstop]
  rw [hd, edges]
  split_ifs with hb hs
  · rw [WindowChange.flip, Nat.max_eq_left hs, hin hb]
  · rw [WindowChange.flip, Nat.max_eq_right (by omega), hin hb, hbehind _ (by omega)]
  · rfl

/-- **What a deletion reports is the change of what shows**, off a gap. -/
theorem delete_reports (compare : Value → Value → Ordering) (row : Row)
    (hnodup : r.elements.Nodup) :
    (r.delete compare row).2.ReportsOffGap r.window r.visible
      (r.delete compare row).1.visible := by
  cases h : search compare r.elements row with
  | missing p =>
    rw [delete_of_missing h, visible_eq_slice]
    exact .refl _ _
  | found p =>
    have hlt := search_found_lt h
    have hback := insertAt_eraseIdx (List.getElem?_eq_getElem hlt)
    have hle : p ≤ (r.elements.eraseIdx p).length := by
      rw [List.length_eraseIdx_of_lt hlt]
      omega
    have := edges_reportsOffGap (w := r.window) hle (hback ▸ hnodup)
    rw [hback] at this
    rw [delete_eq_flip h, visible_eq_slice, visible_eq_slice]
    exact this.flip

/-- **A move of the window reports the change of what shows**, in order. -/
theorem moveWindow_reports (hnodup : r.elements.Nodup) (w : Window) :
    (r.moveWindow w).2.Reports r.visible (r.moveWindow w).1.visible := by
  rw [visible_eq_slice, visible_eq_slice]
  exact ⟨newlyIn_eq_filter hnodup r.window w, newlyIn_eq_filter hnodup w r.window⟩

/-! ## After any calls -/

/-- No element is in the ranking twice: their order keys ascend. -/
theorem run_nodup (compare : Value → Value → Ordering) (window : Window) (calls : List Call) :
    (run compare (empty window) calls).elements.Nodup := by
  refine (run_indexed (r := empty window) compare .nil calls).ascending.imp fun {a b} h hab => ?_
  rw [hab] at h
  exact lt_irrefl _ h

/-- **After any calls, what the next call reports is the change of what shows**: an insertion and a
deletion off a gap, and a move of the window always. -/
theorem run_reports (compare : Value → Value → Ordering) (window : Window) (calls : List Call)
    (row : Row) (w : Window) :
    let r := run compare (empty window) calls
    (∀ r' c, r.insert compare row = .ok (r', c) →
      c.ReportsOffGap r.window r.visible r'.visible) ∧
    (r.delete compare row).2.ReportsOffGap r.window r.visible (r.delete compare row).1.visible ∧
    (r.moveWindow w).2.Reports r.visible (r.moveWindow w).1.visible := by
  intro r
  refine ⟨fun r' c h => insert_reports h ?_, delete_reports compare row (run_nodup ..),
    moveWindow_reports (run_nodup ..) w⟩
  have := run_nodup compare window (calls ++ [.insert row])
  rwa [run_concat, perform_of_ok h] at this

/-- A row that comes before a window of one row pushes the row in the window out of it. -/
theorem run_reports_pushed_out :
    let a : Row := ⟨.plain (.bool false), .bool false, none⟩
    let b : Row := ⟨.plain (.bool true), .bool true, none⟩
    let r := run Value.cmp (empty ⟨0, some 1⟩) [.insert b]
    let r' := run Value.cmp (empty ⟨0, some 1⟩) [.insert b, .insert a]
    let c : WindowChange := ⟨some ⟨a, "Zz"⟩, some ⟨b, "a0"⟩⟩
    r.insert Value.cmp a = .ok (r', c) ∧ ¬ r.window.IsGap ∧ c.Reports r.visible r'.visible := by
  intro a b r r' c
  have hinsert : r.insert Value.cmp a = .ok (r', c) := by decide +kernel
  have hgap : ¬ r.window.IsGap := by decide +kernel
  have hreports := (run_reports Value.cmp ⟨0, some 1⟩ [.insert b] a ⟨0, some 1⟩).1 r' c hinsert
  rw [WindowChange.ReportsOffGap, if_neg hgap] at hreports
  exact ⟨hinsert, hgap, hreports⟩

/-- Before a gap, an element is reported to come in and to go out, although nothing shows. -/
theorem insert_misreports_before_gap :
    let a : Row := ⟨.plain (.bool false), .bool false, none⟩
    let b : Row := ⟨.plain (.bool true), .bool true, none⟩
    let r := run Value.cmp (empty ⟨1, some 0⟩) [.insert b]
    let r' := run Value.cmp (empty ⟨1, some 0⟩) [.insert b, .insert a]
    let c : WindowChange := ⟨some ⟨b, "a0"⟩, some ⟨b, "a0"⟩⟩
    r.insert Value.cmp a = .ok (r', c) ∧ r'.visible = [] ∧ ¬ c.Reports r.visible r'.visible := by
  intro a b r r' c
  have hinsert : r.insert Value.cmp a = .ok (r', c) := by decide +kernel
  have hvisible : r'.visible = [] := by decide +kernel
  refine ⟨hinsert, hvisible, fun h => ?_⟩
  have hmem := ((h.moveIn ⟨b, "a0"⟩).mp rfl).1
  rw [hvisible] at hmem
  exact List.not_mem_nil hmem

end Ranking

end DeltaView
