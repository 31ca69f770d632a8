import DeltaView.Proofs.Window.Search
import DeltaView.Proofs.Window.Visible

/-!
# Incremental windows are exact

A window operator keeps the rows with a positive multiplicity in order and emits, for every step,
the change of what shows.

* `insert_spec`, `delete_spec`: which elements a ranking has after an operation; those that stay
  keep their order key.
* `Holds compare S s d`: after the change `d` of the rows, the counts are its totals and the
  ranking is the ordered list of its positive rows.
* `StepsTo`, **`step_exact`**: a step keeps this, and puts out, consolidated, what shows after it
  without what showed before it.
-/

namespace DeltaView

open Ranking

variable {compare : Value → Value → Ordering} {S : Value → Prop}

/-! ## Single rows -/

namespace Ranking

variable {r : Ranking} {row : Row}

theorem mem_insertAt {elements : List Ranked} {p : Nat} {e x : Ranked} :
    x ∈ insertAt elements p e ↔ x = e ∨ x ∈ elements := by
  rw [insertAt, List.mem_append, List.mem_cons]
  conv_rhs => rw [← List.take_append_drop p elements, List.mem_append]
  tauto

/-- **An insertion adds the row in order**, and all elements stay as they are. -/
theorem insert_spec (hc : PreorderOn compare S) (h : Ordered compare S r.elements)
    (hrow : Rankable S row) {r' : Ranking} {c : WindowChange}
    (hi : r.insert compare row = .ok (r', c)) :
    Ordered compare S r'.elements ∧ (∀ e ∈ r.elements, e ∈ r'.elements) ∧
      ∀ x, x ∈ r'.elements.map (·.row) ↔ x ∈ r.elements.map (·.row) ∨ x = row := by
  have hfit := search_spec hc h hrow
  rcases insert_cases hi with ⟨⟨p, hp⟩, rfl, -⟩ | ⟨p, index, hp, rfl, -⟩
  · rw [hp] at hfit
    obtain ⟨e, he, rfl⟩ := hfit
    refine ⟨h, fun _ => id, fun x => ⟨Or.inl, ?_⟩⟩
    rintro (hx | rfl)
    · exact hx
    · exact List.mem_map.mpr ⟨e, List.mem_of_getElem? he, rfl⟩
  · rw [hp] at hfit
    obtain ⟨hle, hbelow, habove⟩ := hfit
    refine ⟨⟨fun e he => ?_, ?_⟩, fun e he => mem_insertAt.mpr (Or.inr he), fun x => ?_⟩
    · rcases mem_insertAt.mp he with rfl | he
      · exact hrow
      · exact h.rankable e he
    · have hs := h.sorted
      rw [← List.take_append_drop p r.elements, List.pairwise_append] at hs
      obtain ⟨hs1, hs2, hs3⟩ := hs
      show (insertAt r.elements p ⟨row, index⟩).Pairwise _
      rw [insertAt, List.pairwise_append, List.pairwise_cons]
      refine ⟨hs1, ⟨habove, hs2⟩, fun a ha b hb => ?_⟩
      rcases List.mem_cons.mp hb with rfl | hb
      · exact hbelow a ha
      · exact hs3 a ha b hb
    · show x ∈ (insertAt r.elements p ⟨row, index⟩).map (·.row) ↔ _
      simp only [List.mem_map, mem_insertAt]
      constructor
      · rintro ⟨e, rfl | he, rfl⟩
        · exact Or.inr rfl
        · exact Or.inl ⟨e, he, rfl⟩
      · rintro (⟨e, he, rfl⟩ | rfl)
        · exact ⟨e, Or.inr he, rfl⟩
        · exact ⟨_, Or.inl rfl, rfl⟩

/-- In an ordered list no row stands twice. -/
theorem Ordered.row_injective (hc : PreorderOn compare S) {elements : List Ranked}
    (h : Ordered compare S elements) {i j : Nat} {a b : Ranked} (hi : elements[i]? = some a)
    (hj : elements[j]? = some b) (hrow : a.row = b.row) : i = j := by
  have hne : ∀ {x y : Ranked}, x ∈ elements → y ∈ elements → x.row = y.row →
      compareRows compare x.row y.row ≠ .lt := fun hx hy e hlt => by
    rw [(compareRows_eq_iff hc (h.rankable _ hx) (h.rankable _ hy)).mpr e] at hlt
    exact absurd hlt (by decide)
  have ha := List.mem_of_getElem? hi
  have hb := List.mem_of_getElem? hj
  rcases Nat.lt_trichotomy i j with hlt | heq | hgt
  · exact absurd (h.lt_of_lt hlt hi hj) (hne ha hb hrow)
  · exact heq
  · exact absurd (h.lt_of_lt hgt hj hi) (hne hb ha hrow.symm)

/-- **A deletion takes out the row**, and all other elements stay as they are. -/
theorem delete_spec (hc : PreorderOn compare S) (h : Ordered compare S r.elements)
    (hrow : Rankable S row) :
    Ordered compare S (r.delete compare row).1.elements ∧
      ∀ e, e ∈ (r.delete compare row).1.elements ↔ e ∈ r.elements ∧ e.row ≠ row := by
  have hfit := search_spec hc h hrow
  rcases delete_cases compare r row with ⟨⟨p, hp⟩, hd⟩ | ⟨p, hp, hd⟩
  · rw [hp] at hfit
    obtain ⟨-, hbelow, habove⟩ := hfit
    rw [hd]
    refine ⟨h, fun e => ⟨fun he => ⟨he, ?_⟩, And.left⟩⟩
    rintro rfl
    have hself := (compareRows_eq_iff hc hrow hrow).mpr rfl
    have hsplit := he
    rw [← List.take_append_drop p r.elements, List.mem_append] at hsplit
    rcases hsplit with he' | he'
    · rw [hbelow e he'] at hself
      exact absurd hself (by decide)
    · rw [habove e he'] at hself
      exact absurd hself (by decide)
  · rw [hp] at hfit
    obtain ⟨x, hx, rfl⟩ := hfit
    rw [hd]
    refine ⟨h.sublist (List.eraseIdx_sublist ..), fun e => ?_⟩
    rw [List.mem_eraseIdx_iff_getElem?]
    constructor
    · rintro ⟨i, hne, hi⟩
      exact ⟨List.mem_of_getElem? hi, fun he => hne (h.row_injective hc hi hx he)⟩
    · rintro ⟨he, hne⟩
      obtain ⟨i, hi⟩ := List.mem_iff_getElem?.mp he
      refine ⟨i, fun hip => hne ?_, hi⟩
      rw [hip] at hi
      rw [Option.some.inj (hi.symm.trans hx)]

end Ranking

namespace WindowState

variable {M : Type}

/-! ## Requests -/

/-- The window that is in force once the waiting requests are applied. -/
def target (s : WindowState M) : Window := s.pending.elim s.window (·.apply s.window)

theorem apply_merge (u v : Window.Update) (w : Window) :
    (u.merge v).apply w = v.apply (u.apply w) := by
  obtain ⟨o, l⟩ := u
  obtain ⟨o', l'⟩ := v
  cases o <;> cases o' <;> cases l <;> cases l' <;> rfl

/-- A request is applied after those that wait already. -/
theorem request_target (s : WindowState M) (u : Window.Update) :
    (s.request u).target = u.apply s.target := by
  unfold request target
  cases s.pending with
  | none => rfl
  | some p => exact apply_merge p u s.window

theorem foldl_request (s : WindowState M) (requests : List Window.Update) :
    (requests.foldl request s).target = requests.foldl (fun w u => u.apply w) s.target ∧
      (requests.foldl request s).ranking = s.ranking ∧
      (requests.foldl request s).counts = s.counts := by
  induction requests generalizing s with
  | nil => exact ⟨rfl, rfl, rfl⟩
  | cons u requests ih =>
    obtain ⟨ht, hr, hc⟩ := ih (s.request u)
    rw [request_target] at ht
    exact ⟨ht, hr, hc⟩

variable [CommRing M]

/-! ## Several rows -/

theorem deleteAll_spec (hc : PreorderOn compare S) {rows : List Row}
    (hrows : ∀ x ∈ rows, Rankable S x) {r : Ranking} (h : Ordered compare S r.elements) :
    Ordered compare S (deleteAll (M := M) compare r rows).1.elements ∧
      ∀ e, e ∈ (deleteAll (M := M) compare r rows).1.elements ↔ e ∈ r.elements ∧ e.row ∉ rows := by
  induction rows generalizing r with
  | nil => exact ⟨h, fun e => by simp [deleteAll]⟩
  | cons x rows ih =>
    obtain ⟨h1, hm1⟩ := delete_spec hc h (hrows x List.mem_cons_self)
    obtain ⟨h2, hm2⟩ := ih (fun y hy => hrows y (List.mem_cons_of_mem _ hy)) h1
    refine ⟨h2, fun e => (hm2 e).trans ?_⟩
    rw [hm1, List.mem_cons, not_or, and_assoc]

theorem deleteAll_change (compare : Value → Value → Ordering) (f : Row → M) (rows : List Row)
    (r : Ranking) :
    Delta.weigh f (deleteAll (M := M) compare r rows).2 =
      Delta.weigh f (shown (deleteAll (M := M) compare r rows).1.visible) -
        Delta.weigh f (shown r.visible) := by
  induction rows generalizing r with
  | nil => exact (sub_self _).symm
  | cons x rows ih =>
    show Delta.weigh f (emitChange (r.delete compare x).2 ++
        (deleteAll (M := M) compare (r.delete compare x).1 rows).2) =
      Delta.weigh f (shown (deleteAll (M := M) compare (r.delete compare x).1 rows).1.visible) - _
    rw [Delta.weigh_append, ih, delete_change]
    ring

/-- What several insertions that succeed are made of. -/
theorem insertAll_cons {r r'' : Ranking} {x : Row} {rows : List Row} {out : Delta Row M}
    (h : insertAll compare r (x :: rows) = .ok (r'', out)) :
    ∃ r' c rest, r.insert compare x = .ok (r', c) ∧
      insertAll compare r' rows = .ok (r'', rest) ∧ out = emitChange c ++ rest := by
  unfold insertAll at h
  split at h
  · exact absurd h (by simp)
  · rename_i r' c hins
    split at h
    · exact absurd h (by simp)
    · rename_i r2 rest hrest
      obtain ⟨rfl, rfl⟩ := Prod.mk.inj (Except.ok.inj h)
      exact ⟨r', c, rest, hins, hrest, rfl⟩

theorem insertAll_spec (hc : PreorderOn compare S) {rows : List Row}
    (hrows : ∀ x ∈ rows, Rankable S x) {r r' : Ranking} {out : Delta Row M}
    (h : Ordered compare S r.elements) (hi : insertAll compare r rows = .ok (r', out)) :
    Ordered compare S r'.elements ∧ (∀ e ∈ r.elements, e ∈ r'.elements) ∧
      ∀ x, x ∈ r'.elements.map (·.row) ↔ x ∈ r.elements.map (·.row) ∨ x ∈ rows := by
  induction rows generalizing r out with
  | nil =>
    obtain ⟨rfl, rfl⟩ := Prod.mk.inj (Except.ok.inj hi)
    exact ⟨h, fun _ => id, fun x => by simp⟩
  | cons x rows ih =>
    obtain ⟨r1, c, rest, hins, hrest, -⟩ := insertAll_cons hi
    obtain ⟨h1, hk1, hm1⟩ := insert_spec hc h (hrows x List.mem_cons_self) hins
    obtain ⟨h2, hk2, hm2⟩ := ih (fun y hy => hrows y (List.mem_cons_of_mem _ hy)) h1 hrest
    refine ⟨h2, fun e he => hk2 e (hk1 e he), fun y => (hm2 y).trans ?_⟩
    rw [hm1, List.mem_cons, or_assoc]

/-! ## The window in force -/

theorem insert_window {r r' : Ranking} {row : Row} {c : WindowChange}
    (h : r.insert compare row = .ok (r', c)) : r'.window = r.window := by
  rcases insert_cases h with ⟨-, rfl, -⟩ | ⟨p, index, -, rfl, -⟩ <;> rfl

theorem delete_window (r : Ranking) (row : Row) :
    (r.delete compare row).1.window = r.window := by
  rcases delete_cases compare r row with ⟨-, h⟩ | ⟨p, -, h⟩ <;> rw [h]

theorem deleteAll_window (r : Ranking) (rows : List Row) :
    (deleteAll (M := M) compare r rows).1.window = r.window := by
  induction rows generalizing r with
  | nil => rfl
  | cons x rows ih => exact (ih _).trans (delete_window r x)

theorem insertAll_window {rows : List Row} {r r' : Ranking} {out : Delta Row M}
    (hi : insertAll compare r rows = .ok (r', out)) : r'.window = r.window := by
  induction rows generalizing r out with
  | nil =>
    obtain ⟨rfl, rfl⟩ := Prod.mk.inj (Except.ok.inj hi)
    rfl
  | cons x rows ih =>
    obtain ⟨r1, c, rest, hins, hrest, -⟩ := insertAll_cons hi
    exact (ih hrest).trans (insert_window hins)

theorem insertAll_change (f : Row → M) {rows : List Row} {r r' : Ranking} {out : Delta Row M}
    (hi : insertAll compare r rows = .ok (r', out)) :
    Delta.weigh f out = Delta.weigh f (shown r'.visible) - Delta.weigh f (shown r.visible) := by
  induction rows generalizing r out with
  | nil =>
    obtain ⟨rfl, rfl⟩ := Prod.mk.inj (Except.ok.inj hi)
    exact (sub_self _).symm
  | cons x rows ih =>
    obtain ⟨r1, c, rest, hins, hrest, rfl⟩ := insertAll_cons hi
    rw [Delta.weigh_append, ih hrest, insert_change hins]
    ring

theorem applyPending_spec (s : WindowState M) :
    s.applyPending.1.ranking.elements = s.ranking.elements ∧
      s.applyPending.1.counts = s.counts ∧ s.applyPending.1.pending = none ∧
      s.applyPending.1.window = s.target ∧
      ∀ f, Delta.weigh f s.applyPending.2 =
        Delta.weigh f (shown s.applyPending.1.ranking.visible) -
          Delta.weigh f (shown s.ranking.visible) := by
  unfold applyPending target
  cases h : s.pending with
  | none => exact ⟨rfl, rfl, h, rfl, fun f => (sub_self _).symm⟩
  | some u => exact ⟨rfl, rfl, rfl, rfl, moveWindow_change s.ranking (u.apply s.window)⟩

/-! ## A step -/

omit [CommRing M] in
theorem visible_start (window : Window) : (start window : WindowState M).ranking.visible = [] := by
  rw [visible_eq_slice, show (start window : WindowState M).ranking.elements = [] from rfl,
    Window.slice_nil]

theorem unordered_of_total_ne_zero {d : Delta Row M} {r : Row}
    (h : Delta.total r (Delta.mapItems Row.unordered d) ≠ 0) : r.order = none := by
  obtain ⟨m, hm⟩ := Delta.exists_mem_of_total_ne_zero h
  obtain ⟨⟨x, n⟩, -, hx⟩ := List.mem_map.mp hm
  obtain ⟨rfl, -⟩ := Prod.mk.inj hx
  rfl

/-- The rows of elements that were kept by their rows. -/
theorem mem_rows_of_filter {elements elements' : List Ranked} {rows : List Row}
    (h : ∀ e, e ∈ elements' ↔ e ∈ elements ∧ e.row ∉ rows) {r : Row} :
    r ∈ elements'.map (·.row) ↔ r ∈ elements.map (·.row) ∧ r ∉ rows := by
  rw [List.mem_map, List.mem_map]
  constructor
  · rintro ⟨e, he, rfl⟩
    obtain ⟨hm, hn⟩ := (h e).mp he
    exact ⟨⟨e, hm, rfl⟩, hn⟩
  · rintro ⟨⟨e, hm, rfl⟩, hn⟩
    exact ⟨e, (h e).mpr ⟨hm, hn⟩, rfl⟩

theorem mem_sortRows {rows : List Row} {r : Row} : r ∈ sortRows compare rows ↔ r ∈ rows :=
  (insertionSort_perm _ _).mem_iff

variable [LinearOrder M]

/-- The counts are the totals of a change, and the ranking is the ordered list of the rows that
are there after it. -/
structure Holds (compare : Value → Value → Ordering) (S : Value → Prop) (s : WindowState M)
    (d : Delta Row M) : Prop where
  ordered : Ordered compare S s.ranking.elements
  counts : s.counts.Consolidated
  total : Delta.Same s.counts d
  present : ∀ r, r ∈ s.ranking.elements.map (·.row) ↔ 0 < Delta.total r d

theorem Holds.start (compare : Value → Value → Ordering) (S : Value → Prop) (window : Window) :
    Holds (M := M) compare S (start window) [] :=
  ⟨Ordered.nil, Delta.Consolidated.nil, .refl _, fun r => by
    simp [WindowState.start, empty, Delta.total]⟩

theorem Holds.congr {s : WindowState M} {d e : Delta Row M} (h : Holds compare S s d)
    (hs : Delta.Same d e) : Holds compare S s e :=
  ⟨h.ordered, h.counts, h.total.trans hs, fun r => by rw [h.present, hs r]⟩

/-- A summand that takes a sum above zero, or down from there, is not zero. -/
theorem ne_zero_of_pos_changes {m n : M} (h : ¬ (0 < m ↔ 0 < m + n)) : n ≠ 0 := by
  rintro rfl
  exact h (by rw [add_zero])

theorem mem_appearing {counts d : Delta Row M} (hd : d.Consolidated) {r : Row} :
    r ∈ appearing counts d ↔
      ¬ 0 < Delta.total r counts ∧ 0 < Delta.total r counts + Delta.total r d := by
  unfold appearing
  rw [List.mem_map]
  constructor
  · rintro ⟨⟨x, m⟩, hx, rfl⟩
    obtain ⟨hx, hp⟩ := List.mem_filter.mp hx
    rw [(hd.mem_iff.mp hx).2]
    simpa using hp
  · rintro ⟨h1, h2⟩
    refine ⟨(r, Delta.total r d), List.mem_filter.mpr ⟨?_, by simpa using ⟨not_lt.mp h1, h2⟩⟩, rfl⟩
    exact hd.mem_iff.mpr ⟨ne_zero_of_pos_changes fun h => h1 (h.mpr h2), rfl⟩

theorem mem_disappearing {counts d : Delta Row M} (hd : d.Consolidated) {r : Row} :
    r ∈ disappearing counts d ↔
      0 < Delta.total r counts ∧ ¬ 0 < Delta.total r counts + Delta.total r d := by
  unfold disappearing
  rw [List.mem_map]
  constructor
  · rintro ⟨⟨x, m⟩, hx, rfl⟩
    obtain ⟨hx, hp⟩ := List.mem_filter.mp hx
    rw [(hd.mem_iff.mp hx).2]
    simpa using hp
  · rintro ⟨h1, h2⟩
    refine ⟨(r, Delta.total r d), List.mem_filter.mpr ⟨?_, by simpa using ⟨h1, not_lt.mp h2⟩⟩, rfl⟩
    exact hd.mem_iff.mpr ⟨ne_zero_of_pos_changes fun h => h2 (h.mp h1), rfl⟩

/-- The rows that are there after a change: those that stay, and those that appear. -/
theorem present_after_iff {counts d : Delta Row M} (hd : d.Consolidated) {r : Row} :
    (0 < Delta.total r counts ∧ r ∉ disappearing counts d) ∨ r ∈ appearing counts d ↔
      0 < Delta.total r counts + Delta.total r d := by
  rw [mem_appearing hd, mem_disappearing hd]
  tauto

variable [DecidableEq M]

/-- **The ranking is the list of the rows that are there**, in order. -/
theorem Holds.rows_eq (hc : PreorderOn compare S) {s : WindowState M} {d : Delta Row M}
    (h : Holds compare S s d) : s.ranking.elements.map (·.row) = rankedRows compare d := by
  refine eq_rankedRows hc (fun r hr => ?_) ?_ h.present
  · obtain ⟨e, he, rfl⟩ := List.mem_map.mp hr
    exact h.ordered.rankable e he
  · exact List.pairwise_map.mpr h.ordered.sorted

/-- What a step that succeeds is made of. -/
theorem step_cases {s s' : WindowState M} {d out : Delta Row M}
    (h : s.step compare d = .ok (s', out)) :
    let change := Delta.consolidate (Delta.mapItems Row.unordered d)
    let moved := s.applyPending
    let deleted := deleteAll compare moved.1.ranking
      (sortRows compare (disappearing moved.1.counts change))
    ∃ ranking ins, insertAll compare deleted.1
        (sortRows compare (appearing moved.1.counts change)) = .ok (ranking, ins) ∧
      s' = { moved.1 with
        ranking, counts := change.foldl (fun c (r, m) => Delta.adjust r m c) moved.1.counts } ∧
      out = Delta.consolidate (moved.2 ++ deleted.2 ++ ins) := by
  intro change moved deleted
  unfold step at h
  dsimp only at h
  split at h
  · exact absurd h (by simp)
  · rename_i ranking ins hins
    obtain ⟨rfl, rfl⟩ := Prod.mk.inj (Except.ok.inj h)
    exact ⟨ranking, ins, hins, rfl, rfl⟩

/-- A step on the change `e`, after those that make up `d`: the rows are there that are there after
it, the window is in force, rows that stay keep their order keys, and what is put out is,
consolidated, the change of what shows. -/
structure StepsTo (compare : Value → Value → Ordering) (S : Value → Prop) (s s' : WindowState M)
    (window : Window) (d e out : Delta Row M) : Prop where
  holds : Holds compare S s' (d ++ Delta.mapItems Row.unordered e)
  inForce : s'.window = window
  settled : s'.pending = none
  kept : ∀ x ∈ s.ranking.elements, x.row ∈ s'.ranking.elements.map (·.row) →
    x ∈ s'.ranking.elements
  consolidated : out.Consolidated
  change : ∀ f, Delta.weigh f out =
    Delta.weigh f (shown s'.ranking.visible) - Delta.weigh f (shown s.ranking.visible)

/-- **A step puts out the change of what shows**, consolidated, and leaves the ranking as the
ordered list of the rows that are there after it. The comparison has to be an order on the values
of the rows that the step changes. -/
theorem step_exact (hc : PreorderOn compare S) {s s' : WindowState M} {d e out : Delta Row M}
    (h : Holds compare S s d) (hs : s.step compare e = .ok (s', out))
    (hvalues : ∀ r, Delta.total r (Delta.mapItems Row.unordered e) ≠ 0 → S r.value) :
    StepsTo compare S s s' s.target d e out := by
  obtain ⟨hel, hcounts, hpending, hwindow, hmoved⟩ := applyPending_spec s
  obtain ⟨ranking, ins, hins, rfl, rfl⟩ := step_cases hs
  have hchange := Delta.consolidated_consolidate (Delta.mapItems Row.unordered e)
  have hsame := Delta.same_consolidate (Delta.mapItems Row.unordered e)
  generalize Delta.consolidate (Delta.mapItems Row.unordered e) = change at hchange hsame hins ⊢
  rw [hcounts] at hins ⊢
  have hrank : ∀ r, Delta.total r change ≠ 0 → Rankable S r := fun r hr => by
    rw [hsame r] at hr
    exact ⟨unordered_of_total_ne_zero hr, hvalues r hr⟩
  have hgone : ∀ r ∈ sortRows compare (disappearing s.counts change), Rankable S r :=
    fun r hr => hrank r (by
      obtain ⟨h1, h2⟩ := (mem_disappearing hchange).mp (mem_sortRows.mp hr)
      exact ne_zero_of_pos_changes fun h => h2 (h.mp h1))
  obtain ⟨hdel, hdelm⟩ := deleteAll_spec (M := M) hc hgone (r := s.applyPending.1.ranking)
    (by rw [hel]; exact h.ordered)
  obtain ⟨hadd, haddk, haddm⟩ := insertAll_spec hc (fun r hr => hrank r (by
      obtain ⟨h1, h2⟩ := (mem_appearing hchange).mp (mem_sortRows.mp hr)
      exact ne_zero_of_pos_changes fun h => h1 (h.mpr h2))) hdel hins
  obtain ⟨hcons, htotal⟩ := Delta.adjust_foldl s.counts change h.counts
  have hpresent : ∀ r, r ∈ ranking.elements.map (·.row) ↔
      0 < Delta.total r s.counts + Delta.total r change := fun r => by
    rw [haddm, mem_rows_of_filter hdelm, hel, h.present, ← h.total r, mem_sortRows, mem_sortRows,
      present_after_iff hchange]
  refine ⟨⟨hadd, hcons, fun r => ?_, fun r => ?_⟩, ?_, hpending, ?_,
    Delta.consolidated_consolidate _, fun f => ?_⟩
  · rw [htotal, Delta.total_append, h.total r, hsame r]
  · rw [hpresent, Delta.total_append, h.total r, hsame r]
  · exact (insertAll_window hins).trans ((deleteAll_window (M := M) ..).trans hwindow)
  · intro x hx hstay
    refine haddk x ((hdelm x).mpr ⟨by rw [hel]; exact hx, fun hgone => ?_⟩)
    exact ((mem_disappearing hchange).mp (mem_sortRows.mp hgone)).2 ((hpresent x.row).mp hstay)
  · rw [(Delta.same_consolidate _).weigh, Delta.weigh_append, Delta.weigh_append, hmoved,
      deleteAll_change, insertAll_change f hins]
    ring

end WindowState

end DeltaView
