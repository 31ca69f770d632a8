import DeltaView.Proofs.Window.Indexes
import Mathlib.Data.List.Induction

/-!
# Entries of a ranking

An entry is a key with a value: a row without an order key of its own. Under a total preorder of
the values a ranking is the ordered list of the entries that were inserted and not deleted since.

* `bare`: a ranking of the same entries. It takes part in the calls as the ranking itself does
  (`insert_bare`, `delete_bare`), so that what holds of rows without order keys holds of all rows.
* `Remains`: an entry was inserted and has not been deleted since.
* `search_found_iff`: the search finds the entries that are there.
* **`ranking_run_keeps_order`**: order keys ascend and stay after every run of calls, under any
  comparison; under a total preorder the ranking is the ordered list of the entries that remain.
-/

namespace DeltaView

namespace Ranking

open OrderKey

variable {compare : Value → Value → Ordering} {r r' : Ranking} {row : Row}
  {elements : List Ranked}

/-! ## Without order keys of the rows -/

/-- The element of the entry alone. -/
def bareElement (e : Ranked) : Ranked := { e with row := e.row.unordered }

/-- The ranking of the entries alone. -/
def bare (r : Ranking) : Ranking := { r with elements := r.elements.map bareElement }

/-- The entries of a ranking, in order. -/
def entries (r : Ranking) : List Row := r.elements.map (·.row.unordered)

theorem bare_rows (r : Ranking) : r.bare.elements.map (·.row) = r.entries := List.map_map

theorem narrow_map (f : Ranked → Ranked) (isAbove : Ranked → Bool) (elements : List Ranked)
    (base size : Nat) :
    narrow isAbove (elements.map f) base size = narrow (isAbove ∘ f) elements base size := by
  induction size using Nat.strong_induction_on generalizing base with
  | _ size ih =>
    conv_lhs => rw [narrow]
    conv_rhs => rw [narrow]
    split
    · rename_i h1
      dsimp only
      rw [ih _ (by omega), List.getElem?_map, Option.any_map]
      rfl
    · rfl

/-- A search looks at entries only. -/
theorem search_bare (compare : Value → Value → Ordering) (elements : List Ranked) (row : Row) :
    search compare (elements.map bareElement) row.unordered = search compare elements row := by
  have htest : (fun e => compareRows compare e.row row.unordered == .gt) ∘ bareElement =
      fun e => compareRows compare e.row row == .gt := rfl
  unfold search
  dsimp only
  rw [narrow_map, List.length_map, List.getElem?_map, htest]
  cases elements[narrow (fun e => compareRows compare e.row row == .gt) elements 0
    elements.length]? <;> rfl

theorem insert_bare {c : WindowChange} (h : r.insert compare row = .ok (r', c)) :
    ∃ c', r.bare.insert compare row.unordered = .ok (r'.bare, c') := by
  have hindex : ∀ p : Nat, ((r.elements.map bareElement)[p]?).map (·.index) =
      (r.elements[p]?).map (·.index) := fun p => by
    rw [List.getElem?_map, Option.map_map]
    rfl
  have hbefore : ∀ p, indexBefore (r.elements.map bareElement) p = indexBefore r.elements p :=
    fun p => by rw [indexBefore, indexBefore, hindex]
  unfold insert at h ⊢
  rw [show r.bare.elements = r.elements.map bareElement from rfl, search_bare]
  split at h
  · obtain ⟨rfl, -⟩ := Prod.mk.inj (Except.ok.inj h)
    exact ⟨_, rfl⟩
  · rename_i p hp
    dsimp only
    rw [hbefore, hindex]
    split at h
    · cases h
    · obtain ⟨rfl, -⟩ := Prod.mk.inj (Except.ok.inj h)
      rw [← List.map_take, ← List.map_drop]
      simp only [bare, List.map_append, List.map_cons]
      exact ⟨_, rfl⟩

theorem delete_bare (compare : Value → Value → Ordering) (r : Ranking) (row : Row) :
    (r.bare.delete compare row.unordered).1 = (r.delete compare row).1.bare := by
  unfold delete
  rw [show r.bare.elements = r.elements.map bareElement from rfl, search_bare]
  split
  · rfl
  · rename_i p hp
    dsimp only [bare]
    rw [List.eraseIdx_map]

/-! ## Ordered entries -/

variable [Std.TransCmp compare]

/-- The entries ascend. -/
def Sorted (compare : Value → Value → Ordering) (r : Ranking) : Prop :=
  Ordered compare (fun _ => True) r.bare.elements

omit [Std.TransCmp compare] in
theorem rankable_unordered (row : Row) : Rankable (fun _ => True) row.unordered := ⟨rfl, trivial⟩

/-- **A search finds the entries that are there.** -/
theorem search_found_iff (h : Sorted compare r) :
    (∃ p, search compare r.elements row = .found p) ↔ row.unordered ∈ r.entries := by
  constructor
  · rintro ⟨p, hp⟩
    obtain ⟨e, he, hrow⟩ := search_found_eq hp
    exact List.mem_map.mpr ⟨e, List.mem_of_getElem? he, hrow⟩
  · intro hmem
    cases hs : search compare r.elements row with
    | found p => exact ⟨p, rfl⟩
    | missing p =>
      -- The deletion does nothing, although it leaves no element of the entry.
      obtain ⟨-, hgone⟩ := delete_spec (PreorderOn.of_transCmp compare _) h (rankable_unordered row)
      rw [delete_bare, delete_of_missing hs] at hgone
      obtain ⟨e, he, hrow⟩ := List.mem_map.mp (bare_rows r ▸ hmem)
      exact absurd hrow ((hgone e).mp he).2

theorem insert_sorted (h : Sorted compare r) {c : WindowChange}
    (hi : r.insert compare row = .ok (r', c)) :
    Sorted compare r' ∧ ∀ x, x ∈ r'.entries ↔ x ∈ r.entries ∨ x = row.unordered := by
  obtain ⟨c', hi'⟩ := insert_bare hi
  obtain ⟨hsorted, -, hrows⟩ :=
    insert_spec (PreorderOn.of_transCmp compare _) h (rankable_unordered row) hi'
  rw [bare_rows, bare_rows] at hrows
  exact ⟨hsorted, hrows⟩

theorem delete_sorted (h : Sorted compare r) (row : Row) :
    Sorted compare (r.delete compare row).1 ∧
      ∀ x, x ∈ (r.delete compare row).1.entries ↔ x ∈ r.entries ∧ x ≠ row.unordered := by
  obtain ⟨hsorted, hmem⟩ :=
    delete_spec (PreorderOn.of_transCmp compare _) h (rankable_unordered row)
  rw [delete_bare] at hsorted hmem
  refine ⟨hsorted, fun x => ?_⟩
  rw [← bare_rows, ← bare_rows, List.mem_map, List.mem_map]
  simp only [hmem]
  constructor
  · rintro ⟨e, ⟨he, hne⟩, rfl⟩
    exact ⟨⟨e, he, rfl⟩, hne⟩
  · rintro ⟨⟨e, he, rfl⟩, hne⟩
    exact ⟨e, ⟨he, hne⟩, rfl⟩

/-- Ordered entries are different ones. -/
theorem Sorted.nodup (h : Sorted compare r) : r.entries.Nodup := by
  rw [← bare_rows]
  refine List.pairwise_map.mpr (h.sorted.imp_of_mem fun {a b} ha hb hab heq => ?_)
  rw [(compareRows_eq_iff (PreorderOn.of_transCmp compare _) (h.rankable a ha)
    (h.rankable b hb)).mpr heq] at hab
  cases hab

omit [Std.TransCmp compare] in
theorem Sorted.pairwise (h : Sorted compare r) :
    r.elements.Pairwise fun a b => compareRows compare a.row b.row = .lt :=
  List.pairwise_map.mp h.sorted

/-! ## Entries that remain -/

/-- The entry of a row was inserted by one of the calls and not deleted by a later one. -/
def Remains (compare : Value → Value → Ordering) (r : Ranking) (row : Row)
    (calls : List Call) : Prop :=
  ∃ before inserted after, calls = before ++ .insert inserted :: after ∧
    inserted.unordered = row.unordered ∧
    (∃ result, (run compare r before).insert compare inserted = .ok result) ∧
    ∀ deleted, .delete deleted ∈ after → deleted.unordered ≠ row.unordered

omit [Std.TransCmp compare] in
/-- An entry remains if the last call inserted it, or if it remained and was not deleted. -/
theorem remains_concat {calls : List Call} {call : Call} :
    Remains compare r row (calls ++ [call]) ↔
      (∃ inserted, call = .insert inserted ∧ inserted.unordered = row.unordered ∧
        ∃ result, (run compare r calls).insert compare inserted = .ok result) ∨
      (Remains compare r row calls ∧
        ∀ deleted, call = .delete deleted → deleted.unordered ≠ row.unordered) := by
  constructor
  · rintro ⟨before, inserted, after, hcalls, hrow, hok, hlater⟩
    rcases List.eq_nil_or_concat after with rfl | ⟨after, last, rfl⟩
    · obtain ⟨rfl, hlast⟩ := List.append_inj' hcalls rfl
      exact Or.inl ⟨inserted, List.head_eq_of_cons_eq hlast, hrow, hok⟩
    · rw [List.concat_eq_append] at hcalls hlater
      rw [← List.cons_append, ← List.append_assoc] at hcalls
      obtain ⟨rfl, hlast⟩ := List.append_inj' hcalls rfl
      obtain rfl := List.head_eq_of_cons_eq hlast
      refine Or.inr ⟨⟨before, inserted, after, rfl, hrow, hok, fun deleted hd =>
        hlater deleted (List.mem_append_left _ hd)⟩, ?_⟩
      rintro deleted rfl
      exact hlater deleted (List.mem_append_right _ List.mem_cons_self)
  · rintro (⟨inserted, rfl, hrow, hok⟩ | ⟨⟨before, inserted, after, rfl, hrow, hok, hlater⟩, hlast⟩)
    · exact ⟨calls, inserted, [], rfl, hrow, hok, by simp⟩
    · refine ⟨before, inserted, after ++ [call], by simp, hrow, hok, fun deleted hd => ?_⟩
      rcases List.mem_append.mp hd with hd | hd
      · exact hlater deleted hd
      · exact hlast deleted (List.mem_singleton.mp hd).symm

variable (compare) in
/-- **After any calls the entries that remain are there, in order.** -/
theorem run_sorted (window : Window) (calls : List Call) :
    Sorted compare (run compare (empty window) calls) ∧
      ∀ row, row.unordered ∈ (run compare (empty window) calls).entries ↔
        Remains compare (empty window) row calls := by
  induction calls using List.reverseRecOn with
  | nil =>
    refine ⟨Ordered.nil, fun row => ⟨fun h => absurd h List.not_mem_nil, ?_⟩⟩
    rintro ⟨before, inserted, after, hcalls, -⟩
    exact absurd hcalls (by simp)
  | append_singleton calls call ih =>
    obtain ⟨hsorted, hmem⟩ := ih
    simp only [run_concat, remains_concat, ← hmem]
    generalize run compare (empty window) calls = r at hsorted
    cases call with
    | insert inserted =>
      cases hi : r.insert compare inserted with
      | error fault =>
        rw [perform_of_error hi]
        exact ⟨hsorted, fun row => by simp [hi]⟩
      | ok result =>
        obtain ⟨r', c⟩ := result
        obtain ⟨hsorted', hentries⟩ := insert_sorted hsorted hi
        rw [perform_of_ok hi]
        refine ⟨hsorted', fun row => ?_⟩
        rw [hentries]
        simp [hi, or_comm, eq_comm]
    | delete deleted =>
      obtain ⟨hsorted', hentries⟩ := delete_sorted hsorted deleted
      refine ⟨hsorted', fun row => (hentries _).trans ?_⟩
      simp [eq_comm]
    | moveWindow w => exact ⟨hsorted, fun row => by simp [perform, moveWindow, entries]⟩

omit [Std.TransCmp compare] in
/-- **Order keys ascend and stay.** After any calls from the empty ranking, in which an insertion
that fails changes nothing, the order keys ascend in byte order, no call does more to the elements
than put its row in or take one element of its entry out, and an element stays with its order key
until a deletion takes it out; all this whatever the rows are compared by.

Under a total preorder of the values the elements are strictly sorted, each entry that was inserted
and not deleted since is there once and no other, and inserting one that is there or deleting one
that is not changes nothing. -/
theorem ranking_run_keeps_order (compare : Value → Value → Ordering) (window : Window)
    (calls : List Call) :
    let r := run compare (empty window) calls
    (r.elements.Pairwise fun a b => bytes a.index < bytes b.index) ∧
      (∀ call, Changes r.elements (perform compare r call).elements call) ∧
      (∀ later, ∀ e ∈ r.elements,
        e ∈ (run compare r later).elements ∨ TakenOut compare r e later) ∧
      (Std.TransCmp compare →
        (r.elements.Pairwise fun a b => compareRows compare a.row b.row = .lt) ∧
          r.entries.Nodup ∧
          (∀ row, row.unordered ∈ r.entries ↔ Remains compare (empty window) row calls) ∧
          (∀ row, row.unordered ∈ r.entries → r.insert compare row = .ok (r, {})) ∧
          ∀ row, row.unordered ∉ r.entries → r.delete compare row = (r, {})) := by
  intro r
  refine ⟨(run_indexed compare .nil calls).ascending, perform_changes compare r,
    fun later e he => run_keeps he later, fun _ => ?_⟩
  obtain ⟨hsorted, hentries⟩ := run_sorted compare window calls
  refine ⟨hsorted.pairwise, hsorted.nodup, hentries, fun row hrow => ?_, fun row hrow => ?_⟩
  · obtain ⟨p, hp⟩ := (search_found_iff hsorted).mpr hrow
    exact insert_of_found hp
  · cases hs : search compare r.elements row with
    | found p => exact absurd ((search_found_iff hsorted).mp ⟨p, hs⟩) hrow
    | missing p => exact delete_of_missing hs

/-- A row that is deleted and comes back; the other one is there all along. -/
theorem ranking_run_keeps_order_two_rows :
    let a : Row := ⟨.plain (.bool false), .bool false, none⟩
    let b : Row := ⟨.plain (.bool true), .bool true, none⟩
    let r := run Value.cmp (empty ⟨1, some 1⟩) [.insert b, .insert a, .delete b, .insert b]
    Std.TransCmp Value.cmp ∧ r.elements = [⟨a, "Zz"⟩, ⟨b, "a0"⟩] ∧
      (r.elements.Pairwise fun a b => bytes a.index < bytes b.index) ∧
      (r.elements.Pairwise fun a b => compareRows Value.cmp a.row b.row = .lt) ∧
      r.insert Value.cmp a = .ok (r, {}) := by
  intro a b r
  have htrans : Std.TransCmp Value.cmp := inferInstance
  have helements : r.elements = [⟨a, "Zz"⟩, ⟨b, "a0"⟩] := by decide +kernel
  obtain ⟨hindexes, -, -, hsorted⟩ := ranking_run_keeps_order Value.cmp ⟨1, some 1⟩
    [.insert b, .insert a, .delete b, .insert b]
  obtain ⟨hrows, -, -, hagain, -⟩ := hsorted htrans
  have ha : a.unordered ∈ r.entries := by
    rw [entries, helements]
    exact List.mem_cons_self
  exact ⟨htrans, helements, hindexes, hrows, hagain a ha⟩

end Ranking

end DeltaView
