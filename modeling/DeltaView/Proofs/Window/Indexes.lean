import DeltaView.Proofs.OrderKey.Between
import DeltaView.Proofs.Window.Step

/-!
# Order keys of a ranking

A row gets its order key when it comes, from its neighbours at that time, and keeps it for as long
as it stays. What is on screen is put in order by these keys alone, so they have to ascend whatever
the rows are compared by.

* `Changes`: what a call may do to the elements; **`perform_changes`** says that no call does more.
* `Indexed`: order keys that ascend; **`perform_indexed`** says that every call keeps them so.
* **`run_keeps`**: an element stays with its order key until a deletion takes it out.
-/

namespace DeltaView

namespace Ranking

open OrderKey

variable {compare : Value → Value → Ordering} {r r' : Ranking} {row : Row}
  {elements : List Ranked} {e : Ranked}

/-! ## Calls -/

/-- A call of a ranking. -/
inductive Call where
  | insert (row : Row)
  | delete (row : Row)
  | moveWindow (window : Window)

/-- The ranking after a call. An insertion that fails leaves it as it was. -/
def perform (compare : Value → Value → Ordering) (r : Ranking) : Call → Ranking
  | .insert row =>
    match r.insert compare row with
    | .ok (r', _) => r'
    | .error _ => r
  | .delete row => (r.delete compare row).1
  | .moveWindow window => (r.moveWindow window).1

/-- The ranking after calls. -/
def run (compare : Value → Value → Ordering) (r : Ranking) (calls : List Call) : Ranking :=
  calls.foldl (perform compare) r

theorem run_concat (calls : List Call) (call : Call) :
    run compare r (calls ++ [call]) = perform compare (run compare r calls) call :=
  List.foldl_concat ..

/-- What a call may do to the elements: put a row in, or take out one element of the entry that is
to be deleted. All others stay as they are. -/
def Changes (old new : List Ranked) : Call → Prop
  | .insert row => new = old ∨ ∃ p index, p ≤ old.length ∧ new = insertAt old p ⟨row, index⟩
  | .delete row => new = old ∨
      ∃ p e, old[p]? = some e ∧ e.row.unordered = row.unordered ∧ new = old.eraseIdx p
  | .moveWindow _ => new = old

theorem insert_of_found {p : Nat} (h : search compare r.elements row = .found p) :
    r.insert compare row = .ok (r, {}) := by
  unfold insert
  rw [h]

theorem delete_of_missing {p : Nat} (h : search compare r.elements row = .missing p) :
    r.delete compare row = (r, {}) := by
  unfold delete
  rw [h]

theorem perform_of_ok {c : WindowChange} (h : r.insert compare row = .ok (r', c)) :
    perform compare r (.insert row) = r' := by
  simp only [perform, h]

theorem perform_of_error {fault : Error} (h : r.insert compare row = .error fault) :
    perform compare r (.insert row) = r := by
  simp only [perform, h]

/-- What an insertion comes to, with the order key that a new row gets. -/
theorem perform_insert (compare : Value → Value → Ordering) (r : Ranking) (row : Row) :
    perform compare r (.insert row) = r ∨ ∃ p index, p ≤ r.elements.length ∧
      keyBetween (indexBefore r.elements p) ((r.elements[p]?).map (·.index)) = .ok index ∧
      perform compare r (.insert row) =
        { r with elements := insertAt r.elements p ⟨row, index⟩ } := by
  cases hi : r.insert compare row with
  | error fault => exact Or.inl (perform_of_error hi)
  | ok result =>
    obtain ⟨r', c⟩ := result
    rw [perform_of_ok hi]
    unfold insert at hi
    split at hi
    · exact Or.inl (congrArg (·.1) (Except.ok.inj hi)).symm
    · rename_i p hs
      split at hi
      · cases hi
      · rename_i index hk
        exact Or.inr ⟨p, index, search_missing_le hs, hk,
          (congrArg (·.1) (Except.ok.inj hi)).symm⟩

/-- Rows that compare equal are of one entry, whatever the values are compared by. -/
theorem unordered_eq_of_compareRows {a b : Row} (h : compareRows compare a b = .eq) :
    a.unordered = b.unordered := by
  rw [compareRows, Ordering.then_eq_eq, Ordering.then_eq_eq, RowKey.cmp_eq_iff,
    Value.cmp_eq_iff] at h
  rw [Row.unordered, Row.unordered, h.2.1, h.2.2]

theorem search_found_eq {p : Nat} (h : search compare elements row = .found p) :
    ∃ e, elements[p]? = some e ∧ e.row.unordered = row.unordered := by
  unfold search at h
  dsimp only at h
  split at h
  · cases h
  · rename_i e he
    split at h
    · rename_i heq
      exact ⟨e, Place.found.inj h ▸ he, unordered_eq_of_compareRows heq⟩
    · cases h
    · cases h

/-- **No call does more to the elements than it may.** -/
theorem perform_changes (compare : Value → Value → Ordering) (r : Ranking) (call : Call) :
    Changes r.elements (perform compare r call).elements call := by
  cases call with
  | insert row =>
    rcases perform_insert compare r row with h | ⟨p, index, hp, -, h⟩
    · exact Or.inl (by rw [h])
    · exact Or.inr ⟨p, index, hp, by rw [h]⟩
  | delete row =>
    rcases delete_cases compare r row with ⟨-, h⟩ | ⟨p, hp, h⟩
    · exact Or.inl (congrArg (·.1.elements) h)
    · obtain ⟨e, he, hrow⟩ := search_found_eq hp
      exact Or.inr ⟨p, e, he, hrow, congrArg (·.1.elements) h⟩
  | moveWindow window => rfl

/-! ## Ascending order keys -/

/-- Order keys that ascend in byte order, each of the shape of one. -/
structure Indexed (elements : List Ranked) : Prop where
  shaped : ∀ e ∈ elements, Shaped e.index.toList
  ascending : elements.Pairwise fun a b => bytes a.index < bytes b.index

theorem Indexed.nil : Indexed [] := ⟨by simp, .nil⟩

theorem Indexed.sublist {elements' : List Ranked} (h : Indexed elements)
    (hs : elements'.Sublist elements) : Indexed elements' :=
  ⟨fun e he => h.shaped e (hs.subset he), h.ascending.sublist hs⟩

theorem forall_lt_of_getLast? {key : List Char}
    (h : elements.Pairwise fun a b => bytes a.index < bytes b.index)
    (hlast : ∀ a ∈ elements.getLast?, bytes a.index < key) :
    ∀ e ∈ elements, bytes e.index < key := by
  rcases List.eq_nil_or_concat elements with rfl | ⟨es, a, rfl⟩
  · simp
  · have ha : bytes a.index < key := hlast a (by simp)
    intro e he
    rw [List.concat_eq_append] at h he
    rcases List.mem_append.mp he with he | he
    · exact lt_trans ((List.pairwise_append.mp h).2.2 e he a List.mem_cons_self) ha
    · rwa [List.mem_singleton.mp he]

theorem forall_lt_of_head? {key : List Char}
    (h : elements.Pairwise fun a b => bytes a.index < bytes b.index)
    (hhead : ∀ a ∈ elements.head?, key < bytes a.index) :
    ∀ e ∈ elements, key < bytes e.index := by
  cases elements with
  | nil => simp
  | cons a es =>
    have ha : key < bytes a.index := hhead a rfl
    intro e he
    rcases List.mem_cons.mp he with rfl | he
    · exact ha
    · exact lt_trans ha (List.rel_of_pairwise_cons h he)

theorem indexBefore_eq {p : Nat} (hp : p ≤ elements.length) :
    indexBefore elements p = ((elements.take p).getLast?).map (·.index) := by
  rw [indexBefore, List.getLast?_take]
  split_ifs with h0
  · rfl
  · rw [List.getElem?_eq_getElem (by omega), Option.some_or]

/-- **A row whose order key is made between its neighbours keeps all order keys ascending.** -/
theorem Indexed.insertAt (h : Indexed elements) {p : Nat} {index : String}
    (hp : p ≤ elements.length)
    (hkey : keyBetween (indexBefore elements p) ((elements[p]?).map (·.index)) = .ok index) :
    Indexed (insertAt elements p ⟨row, index⟩) := by
  rw [indexBefore_eq hp, ← List.head?_drop] at hkey
  have hsplit := List.take_append_drop p elements
  rw [← hsplit] at h
  rw [Ranking.insertAt]
  generalize elements.take p = low at h hkey
  generalize elements.drop p = high at h hkey
  obtain ⟨hlow, hhigh, hcross⟩ := List.pairwise_append.mp h.ascending
  have hmemlow : ∀ x ∈ low.getLast?.map (·.index), ∃ a ∈ low, a.index = x := fun x hx => by
    obtain ⟨a, ha, rfl⟩ := Option.mem_map.mp hx
    exact ⟨a, List.mem_of_getLast? ha, rfl⟩
  have hmemhigh : ∀ y ∈ high.head?.map (·.index), ∃ b ∈ high, b.index = y := fun y hy => by
    obtain ⟨b, hb, rfl⟩ := Option.mem_map.mp hy
    exact ⟨b, List.mem_of_head? hb, rfl⟩
  obtain ⟨hshaped, hbelow, habove⟩ := keyBetween_shaped
    (fun x hx => by
      obtain ⟨a, ha, rfl⟩ := hmemlow x hx
      exact h.shaped a (List.mem_append_left _ ha))
    (fun y hy => by
      obtain ⟨b, hb, rfl⟩ := hmemhigh y hy
      exact h.shaped b (List.mem_append_right _ hb))
    (fun x hx y hy => by
      obtain ⟨a, ha, rfl⟩ := hmemlow x hx
      obtain ⟨b, hb, rfl⟩ := hmemhigh y hy
      exact hcross a ha b hb) hkey
  have hall : ∀ a ∈ low, bytes a.index < bytes index :=
    forall_lt_of_getLast? hlow fun a ha => hbelow _ (Option.mem_map_of_mem _ ha)
  constructor
  · intro e he
    rcases List.mem_append.mp he with he | he
    · exact h.shaped e (List.mem_append_left _ he)
    · rcases List.mem_cons.mp he with rfl | he
      · exact hshaped
      · exact h.shaped e (List.mem_append_right _ he)
  · refine List.pairwise_append.mpr ⟨hlow, List.pairwise_cons.mpr ⟨?_, hhigh⟩, fun a ha b hb => ?_⟩
    · exact forall_lt_of_head? hhigh fun b hb => habove _ (Option.mem_map_of_mem _ hb)
    · rcases List.mem_cons.mp hb with rfl | hb
      · exact hall a ha
      · exact hcross a ha b hb

/-- **Every call keeps the order keys ascending.** -/
theorem perform_indexed (h : Indexed r.elements) (call : Call) :
    Indexed (perform compare r call).elements := by
  cases call with
  | insert row =>
    rcases perform_insert compare r row with heq | ⟨p, index, hp, hkey, heq⟩
    · rwa [heq]
    · rw [heq]
      exact h.insertAt hp hkey
  | delete row =>
    rcases perform_changes compare r (.delete row) with heq | ⟨p, e, -, -, heq⟩
    · rwa [heq]
    · rw [heq]
      exact h.sublist (List.eraseIdx_sublist ..)
  | moveWindow window => exact h

theorem run_indexed (compare : Value → Value → Ordering) (h : Indexed r.elements)
    (calls : List Call) : Indexed (run compare r calls).elements := by
  induction calls generalizing r with
  | nil => exact h
  | cons call calls ih => exact ih (perform_indexed h call)

/-! ## Elements that stay -/

/-- One of the calls was a deletion of the entry of an element, and took the element out. -/
def TakenOut (compare : Value → Value → Ordering) (r : Ranking) (e : Ranked)
    (calls : List Call) : Prop :=
  ∃ before row after, calls = before ++ .delete row :: after ∧
    e.row.unordered = row.unordered ∧ e ∈ (run compare r before).elements ∧
    e ∉ (perform compare (run compare r before) (.delete row)).elements

/-- An element stays, with its order key, unless the call deletes its entry. -/
theorem perform_keeps (he : e ∈ r.elements) (call : Call) :
    e ∈ (perform compare r call).elements ∨
      ∃ row, call = .delete row ∧ e.row.unordered = row.unordered := by
  have hchange := perform_changes compare r call
  cases call with
  | insert row =>
    rcases hchange with h | ⟨p, index, -, h⟩
    · exact Or.inl (h ▸ he)
    · exact Or.inl (h ▸ mem_insertAt.mpr (Or.inr he))
  | delete row =>
    rcases hchange with h | ⟨p, x, hx, hrow, h⟩
    · exact Or.inl (h ▸ he)
    · obtain ⟨i, hi⟩ := List.mem_iff_getElem?.mp he
      by_cases hip : i = p
      · rw [hip, hx] at hi
        exact Or.inr ⟨row, rfl, Option.some.inj hi ▸ hrow⟩
      · exact Or.inl (h ▸ List.mem_eraseIdx_iff_getElem?.mpr ⟨i, hip, hi⟩)
  | moveWindow window => exact Or.inl he

/-- **An element stays, with its order key, until a deletion takes it out.** -/
theorem run_keeps (he : e ∈ r.elements) (calls : List Call) :
    e ∈ (run compare r calls).elements ∨ TakenOut compare r e calls := by
  induction calls generalizing r with
  | nil => exact Or.inl he
  | cons call calls ih =>
    by_cases hstay : e ∈ (perform compare r call).elements
    · refine (ih hstay).imp_right ?_
      rintro ⟨before, row, after, rfl, hrow, hin, hout⟩
      exact ⟨call :: before, row, after, rfl, hrow, hin, hout⟩
    · obtain ⟨row, rfl, hrow⟩ := (perform_keeps he call).resolve_left hstay
      exact Or.inr ⟨[], row, calls, rfl, hrow, he, hstay⟩

end Ranking

end DeltaView
