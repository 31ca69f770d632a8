/-!
# Sorting by insertion

Items are taken one after the other, and each is put in front of the items that are above it, from
the last one on. Where the comparison is an order this is the stable sort. A comparison by size
that takes an integer and a float for even, although it tells two integers of that size apart, is
none, and then the outcome depends on the way of sorting.

* **`insertionSort_perm`**: sorting keeps all items.
-/

namespace DeltaView

variable {α : Type}

/-- Puts an item into a list that is given from its end. -/
def insertBackwards (compare : α → α → Ordering) (x : α) : List α → List α
  | [] => [x]
  | y :: ys => if compare x y = .lt then y :: insertBackwards compare x ys else x :: y :: ys

/-- The sorted list, from its end. -/
def insertionSortBackwards (compare : α → α → Ordering) (done : List α) : List α → List α
  | [] => done
  | x :: xs => insertionSortBackwards compare (insertBackwards compare x done) xs

/-- The sorted list. -/
def insertionSort (compare : α → α → Ordering) (items : List α) : List α :=
  (insertionSortBackwards compare [] items).reverse

theorem insertBackwards_perm (compare : α → α → Ordering) (x : α) (ys : List α) :
    (insertBackwards compare x ys).Perm (x :: ys) := by
  induction ys with
  | nil => exact .refl _
  | cons y ys ih =>
    unfold insertBackwards
    split
    · exact (ih.cons y).trans (.swap x y ys)
    · exact .refl _

theorem insertionSortBackwards_perm (compare : α → α → Ordering) (done xs : List α) :
    (insertionSortBackwards compare done xs).Perm (xs ++ done) := by
  induction xs generalizing done with
  | nil => exact .refl _
  | cons x xs ih =>
    refine (ih _).trans (((insertBackwards_perm compare x done).append_left xs).trans ?_)
    exact List.perm_middle

theorem insertionSort_perm (compare : α → α → Ordering) (items : List α) :
    (insertionSort compare items).Perm items := by
  unfold insertionSort
  simpa using (List.reverse_perm _).trans (insertionSortBackwards_perm compare [] items)

end DeltaView
