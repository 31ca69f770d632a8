/-!
# Tables

A table holds one value under each of its keys, in the order in which the keys came.

* `get?` is what a table means; `put` and `erase` change it at one key.
-/

namespace DeltaView

abbrev Table (κ α : Type) := List (κ × α)

namespace Table

variable {κ α : Type} [DecidableEq κ]

def get? (k : κ) : Table κ α → Option α
  | [] => none
  | (l, a) :: t => if l = k then some a else get? k t

def put (k : κ) (a : α) : Table κ α → Table κ α
  | [] => [(k, a)]
  | (l, b) :: t => if l = k then (k, a) :: t else (l, b) :: put k a t

def erase (k : κ) : Table κ α → Table κ α
  | [] => []
  | (l, b) :: t => if l = k then t else (l, b) :: erase k t

/-- Puts a value or erases the key. -/
def set (k : κ) (a : Option α) (t : Table κ α) : Table κ α :=
  match a with
  | some a => put k a t
  | none => erase k t

@[simp] theorem get?_put (k l : κ) (a : α) (t : Table κ α) :
    get? l (put k a t) = if k = l then some a else get? l t := by
  induction t with
  | nil => simp [put, get?]
  | cons p t ih =>
    obtain ⟨m, b⟩ := p
    by_cases h : m = k
    · subst h
      by_cases hl : m = l <;> simp [put, get?, hl]
    · by_cases hl : m = l
      · subst hl
        simp [put, get?, h, Ne.symm h]
      · simp [put, get?, h, hl, ih]

end Table

end DeltaView
