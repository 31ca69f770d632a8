import DeltaView.Delta

/-!
# Groupings

A delta cut into groups by a key: every key has the table of its members, and a key whose last
member leaves is dropped.

* `members` is the table of a key, empty for a key without members.
* `adjust` adds to the multiplicity of one member.
-/

namespace DeltaView

abbrev Grouping (κ α : Type) (M : Type := Int) := List (κ × Delta α M)

namespace Grouping

variable {κ α M : Type} [DecidableEq κ] [DecidableEq α] [Add M] [OfNat M 0] [DecidableEq M]

/-- The members of a group. -/
def members (k : κ) : Grouping κ α M → Delta α M
  | [] => []
  | (l, d) :: g => if l = k then d else members k g

/-- Adds to the multiplicity of a member. -/
def adjust (k : κ) (a : α) (m : M) : Grouping κ α M → Grouping κ α M
  | [] => if m = 0 then [] else [(k, [(a, m)])]
  | (l, d) :: g =>
    if l = k then
      match Delta.adjust a m d with
      | [] => g
      | d' => (l, d') :: g
    else (l, d) :: adjust k a m g

end Grouping

end DeltaView
