import DeltaView.Error
import DeltaView.Expr.Basic

/-!
# Join conditions

A join condition compares an expression over one source that is there already with an expression
over the source that is joined, in either order. The joined label never counts as available, even
if an earlier source uses it.
-/

namespace DeltaView

/-- A join condition turned so that the main side comes first. -/
structure JoinCondition where
  main : Expr
  joined : Expr
deriving DecidableEq

namespace JoinCondition

/-- Does an expression read exactly one source, and one that is there before the join? -/
def isAvailable (available : List String) (joined : String) : Option String → Bool
  | some a => a != joined && available.contains a
  | none => false

/-- What is wrong with a condition that compares no two suitable sides. -/
def fault (available : List String) (joined : String) : Option String → Option String → Error
  | some l, some r =>
    if l = r then .conditionSameSource l
    else if !isAvailable available joined (some l) then .conditionUnavailable l
    else if r ≠ joined then .conditionNotJoined joined
    else .conditionWithoutSource
  | _, _ => .conditionWithoutSource

/-- Turns a condition so that the main side comes first, or says what is wrong with it. -/
def orient (left right : Expr) (available : List String) (joined : String) :
    Except Error JoinCondition :=
  let l := left.label?
  let r := right.label?
  if isAvailable available joined l && r == some joined then .ok ⟨left, right⟩
  else if l == some joined && isAvailable available joined r then .ok ⟨right, left⟩
  else .error (fault available joined l r)

end JoinCondition

end DeltaView
