import DeltaView.Expr.Basic

/-!
# Conjuncts

A condition demands its conjuncts: nested calls of `and` are taken apart, and nothing else is.
Every conjunct has a scope, which says on which sources of a level it depends.

* `conjuncts` takes conditions apart and `conjoin?` puts them together again, flat.
* `conditionOn?` is the one condition that a list of conjuncts sets on a source.
-/

namespace DeltaView

/-- The sources that a condition depends on. -/
inductive Scope where
  /-- None. -/
  | constant
  /-- The fields of one source. -/
  | single (label : String)
  /-- Several sources, or one as a whole. -/
  | several
  /-- It cannot be said, since a part of the condition is unknown. -/
  | hidden
deriving DecidableEq

namespace Scope

/-- The source of a condition on the fields of one source. -/
def label? : Scope → Option String
  | .single a => some a
  | _ => none

/-- Must a condition of this scope be tested where all sources are at hand? -/
def isJoint : Scope → Bool
  | .several => true
  | .hidden => true
  | _ => false

end Scope

namespace Expr

/-! ## Taking apart and putting together -/

mutual

/-- The conditions that a condition demands: the arguments of nested calls of `and`. -/
def conjuncts : Expr → List Expr
  | .call name args => if name = "and" then conjunctsOfAll args else [.call name args]
  | e => [e]

def conjunctsOfAll : List Expr → List Expr
  | [] => []
  | e :: es => conjuncts e ++ conjunctsOfAll es

end

/-- One condition for several; none for none. -/
def conjoin? (es : List Expr) : Option Expr :=
  match conjunctsOfAll es with
  | [] => none
  | [e] => some e
  | flat => some (.call "and" flat)

/-! ## Scopes -/

/-- Does an expression read a source as a whole, and not only its fields? -/
def readsWholeSource (e : Expr) : Bool :=
  e.refs.any fun path =>
    match path with
    | [a] => a != ""
    | _ => false

def scope (e : Expr) : Scope :=
  if e.hasUnknown then .hidden
  else if e.labels.isEmpty then .constant
  else match e.label? with
    | some a => if e.readsWholeSource then .several else .single a
    | none => .several

/-- The sources that conjuncts set conditions on, in the order of first mention. -/
def conditionedSources (es : List Expr) : List String :=
  (es.filterMap fun e => e.scope.label?).eraseDups

/-- The conjuncts that depend on the fields of one source. -/
def conditionsOn (label : String) (es : List Expr) : List Expr :=
  es.filter fun e => e.scope = .single label

/-- The conjuncts on one source as one condition. -/
def conditionOn? (label : String) (es : List Expr) : Option Expr := conjoin? (conditionsOn label es)

/-- The conjuncts that must be tested where all sources are at hand. -/
def jointConditions (es : List Expr) : List Expr := es.filter fun e => e.scope.isJoint

end Expr

end DeltaView
