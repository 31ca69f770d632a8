import DeltaView.Expr.Basic
import DeltaView.Value.Sort

/-!
# Queries

A query is a tree of levels. Every level reads a main source and joins further ones to it, and a
source is a collection or a whole query seen under a label.

* `Level σ` is one level over sources of type `σ`; `Source` closes the recursion and
  `Query` is a level over it.
* Row functions are opaque: a query names them, and what they compute is supplied where the query
  is compiled.
* Equality of queries is decided by `Source.same`.
-/

namespace DeltaView

/-! ## Clauses -/

inductive JoinKind where
  | inner | left | right | full
deriving DecidableEq, Inhabited

namespace JoinKind

/-- Do rows of the main side without a partner stay? -/
def keepsLeft : JoinKind → Bool
  | .left => true
  | .full => true
  | _ => false

/-- Do rows of the joined side without a partner stay? -/
def keepsRight : JoinKind → Bool
  | .right => true
  | .full => true
  | _ => false

def isOuter (k : JoinKind) : Bool := k != .inner

def name : JoinKind → String
  | .inner => "inner"
  | .left => "left"
  | .right => "right"
  | .full => "full"

end JoinKind

/-- A condition of WHERE or HAVING. A residual one repeats a condition that a source already
applies, and stays where it is. -/
structure Clause where
  expr : Expr
  isResidual : Bool := false
deriving DecidableEq, Inhabited

structure OrderTerm where
  expr : Expr
  rule : SortRule
deriving DecidableEq, Inhabited

structure SelectField where
  label : String
  expr : Expr
deriving DecidableEq, Inhabited

/-- The name of a function from rows to values that is given from outside. -/
structure RowFunction where
  id : Nat
deriving DecidableEq, Inhabited

/-! ## Levels -/

/-- One source joined to those before it where two expressions are equal. -/
structure Join (σ : Type) where
  kind : JoinKind
  source : σ
  left : Expr
  right : Expr

/-- One level of a query. -/
structure Level (σ : Type) where
  source : σ
  select : Option (List SelectField) := none
  joins : List (Join σ) := []
  filters : List Clause := []
  groupBy : List Expr := []
  having : List Clause := []
  orderBy : List OrderTerm := []
  limit : Option Int64 := none
  offset : Option Int64 := none
  isDistinct : Bool := false
  rowSelect : Option RowFunction := none
  rowFilters : List RowFunction := []
  rowHaving : List RowFunction := []

inductive Source where
  | collection (name label : String)
  | subquery (query : Level Source) (label : String)
deriving Inhabited

abbrev Query := Level Source

instance : Inhabited Query := ⟨{ source := default }⟩

namespace Source

def label : Source → String
  | .collection _ a => a
  | .subquery _ a => a

def isCollection : Source → Bool
  | .collection _ _ => true
  | .subquery _ _ => false

end Source

namespace Level

variable {σ : Type}

/-- The sources of a level, the main one first. -/
def sources (q : Level σ) : List σ := q.source :: q.joins.map (·.source)

def selectHasAggregate (q : Level σ) : Bool :=
  (q.select.getD []).any (·.expr.hasAggregate)

/-- Are rows of this level grouped before SELECT? -/
def isGrouped (q : Level σ) : Bool := !q.groupBy.isEmpty || q.selectHasAggregate

end Level

/-! ## Equality -/

mutual

def Source.same : Source → Source → Bool
  | .collection m a, .collection n b => m == n && a == b
  | .subquery q a, .subquery r b => sameLevel q r && a == b
  | _, _ => false

def Source.sameLevel : Level Source → Level Source → Bool
  | ⟨s, sel, js, fs, gs, hs, os, l, o, d, rs, rf, rh⟩,
    ⟨s', sel', js', fs', gs', hs', os', l', o', d', rs', rf', rh'⟩ =>
    Source.same s s' && sel == sel' && sameJoins js js' && fs == fs' && gs == gs' && hs == hs' &&
      os == os' && l == l' && o == o' && d == d' && rs == rs' && rf == rf' && rh == rh'

def Source.sameJoins : List (Join Source) → List (Join Source) → Bool
  | [], [] => true
  | ⟨k, s, l, r⟩ :: js, ⟨k', s', l', r'⟩ :: js' =>
    k == k' && Source.same s s' && l == l' && r == r' && sameJoins js js'
  | _, _ => false

end

mutual

theorem Source.same_iff : ∀ s t : Source, s.same t = true ↔ s = t
  | .collection n a, t => by cases t <;> simp [Source.same]
  | .subquery q a, t => by
    cases t with
    | subquery r b => simp [Source.same, sameLevel_iff q r]
    | collection n b => simp [Source.same]

theorem Source.sameLevel_iff : ∀ q r : Level Source, sameLevel q r = true ↔ q = r
  | ⟨s, _, js, _, _, _, _, _, _, _, _, _, _⟩, ⟨s', _, js', _, _, _, _, _, _, _, _, _, _⟩ => by
    simp [Source.sameLevel, Source.same_iff s s', Source.sameJoins_iff js js', and_assoc]

theorem Source.sameJoins_iff : ∀ js ks : List (Join Source), sameJoins js ks = true ↔ js = ks
  | [], [] => by simp [sameJoins]
  | [], _ :: _ => by simp [sameJoins]
  | _ :: _, [] => by simp [sameJoins]
  | ⟨_, s, _, _⟩ :: js, ⟨_, s', _, _⟩ :: js' => by
    simp [sameJoins, Source.same_iff s s', Source.sameJoins_iff js js', and_assoc]

end

instance : DecidableEq Source := fun s t => decidable_of_iff (s.same t = true) (s.same_iff t)

instance : DecidableEq Query := fun q r =>
  decidable_of_iff (Source.sameLevel q r = true) (Source.sameLevel_iff q r)

end DeltaView
