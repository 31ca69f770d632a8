import DeltaView.Query.Basic

/-!
# Building queries

Expressions and levels put together clause by clause. Clauses of one kind are added at the end;
GROUP BY, SELECT and the bounds are set.
-/

namespace DeltaView

namespace Expr

/-- The call of a function with two arguments. -/
def binary (name : String) (a b : Expr) : Expr := .call name [a, b]

def eq (a b : Expr) : Expr := binary "eq" a b
def gt (a b : Expr) : Expr := binary "gt" a b
def gte (a b : Expr) : Expr := binary "gte" a b
def lt (a b : Expr) : Expr := binary "lt" a b
def lte (a b : Expr) : Expr := binary "lte" a b
def and (args : List Expr) : Expr := .call "and" args
def or (args : List Expr) : Expr := .call "or" args
def not (a : Expr) : Expr := .call "not" [a]

/-- A field of a source. -/
def column (label name : String) : Expr := .ref [label, name]

def count (a : Expr) : Expr := .aggregate "count" [a]
def sum (a : Expr) : Expr := .aggregate "sum" [a]

end Expr

namespace Level

variable {σ : Type}

/-- All rows of a source. -/
def ofSource (source : σ) : Level σ := { source }

def withSelect (q : Level σ) (fields : List (String × Expr)) : Level σ :=
  { q with select := some (fields.map fun (label, expr) => ⟨label, expr⟩) }

def withJoin (q : Level σ) (join : Join σ) : Level σ := { q with joins := q.joins ++ [join] }

def withFilter (q : Level σ) (expr : Expr) : Level σ :=
  { q with filters := q.filters ++ [{ expr }] }

def withResidual (q : Level σ) (expr : Expr) : Level σ :=
  { q with filters := q.filters ++ [{ expr, isResidual := true }] }

def withGroupBy (q : Level σ) (exprs : List Expr) : Level σ := { q with groupBy := exprs }

def withHaving (q : Level σ) (expr : Expr) : Level σ :=
  { q with having := q.having ++ [{ expr }] }

def withOrderBy (q : Level σ) (term : OrderTerm) : Level σ :=
  { q with orderBy := q.orderBy ++ [term] }

def withLimit (q : Level σ) (n : Int64) : Level σ := { q with limit := some n }

def withOffset (q : Level σ) (n : Int64) : Level σ := { q with offset := some n }

def withDistinct (q : Level σ) : Level σ := { q with isDistinct := true }

def withRowSelect (q : Level σ) (f : RowFunction) : Level σ := { q with rowSelect := some f }

def withRowFilter (q : Level σ) (f : RowFunction) : Level σ :=
  { q with rowFilters := q.rowFilters ++ [f] }

def withRowHaving (q : Level σ) (f : RowFunction) : Level σ :=
  { q with rowHaving := q.rowHaving ++ [f] }

end Level

end DeltaView
