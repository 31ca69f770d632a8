import DeltaView.Value.Order

/-!
# Expressions

The expressions of a query read fields of a row by path, and combine them with calls of named
functions and aggregates. `unknown` stands for a kind of expression that this library does not
have; it can be kept and written, not evaluated.

* `refs` are the paths an expression reads, from left to right.
* `label?` is the one source an expression reads, if there is exactly one.
* Equality of expressions is decided by `same`.
-/

namespace DeltaView

inductive Expr where
  | literal (v : Value)
  | ref (path : List String)
  | call (name : String) (args : List Expr)
  | aggregate (name : String) (args : List Expr)
  | unknown
deriving Inhabited

namespace Expr

/-! ## Parts of an expression -/

def isCall (name : String) : Expr → Bool
  | .call n _ => n == name
  | _ => false

mutual

/-- Does an aggregate occur outside the arguments of other aggregates? -/
def hasAggregate : Expr → Bool
  | .aggregate _ _ => true
  | .call _ args => anyHasAggregate args
  | _ => false

def anyHasAggregate : List Expr → Bool
  | [] => false
  | e :: es => hasAggregate e || anyHasAggregate es

end

mutual

def hasUnknown : Expr → Bool
  | .unknown => true
  | .call _ args => anyHasUnknown args
  | .aggregate _ args => anyHasUnknown args
  | _ => false

def anyHasUnknown : List Expr → Bool
  | [] => false
  | e :: es => hasUnknown e || anyHasUnknown es

end

mutual

/-- The paths an expression reads, from left to right. -/
def refs : Expr → List (List String)
  | .ref path => [path]
  | .call _ args => refsOfAll args
  | .aggregate _ args => refsOfAll args
  | _ => []

def refsOfAll : List Expr → List (List String)
  | [] => []
  | e :: es => refs e ++ refsOfAll es

end

/-- The sources named by the paths of an expression, in order and with repetitions. A path that is
empty or starts with an empty name reads no source. -/
def labels (e : Expr) : List String :=
  (e.refs.filterMap List.head?).filter (· ≠ "")

/-- The source an expression reads, if all its paths that read one agree on it. -/
def label? (e : Expr) : Option String :=
  match e.labels with
  | [] => none
  | a :: rest => if rest.all (· == a) then some a else none

/-! ## Equality -/

mutual

def same : Expr → Expr → Bool
  | .literal v, .literal w => v == w
  | .ref p, .ref q => p == q
  | .call m as, .call n bs => m == n && sameAll as bs
  | .aggregate m as, .aggregate n bs => m == n && sameAll as bs
  | .unknown, .unknown => true
  | _, _ => false

def sameAll : List Expr → List Expr → Bool
  | [], [] => true
  | a :: as, b :: bs => same a b && sameAll as bs
  | _, _ => false

end

mutual

theorem same_iff : ∀ a b : Expr, same a b = true ↔ a = b
  | .literal v, b => by cases b <;> simp [same]
  | .ref p, b => by cases b <;> simp [same]
  | .call n as, b => by
    cases b with
    | call m bs => simp [same, sameAll_iff as bs]
    | _ => simp [same]
  | .aggregate n as, b => by
    cases b with
    | aggregate m bs => simp [same, sameAll_iff as bs]
    | _ => simp [same]
  | .unknown, b => by cases b <;> simp [same]

theorem sameAll_iff : ∀ as bs : List Expr, sameAll as bs = true ↔ as = bs
  | [], [] => by simp [sameAll]
  | [], _ :: _ => by simp [sameAll]
  | _ :: _, [] => by simp [sameAll]
  | a :: as, b :: bs => by simp [sameAll, same_iff a b, sameAll_iff as bs]

end

instance : DecidableEq Expr := fun a b => decidable_of_iff (same a b = true) (same_iff a b)

end Expr

end DeltaView
