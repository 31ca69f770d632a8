import DeltaView.Query.Build
import DeltaView.Query.Conjunct

/-!
# Pushdown

A condition on one source of a join holds for the joined row where it holds for the source's row,
so it can be tested before the join. `Level.pushDown` moves such conditions of one level:

* A collection becomes a subquery that tests the condition. A subquery takes it in where its
  output has the rows and fields that the condition reads, and is otherwise left alone.
* Where an outer join may leave the source absent, the condition stays behind as well, as a
  residual one: the joined row with the source absent has yet to be tested.
* A condition that depends on no source is dropped; one that depends on several stays.
-/

namespace DeltaView

namespace Level

/-! ## Absent sources -/

/-- The sources that joins may leave absent, when others come before them. -/
def nullableFrom (before : List String) : List (Join Source) → List String
  | [] => []
  | j :: js =>
    (if j.kind.keepsLeft then [j.source.label] else []) ++
      (if j.kind.keepsRight then before else []) ++ nullableFrom (before ++ [j.source.label]) js

/-- The sources that an outer join may leave absent. -/
def nullableLabels (q : Query) : List String := nullableFrom [q.source.label] q.joins

/-! ## Subqueries that take a condition in -/

/-- Does SELECT pass a field of a source on under its own name? -/
def passesField (fields : List SelectField) (label name : String) : Bool :=
  fields.any fun f => f.label == name && f.expr == .ref [label, name]

/-- Does a path read nothing of a source, or a field that SELECT passes on? -/
def keepsPath (fields : List SelectField) (label : String) : List String → Bool
  | [] => true
  | [a] => a != label
  | a :: name :: _ => a != label || passesField fields label name

/-- Are the fields of a source that a condition reads the same in a row of the output? -/
def keepsFields (q : Query) (label : String) (condition : Expr) : Bool :=
  match q.select with
  | none => q.joins.isEmpty
  | some fields => condition.refs.all (keepsPath fields label)

/-- Is testing a condition on the rows of a query the same as testing it on its main source, under
the same label? -/
def takesIn (q : Query) (label : String) (condition : Expr) : Bool :=
  q.source.label == label && !q.isGrouped && q.having.isEmpty &&
    (q.orderBy.isEmpty || (q.limit.isNone && q.offset.isNone)) && q.rowSelect.isNone &&
    q.rowFilters.isEmpty && q.rowHaving.isEmpty && !q.isDistinct && q.keepsFields label condition

end Level

namespace Source

/-- The source with a condition tested on its rows, if it can test it. -/
def filtered? (condition : Expr) : Source → Option Source
  | .collection name label =>
    some (.subquery (.withFilter (.ofSource (.collection name label)) condition) label)
  | .subquery q label =>
    if q.takesIn label condition then some (.subquery (q.withFilter condition) label) else none

/-- The source with the condition tested that conjuncts set on it, where it can be. -/
def takeCondition (conjuncts : List Expr) (s : Source) : Source :=
  match Expr.conditionOn? s.label conjuncts with
  | none => s
  | some condition => (s.filtered? condition).getD s

/-- Does the source test the condition that conjuncts set on it? -/
def takesCondition (conjuncts : List Expr) (s : Source) : Bool :=
  ((Expr.conditionOn? s.label conjuncts).bind fun c => s.filtered? c).isSome

end Source

namespace Level

/-! ## One level -/

/-- Is the condition on a source moved into it? -/
def moves (q : Query) (conjuncts : List Expr) (label : String) : Bool :=
  q.sources.any fun s => s.label == label && s.takesCondition conjuncts

/-- The conjuncts that stay to be tested after the joins: the joint ones, then those on sources
that cannot test them. -/
def remaining (q : Query) (conjuncts : List Expr) : List Expr :=
  Expr.jointConditions conjuncts ++
    ((Expr.conditionedSources conjuncts).filter fun a => !q.moves conjuncts a).flatMap fun a =>
      Expr.conditionsOn a conjuncts

/-- The conjuncts that are moved and have to be tested again after the joins. -/
def repeated (q : Query) (conjuncts : List Expr) : List Expr :=
  ((Expr.conditionedSources conjuncts).filter fun a =>
    q.moves conjuncts a && q.nullableLabels.contains a).flatMap fun a =>
      Expr.conditionsOn a conjuncts

/-- The clause, if any, for a list of conjuncts. -/
def clauseOf (conjuncts : List Expr) (isResidual : Bool) : List Clause :=
  ((Expr.conjoin? conjuncts).map fun expr => { expr, isResidual }).toList

/-- Puts all conditions into one clause. -/
def joinFilters (q : Query) : Query :=
  match Expr.conjoin? (q.filters.map (·.expr)) with
  | some expr => if 1 < q.filters.length then { q with filters := [{ expr }] } else q
  | none => q

/-- Moves the conditions of a level with joins into its sources, as far as they test them. -/
def moveFilters (q : Query) : Query :=
  let conjuncts := Expr.conjunctsOfAll ((q.filters.filter (!·.isResidual)).map (·.expr))
  { q with
    source := q.source.takeCondition conjuncts
    joins := q.joins.map fun j => { j with source := j.source.takeCondition conjuncts }
    filters :=
      clauseOf (q.remaining conjuncts) false ++ clauseOf (q.repeated conjuncts) true ++
        q.filters.filter (·.isResidual) }

/-- Moves conditions of one level to where they are tested earliest. -/
def pushDown (q : Query) : Query :=
  if q.filters.isEmpty then q
  else if q.joins.isEmpty then q.joinFilters
  else q.moveFilters

end Level

/-! ## Source filters -/

/-- The conditions that a query sets on the collections it reads directly, in the order of first
mention. -/
def Query.sourceFilters (q : Query) : List (String × Expr) :=
  let conjuncts := Expr.conjunctsOfAll (q.filters.map (·.expr))
  (Expr.conditionedSources conjuncts).filterMap fun a =>
    if (q.sources.find? (·.label == a)).any Source.isCollection then
      (Expr.conditionOn? a conjuncts).map fun c => (a, c)
    else none

end DeltaView
