import DeltaView.Join.Condition
import DeltaView.Plan.Basic

/-!
# Plans of queries

`Plan.ofQuery?` makes the plan of a query or says what is wrong with it: the first fault in the
order of the clauses, where the sources come before the conditions on their rows.

* Every join condition is turned so that the side that is already there comes first.
* Expressions read sources of their own level alone.
* After grouping, later clauses read what SELECT made of a group.
-/

namespace DeltaView

namespace Level

/-! ## Clauses of one level -/

/-- The expressions of a level, clause by clause. -/
def expressions (q : Query) : List Expr :=
  q.filters.map (·.expr) ++ q.having.map (·.expr) ++ (q.select.getD []).map (·.expr) ++ q.groupBy ++
    q.orderBy.map (·.expr)

/-- The first source that the level reads and does not have. -/
def missingLabel? (q : Query) (known : List String) : Option String :=
  (q.expressions.flatMap Expr.labels).find? fun a => a != selectedField && !known.contains a

/-- Faults of a level that do not depend on its sources. -/
def checkClauses (q : Query) : Except Error Unit :=
  if q.isDistinct && q.select.isNone && q.rowSelect.isNone then .error .distinctWithoutSelect
  else if q.orderBy.isEmpty && (q.limit.isSome || q.offset.isSome) then .error .windowWithoutOrder
  else .ok ()

def checkLabels (q : Query) (known : List String) : Except Error Unit :=
  match q.missingLabel? known with
  | some a => .error (.unknownLabel a)
  | none => .ok ()

/-- What SELECT makes of the rows of a level without groups. -/
def projection? (q : Query) : Except Error Projection :=
  match q.rowSelect, q.select with
  | some f, _ => .ok (.function f)
  | none, some fields => (Expr.checkAll (fields.map (·.expr))).map fun _ => .fields fields
  | none, none => .ok (if q.joins.isEmpty then .source q.source.label else .whole)

/-- An aggregate of SELECT; without an argument it counts members. -/
def aggregateTerm? (label name : String) (args : List Expr) : Except Error AggregateTerm :=
  match AggregateKind.ofName? name with
  | none => .error (.unsupportedAggregate name)
  | some kind =>
    let arg := args.headD (.literal (.int 1))
    arg.check.map fun _ => ⟨label, kind, arg⟩

/-- A field of SELECT over groups: an aggregate, or one of the expressions grouped by. -/
def groupField? (groupBy : List Expr) (f : SelectField) :
    Except Error (GroupField × Option AggregateTerm) :=
  match f.expr with
  | .aggregate name args =>
    (aggregateTerm? f.label name args).map fun a => (.aggregate f.label, some a)
  | e =>
    match e.firstAggregate?, groupBy.findIdx? (· == e) with
    | some name, _ => .error (.misplacedAggregate name)
    | none, some position => .ok (.keyPart position, none)
    | none, none => .error (.notGrouped f.label)

/-- Without SELECT, the parts of the key are numbered. -/
def keyFields (count : Nat) : List (String × GroupField) :=
  (List.range count).map fun i => (s!"__key_{i}", .keyPart i)

/-- How the rows of a level are grouped. -/
def groupTerms? (q : Query) : Except Error GroupTerms := do
  Expr.checkAll q.groupBy
  match q.select with
  | none => return ⟨q.groupBy, [], keyFields q.groupBy.length⟩
  | some fields =>
    let parts ← fields.mapM (groupField? q.groupBy)
    return ⟨q.groupBy, parts.filterMap (·.2), (fields.map (·.label)).zip (parts.map (·.1))⟩

/-- An expression as it reads rows after SELECT; `isReduced` tells that only what SELECT made is
left of them. -/
def afterSelect? (q : Query) (isReduced : Bool) (e : Expr) : Except Error Expr := do
  let e ←
    match q.select, isReduced with
    | some fields, true => e.throughSelect fields
    | _, _ => .ok e
  e.check
  return e

/-- The window of a level with ORDER BY. -/
def window (q : Query) : Window := ⟨(q.offset.map Int64.toInt).getD 0, q.limit.map Int64.toInt⟩

/-! ## One level over the plan of its sources -/

def planFilters (q : Query) (sources : Plan) : Plan :=
  q.rowFilters.foldl (fun p f => .filterBy f p)
    (q.filters.foldl (fun p c => .filter c.expr p) sources)

def planSelect? (q : Query) (rows : Plan) : Except Error Plan :=
  if q.isGrouped then q.groupTerms?.map fun terms => .group terms rows
  else q.projection?.map fun projection => .project projection rows

def planHaving? (q : Query) (rows : Plan) : Except Error Plan := do
  let conditions ← q.having.mapM fun c => q.afterSelect? q.isGrouped c.expr
  return q.rowHaving.foldl (fun p f => .filterBy f p)
    (conditions.foldl (fun p c => .filter c p) rows)

def planOrder? (q : Query) (rows : Plan) : Except Error Plan := do
  let terms ← q.orderBy.mapM fun t => do
    let expr ← q.afterSelect? (q.isGrouped || q.isDistinct) t.expr
    return { t with expr }
  return if terms.isEmpty then rows else .rank terms q.window rows

/-- The plan of a level over the plan of its sources. -/
def plan? (q : Query) (known : List String) (sources : Plan) : Except Error Plan := do
  q.checkLabels known
  Expr.checkAll (q.filters.map (·.expr))
  let selected ← q.planSelect? (q.planFilters sources)
  let kept ← q.planHaving? selected
  let ordered ← q.planOrder? (if q.isDistinct then .distinct kept else kept)
  return .output ordered

end Level

namespace Plan

/-- The plan of a join of one more source; its condition has to be fit for it. -/
def join? (main joined : Plan) (known : List String) (kind : JoinKind) (left right : Expr)
    (label : String) : Except Error Plan := do
  let condition ← JoinCondition.orient left right known label
  if known.contains label then .error (.duplicateLabel label)
  condition.main.check
  condition.joined.check
  return .join kind condition.main condition.joined main joined

mutual

/-- The plan of a source, whose rows go by its label. -/
def ofSource? : Source → Except Error Plan
  | .collection name label => .ok (.named label (.scan name))
  | .subquery q label => (ofQuery? q).map (.named label)

/-- The plan of a query. -/
def ofQuery? : Query → Except Error Plan
  | ⟨source, select, joins, filters, groupBy, having, orderBy, limit, offset, isDistinct, rowSelect,
      rowFilters, rowHaving⟩ => do
    let q : Query := ⟨source, select, joins, filters, groupBy, having, orderBy, limit, offset,
      isDistinct, rowSelect, rowFilters, rowHaving⟩
    q.checkClauses
    let main ← ofSource? source
    let sources ← ofJoins? main [source.label] joins
    q.plan? (q.sources.map (·.label)) sources

/-- The plan of sources joined one after the other to those that are known. -/
def ofJoins? (main : Plan) (known : List String) : List (Join Source) → Except Error Plan
  | [] => .ok main
  | ⟨kind, source, left, right⟩ :: joins => do
    let joined ← ofSource? source
    let rows ← join? main joined known kind left right source.label
    ofJoins? rows (known ++ [source.label]) joins

end

end Plan

end DeltaView
