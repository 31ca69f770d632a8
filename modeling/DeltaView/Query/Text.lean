import DeltaView.Expr.Text
import DeltaView.Json.Reader
import DeltaView.Json.Writer
import DeltaView.Query.Basic

/-!
# Queries as interchange trees

The members of a level stand in the order `from`, `select`, `join`, `where`, `groupBy`, `having`,
`orderBy`, `limit`, `offset`, `distinct`. Empty lists, absent bounds and a false `distinct` are
left out; an empty SELECT is kept, since it is not an absent one. Row functions have no text.

Levels, joins, clauses, fields and sorting rules are records; sources are nodes, as expressions are.
-/

namespace DeltaView

/-! ## Clauses -/

namespace JoinKind

def ofName? : String → Option JoinKind
  | "inner" => some .inner
  | "left" => some .left
  | "right" => some .right
  | "full" => some .full
  | _ => none

def ofJson? (below : Bool) (j : Json) : Option JoinKind := (j.asConstant? below).bind ofName?

end JoinKind

namespace SortRule

/-- The members of a rule, in order. -/
def members : List String := ["direction", "nulls", "stringSort"]

def directionOfJson? (below : Bool) (j : Json) : Option Direction :=
  match j.asConstant? below with
  | some "asc" => some .asc
  | some "desc" => some .desc
  | _ => none

def nullsOfJson? (below : Bool) (j : Json) : Option NullPlace :=
  match j.asConstant? below with
  | some "first" => some .first
  | some "last" => some .last
  | _ => none

def textOfJson? (below : Bool) (j : Json) : Option TextOrder :=
  match j.asConstant? below with
  | some "lexical" => some .lexical
  | some "locale" => some .locale
  | _ => none

/-- The rule that a tree denotes; `below` says that it is part of a node. -/
def ofJson? (below : Bool) (j : Json) : Option SortRule := do
  let members ← j.asRecord? members
  let direction ← Json.readOr .asc (directionOfJson? below) "direction" members
  let nulls ← Json.readOr .first (nullsOfJson? below) "nulls" members
  let text ← Json.readOr .lexical (textOfJson? below) "stringSort" members
  some ⟨direction, nulls, text⟩

def toJson (r : SortRule) : Json :=
  .object [
    ("direction", .string (match r.direction with | .asc => "asc" | .desc => "desc")),
    ("nulls", .string (match r.nulls with | .first => "first" | .last => "last")),
    ("stringSort", .string (match r.text with | .lexical => "lexical" | .locale => "locale"))]

end SortRule

namespace Clause

/-- The members of a clause, in order. -/
def members : List String := ["expr", "residual"]

def ofJson? (below : Bool) (j : Json) : Option Clause := do
  let members ← j.asRecord? members
  let expr ← Expr.ofJson? below (← Json.need? "expr" members)
  let isResidual ← Json.readOr false Json.asBool? "residual" members
  some ⟨expr, isResidual⟩

def toJson (c : Clause) : Json :=
  .object (("expr", c.expr.toJson) :: if c.isResidual then [("residual", .bool true)] else [])

end Clause

namespace OrderTerm

/-- The members of a term, in order. -/
def members : List String := ["expr", "options"]

def ofJson? (below : Bool) (j : Json) : Option OrderTerm := do
  let members ← j.asRecord? members
  let expr ← Expr.ofJson? below (← Json.need? "expr" members)
  let rule ← Json.readOr .standard (SortRule.ofJson? below) "options" members
  some ⟨expr, rule⟩

def toJson (t : OrderTerm) : Json :=
  .object [("expr", t.expr.toJson), ("options", t.rule.toJson)]

end OrderTerm

namespace SelectField

/-- The members of a field, in order. -/
def members : List String := ["alias", "expr"]

def ofJson? (below : Bool) (j : Json) : Option SelectField := do
  let members ← j.asRecord? members
  let label ← (← Json.need? "alias" members).asString?
  let expr ← Expr.ofJson? below (← Json.need? "expr" members)
  some ⟨label, expr⟩

def toJson (f : SelectField) : Json :=
  .object [("alias", .string f.label), ("expr", f.expr.toJson)]

end SelectField

/-! ## Reading -/

namespace Source

/-- The kinds of sources, in the order of their numbers. -/
def kinds : List String := ["collectionRef", "queryRef"]

/-- The members of a level, in order. -/
def levelMembers : List String :=
  ["from", "select", "join", "where", "groupBy", "having", "orderBy", "limit", "offset", "distinct"]

/-- The members of a join, in order. -/
def joinMembers : List String := ["from", "type", "left", "right"]

mutual

/-- The source that a tree denotes; `below` says that it is part of another node. -/
def ofJson? (below : Bool) (j : Json) : Option Source :=
  match j.kind? below kinds with
  | some "collectionRef" => do
    let members ← j.asRecord? ["type", "collection", "alias"]
    let name ← (← Json.need? "collection" members).asString?
    let label ← (← Json.need? "alias" members).asString?
    some (.collection name label)
  | some "queryRef" =>
    match hj : j.asRecord? ["type", "query", "alias"] with
    | none => none
    | some members => do
      let label ← (← Json.need? "alias" members).asString?
      match h : Json.need? "query" members with
      | none => none
      | some query =>
        have := Json.sizeOf_need_lt hj h
        let query ← queryOfJson? true query
        some (.subquery query label)
  | _ => none
termination_by sizeOf j

/-- The query that a tree denotes; `below` says that it is part of another node. -/
def queryOfJson? (below : Bool) (j : Json) : Option Query :=
  match hj : j.asRecord? levelMembers with
  | none => none
  | some members => do
    let source ←
      match h : Json.need? "from" members with
      | none => none
      | some source =>
        have := Json.sizeOf_need_lt hj h
        ofJson? below source
    let select ←
      Json.readOptional (Json.readList (SelectField.ofJson? below)) "select" members
    let joins ←
      match h : Json.member? "join" members with
      | some none => some []
      | some (some (.array items)) =>
        have := Json.sizeOf_member_lt hj h
        joinsOfJson? below items
      | _ => none
    let filters ← Json.readOr [] (Json.readList (Clause.ofJson? below)) "where" members
    let groupBy ← Json.readOr [] (Json.readList (Expr.ofJson? below)) "groupBy" members
    let having ← Json.readOr [] (Json.readList (Clause.ofJson? below)) "having" members
    let orderBy ← Json.readOr [] (Json.readList (OrderTerm.ofJson? below)) "orderBy" members
    let limit ← Json.readOptional Json.asInt64? "limit" members
    let offset ← Json.readOptional Json.asInt64? "offset" members
    let isDistinct ← Json.readOr false Json.asBool? "distinct" members
    some {
      source, select, joins, filters, groupBy, having, orderBy, limit, offset, isDistinct
    }
termination_by sizeOf j
decreasing_by
  · simp only [Json.array.sizeOf_spec] at this
    omega
  · omega

def joinsOfJson? (below : Bool) : List Json → Option (List (Join Source))
  | [] => some []
  | j :: rest =>
    match hj : j.asRecord? joinMembers with
    | none => none
    | some members => do
      let source ←
        match h : Json.need? "from" members with
        | none => none
        | some source =>
          have := Json.sizeOf_need_lt hj h
          ofJson? below source
      let kind ← Json.readOr .inner (JoinKind.ofJson? below) "type" members
      let left ← Expr.ofJson? below (← Json.need? "left" members)
      let right ← Expr.ofJson? below (← Json.need? "right" members)
      let joins ← joinsOfJson? below rest
      some (⟨kind, source, left, right⟩ :: joins)
termination_by items => sizeOf items
decreasing_by all_goals (simp only [List.cons.sizeOf_spec] at *; omega)

end

end Source

/-- The parts of a text that tell a query. -/
def Query.shape : Json.Shape :=
  .record [("from", .whole),
    ("select", .list (.plainRecord SelectField.members)),
    ("join", .list (.plainRecord Source.joinMembers)),
    ("where", .list (.plainRecord Clause.members)),
    ("groupBy", .whole),
    ("having", .list (.plainRecord Clause.members)),
    ("orderBy", .list (.record [("expr", .whole), ("options", .plainRecord SortRule.members)])),
    ("limit", .whole),
    ("offset", .whole),
    ("distinct", .whole)]

/-- The query that a text denotes. -/
def Query.read? (text : String) : Option Query :=
  (Json.readShape? Query.shape text).bind (Source.queryOfJson? false)

/-! ## Writing -/

/-- A member that is left out where the list is empty. -/
def listMember {α : Type} (name : String) (toJson : α → Json) : List α → List (String × Json)
  | [] => []
  | items => [(name, .array (items.map toJson))]

/-- A member that is left out where there is no value. -/
def optionalMember {α : Type} (name : String) (toJson : α → Json) :
    Option α → List (String × Json)
  | none => []
  | some v => [(name, toJson v)]

namespace Source

mutual

def toJson : Source → Json
  | .collection name label =>
    .object [("type", .string "collectionRef"), ("collection", .string name),
      ("alias", .string label)]
  | .subquery query label =>
    .object [("type", .string "queryRef"), ("query", queryToJson query), ("alias", .string label)]

def queryToJson : Query → Json
  | ⟨source, select, joins, filters, groupBy, having, orderBy, limit, offset, isDistinct,
      _, _, _⟩ =>
    .object (
      [("from", toJson source)] ++
      optionalMember "select" (fun fs => .array (fs.map SelectField.toJson)) select ++
      listMember "join" id (joinsToJson joins) ++
      listMember "where" Clause.toJson filters ++
      listMember "groupBy" Expr.toJson groupBy ++
      listMember "having" Clause.toJson having ++
      listMember "orderBy" OrderTerm.toJson orderBy ++
      optionalMember "limit" (fun n => .int n.toInt) limit ++
      optionalMember "offset" (fun n => .int n.toInt) offset ++
      if isDistinct then [("distinct", .bool true)] else [])

def joinsToJson : List (Join Source) → List Json
  | [] => []
  | ⟨kind, source, left, right⟩ :: rest =>
    .object [("from", toJson source), ("type", .string kind.name), ("left", left.toJson),
      ("right", right.toJson)] :: joinsToJson rest

end

end Source

/-- The tree of a query. -/
def Query.toJson (q : Query) : Json := Source.queryToJson q

/-- The indented text of a query. -/
def Query.text (q : Query) : String := q.toJson.pretty

end DeltaView
