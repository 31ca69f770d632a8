import DeltaView.Proofs.Expr.Text
import DeltaView.Proofs.Query.Optimizable
import DeltaView.Query.Text

/-!
# Queries and their trees

* `Level.literals`: the literals of a level, its sources apart.
* `Level.IsWritten`: a level of which everything is written: it has no row functions, and its
  literals are in order.
* `valuesOf_listMember`, `valuesOf_optionalMember`, `valuesOf_mark`: what a member that may be left
  out gives a name, whatever members stand around it.
* **`queryOfJson?_toJson`**: a query with such levels alone is what its tree denotes.
-/

namespace DeltaView

/-! ## What is written of a level -/

namespace Level

variable {σ : Type}

/-- The expressions of a level, its sources apart. -/
def exprs (q : Level σ) : List Expr :=
  (q.select.getD []).map (·.expr) ++ q.joins.flatMap (fun j => [j.left, j.right]) ++
    q.filters.map (·.expr) ++ q.groupBy ++ q.having.map (·.expr) ++ q.orderBy.map (·.expr)

/-- The literals of a level, its sources apart. -/
def literals (q : Level σ) : List Value := q.exprs.flatMap Expr.literals

theorem forall_mem_exprs {q : Level σ} {p : Expr → Prop} :
    (∀ e ∈ q.exprs, p e) ↔
      (∀ f ∈ q.select.getD [], p f.expr) ∧ (∀ j ∈ q.joins, p j.left ∧ p j.right) ∧
        (∀ c ∈ q.filters, p c.expr) ∧ (∀ e ∈ q.groupBy, p e) ∧ (∀ c ∈ q.having, p c.expr) ∧
          ∀ t ∈ q.orderBy, p t.expr := by
  unfold exprs
  simp only [List.forall_mem_append, List.forall_mem_map, List.forall_mem_flatMap,
    List.forall_mem_cons, List.not_mem_nil, false_imp_iff, implies_true, and_true, and_assoc]

/-- Are there no row functions, and is every literal in order? An object to which its fields were put
one by one always is. -/
structure IsWritten (q : Level σ) : Prop where
  rowSelect : q.rowSelect = none
  rowFilters : q.rowFilters = []
  rowHaving : q.rowHaving = []
  inOrder : ∀ v ∈ q.literals, v.isInOrder

theorem IsWritten.exprs_inOrder {q : Level σ} (h : q.IsWritten) : ∀ e ∈ q.exprs, e.IsInOrder :=
  fun _ he _ hv => h.inOrder _ (List.mem_flatMap_of_mem he hv)

end Level

/-! ## Clauses -/

theorem JoinKind.ofJson?_name (below : Bool) (k : JoinKind) :
    JoinKind.ofJson? below (.string k.name) = some k := by
  cases k <;> rfl

theorem SortRule.ofJson?_toJson (below : Bool) (r : SortRule) :
    SortRule.ofJson? below r.toJson = some r := by
  obtain ⟨direction, nulls, text⟩ := r
  cases direction <;> cases nulls <;> cases text <;> rfl

theorem Clause.ofJson?_toJson (below : Bool) {c : Clause} (h : c.expr.IsInOrder) :
    Clause.ofJson? below c.toJson = some c := by
  obtain ⟨expr, isResidual⟩ := c
  have he : Expr.ofJson? below expr.toJson = some expr := Expr.ofJson?_toJson below h
  cases isResidual with
  | false =>
    show (Expr.ofJson? below expr.toJson).bind _ = _
    rw [he]
    rfl
  | true =>
    show (Expr.ofJson? below expr.toJson).bind _ = _
    rw [he]
    rfl

theorem OrderTerm.ofJson?_toJson (below : Bool) {t : OrderTerm} (h : t.expr.IsInOrder) :
    OrderTerm.ofJson? below t.toJson = some t := by
  show (Expr.ofJson? below t.expr.toJson).bind (fun expr =>
    (SortRule.ofJson? below t.rule.toJson).bind fun rule => some { expr, rule }) = some t
  rw [Expr.ofJson?_toJson below h, SortRule.ofJson?_toJson]
  rfl

theorem SelectField.ofJson?_toJson (below : Bool) {f : SelectField} (h : f.expr.IsInOrder) :
    SelectField.ofJson? below f.toJson = some f := by
  show (Expr.ofJson? below f.expr.toJson).bind (fun expr =>
    some { label := f.label, expr }) = some f
  rw [Expr.ofJson?_toJson below h]
  rfl

/-! ## Members that may be left out -/

section Members

variable {α : Type} {read? : Json → Option α} {toJson : α → Json} {name : String}
  {members : List (String × Json)}

/-- What a list is written as, if anything. -/
def listJson? (toJson : α → Json) : List α → Option Json
  | [] => none
  | items => some (.array (items.map toJson))

@[simp]
theorem valuesOf_listMember (name n : String) (items : List α) :
    Json.valuesOf name (listMember n toJson items) =
      if n = name then (listJson? toJson items).toList else [] := by
  cases items with
  | nil => exact (ite_self []).symm
  | cons x items => exact Json.valuesOf_cons name n _ []

@[simp]
theorem valuesOf_optionalMember (name n : String) (o : Option α) :
    Json.valuesOf name (optionalMember n toJson o) =
      if n = name then (o.map toJson).toList else [] := by
  cases o with
  | none => exact (ite_self []).symm
  | some x => exact Json.valuesOf_cons name n _ []

/-- A mark that is left out unless it is set. -/
@[simp]
theorem valuesOf_mark (name n : String) (b : Bool) :
    Json.valuesOf name (if b then [(n, .bool true)] else []) =
      if n = name then (if b then some (Json.bool true) else none).toList else [] := by
  cases b with
  | false => exact (ite_self []).symm
  | true => exact Json.valuesOf_cons name n _ []

theorem readOr_listMember {items : List α} (hread : ∀ x ∈ items, read? (toJson x) = some x)
    (h : Json.valuesOf name members = (listJson? toJson items).toList) :
    Json.readOr [] (Json.readList read?) name members = some items := by
  rw [Json.readOr_eq [] h]
  cases items with
  | nil => rfl
  | cons x items => exact Json.readList_map hread

theorem readOr_mark {b : Bool}
    (h : Json.valuesOf name members = (if b then some (Json.bool true) else none).toList) :
    Json.readOr false Json.asBool? name members = some b := by
  rw [Json.readOr_eq false h]
  cases b <;> rfl

end Members

/-! ## Sources and levels -/

namespace Source

open Json (need? valuesOf)

/-- The level that an object denotes, from what its members denote. -/
theorem queryOfJson?_object {below : Bool} {members : List (String × Json)} {main : Json}
    {source : Source} {select : Option (List SelectField)} {items : List Json}
    {joins : List (Join Source)} {filters having : List Clause} {groupBy : List Expr}
    {orderBy : List OrderTerm} {limit offset : Option Int64} {isDistinct : Bool}
    (hmain : need? "from" members = some main) (hsource : ofJson? below main = some source)
    (hselect : Json.readOptional (Json.readList (SelectField.ofJson? below)) "select" members =
      some select)
    (hitems : valuesOf "join" members = (listJson? id items).toList)
    (hjoins : joinsOfJson? below items = some joins)
    (hfilters : Json.readOr [] (Json.readList (Clause.ofJson? below)) "where" members = some filters)
    (hgroupBy : Json.readOr [] (Json.readList (Expr.ofJson? below)) "groupBy" members = some groupBy)
    (hhaving : Json.readOr [] (Json.readList (Clause.ofJson? below)) "having" members = some having)
    (horderBy : Json.readOr [] (Json.readList (OrderTerm.ofJson? below)) "orderBy" members =
      some orderBy)
    (hlimit : Json.readOptional Json.asInt64? "limit" members = some limit)
    (hoffset : Json.readOptional Json.asInt64? "offset" members = some offset)
    (hdistinct : Json.readOr false Json.asBool? "distinct" members = some isDistinct) :
    queryOfJson? below (.object members) = some {
      source, select, joins, filters, groupBy, having, orderBy, limit, offset, isDistinct } := by
  rw [queryOfJson?]
  split
  · rename_i hj
    cases hj
  rename_i ms hj
  obtain rfl : members = ms := Option.some.inj hj
  simp only [hselect, hfilters, hgroupBy, hhaving, horderBy, hlimit, hoffset, hdistinct,
    Option.bind_eq_bind, Option.bind_some]
  split
  · rename_i hnone
    cases hmain.symm.trans hnone
  rename_i main' hmain'
  obtain rfl : main = main' := Option.some.inj (hmain.symm.trans hmain')
  rw [hsource, Option.bind_some]
  have hjoin := Json.member?_eq hitems
  cases items with
  | nil =>
    rw [joinsOfJson?] at hjoins
    obtain rfl := Option.some.inj hjoins
    split
    · rfl
    · rename_i hsome
      cases hjoin.symm.trans hsome
    · rename_i hne _
      exact absurd hjoin hne
  | cons item items =>
    change Json.member? "join" members = some (some (.array ((item :: items).map id))) at hjoin
    rw [List.map_id] at hjoin
    split
    · rename_i hnone
      cases hjoin.symm.trans hnone
    · rename_i items' hitems'
      obtain rfl : item :: items = items' :=
        Json.array.inj (Option.some.inj (Option.some.inj (hjoin.symm.trans hitems')))
      rw [hjoins]
      rfl
    · rename_i hne
      exact absurd hjoin (hne _)

/-- The first of the joins that a list denotes. -/
theorem joinsOfJson?_cons {below : Bool} {members : List (String × Json)} {main l r : Json}
    {source : Source} {kind : JoinKind} {left right : Expr} {items : List Json}
    {joins : List (Join Source)} (hmain : need? "from" members = some main)
    (hsource : ofJson? below main = some source)
    (hkind : Json.readOr .inner (JoinKind.ofJson? below) "type" members = some kind)
    (hl : need? "left" members = some l) (hleft : Expr.ofJson? below l = some left)
    (hr : need? "right" members = some r) (hright : Expr.ofJson? below r = some right)
    (hjoins : joinsOfJson? below items = some joins) :
    joinsOfJson? below (.object members :: items) = some (⟨kind, source, left, right⟩ :: joins) := by
  rw [joinsOfJson?]
  split
  · rename_i hj
    cases hj
  rename_i ms hj
  obtain rfl : members = ms := Option.some.inj hj
  simp only [hkind, hl, hleft, hr, hright, hjoins, Option.bind_eq_bind, Option.bind_some]
  split
  · rename_i hnone
    cases hmain.symm.trans hnone
  · rename_i main' hmain'
    obtain rfl : main = main' := Option.some.inj (hmain.symm.trans hmain')
    rw [hsource]
    rfl

/-- The query that a node denotes. -/
theorem ofJson?_queryRef {below : Bool} {members : List (String × Json)} {label : String}
    {inner : Json} {query : Query}
    (hkind : Json.kind? below kinds (.object members) = some "queryRef")
    (hlabel : need? "alias" members = some (.string label))
    (hinner : need? "query" members = some inner) (hquery : queryOfJson? true inner = some query) :
    ofJson? below (.object members) = some (.subquery query label) := by
  rw [ofJson?, hkind]
  simp only
  split
  · rename_i hj
    cases hj
  rename_i ms hj
  obtain rfl : members = ms := Option.some.inj hj
  simp only [hlabel, Json.asString?, Option.bind_eq_bind, Option.bind_some]
  split
  · rename_i hnone
    cases hinner.symm.trans hnone
  · rename_i inner' hinner'
    obtain rfl : inner = inner' := Option.some.inj (hinner.symm.trans hinner')
    rw [hquery]
    rfl

mutual

theorem ofJson?_toJson (below : Bool) : ∀ {s : Source}, s.EveryLevel Level.IsWritten →
    ofJson? below s.toJson = some s
  | .collection name label, _ => by
    have hname : need? "collection" [("type", .string "collectionRef"),
        ("collection", .string name), ("alias", .string label)] = some (.string name) :=
      Json.need?_eq (by simp)
    have hlabel : need? "alias" [("type", .string "collectionRef"),
        ("collection", .string name), ("alias", .string label)] = some (.string label) :=
      Json.need?_eq (by simp)
    rw [toJson, ofJson?, Json.kind?_tagged below kinds "collectionRef" (by simp)]
    simp only [Json.asRecord?, Json.asString?, hname, hlabel, Option.bind_eq_bind, Option.bind_some]
  | .subquery query label, h => by
    rw [toJson]
    exact ofJson?_queryRef (Json.kind?_tagged below kinds "queryRef" (by simp))
      (Json.need?_eq (by simp)) (Json.need?_eq (v := Query.toJson query) (by simp [Query.toJson]))
      (queryOfJson?_toJson true h)

theorem queryOfJson?_toJson (below : Bool) : ∀ {q : Query}, q.EveryLevel Level.IsWritten →
    queryOfJson? below q.toJson = some q
  | ⟨source, select, joins, filters, groupBy, having, orderBy, limit, offset, isDistinct,
      rowSelect, rowFilters, rowHaving⟩, ⟨hlevel, hsource, hjoins⟩ => by
    obtain rfl : rowSelect = none := hlevel.rowSelect
    obtain rfl : rowFilters = [] := hlevel.rowFilters
    obtain rfl : rowHaving = [] := hlevel.rowHaving
    rw [Query.toJson, queryToJson]
    obtain ⟨hselect, hends, hfilters, hgroupBy, hhaving, horderBy⟩ :=
      Level.forall_mem_exprs.mp hlevel.exprs_inOrder
    exact queryOfJson?_object (Json.need?_eq (v := source.toJson) (by simp))
      (ofJson?_toJson below hsource)
      (Json.readOptional_eq rfl (fun fs hfs => Json.readList_map fun f hf =>
        SelectField.ofJson?_toJson below (hselect f (Option.mem_def.mp hfs ▸ hf))) (by simp))
      (by simp) (joinsOfJson?_toJson below hjoins hends)
      (readOr_listMember (fun c hc => Clause.ofJson?_toJson below (hfilters c hc)) (by simp))
      (readOr_listMember (fun e he => Expr.ofJson?_toJson below (hgroupBy e he)) (by simp))
      (readOr_listMember (fun c hc => Clause.ofJson?_toJson below (hhaving c hc)) (by simp))
      (readOr_listMember (fun t ht => OrderTerm.ofJson?_toJson below (horderBy t ht)) (by simp))
      (Json.readOptional_eq rfl (fun n _ => Json.asInt64?_toInt n) (by simp))
      (Json.readOptional_eq rfl (fun n _ => Json.asInt64?_toInt n) (by simp))
      (readOr_mark (by simp))

theorem joinsOfJson?_toJson (below : Bool) : ∀ {joins : List (Join Source)},
    EveryLevelOfJoins Level.IsWritten joins → (∀ j ∈ joins, j.left.IsInOrder ∧ j.right.IsInOrder) →
    joinsOfJson? below (joinsToJson joins) = some joins
  | [], _, _ => by rw [joinsToJson, joinsOfJson?]
  | ⟨kind, source, left, right⟩ :: joins, ⟨hsource, hjoins⟩, hexprs => by
    rw [List.forall_mem_cons] at hexprs
    rw [joinsToJson]
    have hkind : Json.readOr .inner (JoinKind.ofJson? below) "type" [("from", source.toJson),
        ("type", .string kind.name), ("left", left.toJson), ("right", right.toJson)] =
          some kind := by
      rw [Json.readOr_eq JoinKind.inner (o := some (.string kind.name)) (by simp)]
      exact JoinKind.ofJson?_name below kind
    exact joinsOfJson?_cons (Json.need?_eq (by simp)) (ofJson?_toJson below hsource) hkind
      (Json.need?_eq (by simp)) (Expr.ofJson?_toJson below hexprs.1.1)
      (Json.need?_eq (by simp)) (Expr.ofJson?_toJson below hexprs.1.2)
      (joinsOfJson?_toJson below hjoins hexprs.2)

end

end Source

end DeltaView
