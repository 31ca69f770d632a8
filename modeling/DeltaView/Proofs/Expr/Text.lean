import DeltaView.Expr.Text
import DeltaView.Proofs.Value.Text

/-!
# Expressions and their trees

* `Expr.literals`: the literals of an expression, from left to right.
* `Expr.IsInOrder`: all of them are in order.
* `kind?_tagged`: a node says of which kind it is.
* **`ofJson?_toJson`**: an expression whose literals are in order is what its tree denotes, alone and
  inside another node. A node of an unknown kind stays one.
* `readable_toJson`: its tree has a text that is read back where its literals do.
-/

namespace DeltaView

/-- The kind of a node that is written as an object. -/
theorem Json.kind?_tagged (below : Bool) (kinds : List String) (kind : String)
    {members : List (String × Json)} (h : valuesOf "type" members = []) :
    kind? below kinds (.object (("type", .string kind) :: members)) = some kind := by
  have hneed : need? "type" (("type", .string kind) :: members) = some (.string kind) :=
    need?_eq (by rw [valuesOf_cons, if_pos rfl, h])
  show (need? "type" _).bind _ = _
  rw [hneed]
  rfl

namespace Expr

mutual

/-- The literals of an expression, from left to right. -/
def literals : Expr → List Value
  | .literal v => [v]
  | .call _ args => literalsOfAll args
  | .aggregate _ args => literalsOfAll args
  | _ => []

def literalsOfAll : List Expr → List Value
  | [] => []
  | e :: es => literals e ++ literalsOfAll es

end

/-- Is every literal of an expression in order? -/
def IsInOrder (e : Expr) : Prop := ∀ v ∈ e.literals, v.isInOrder

/-- The name and the arguments of a node that has both. -/
theorem callOfJson?_object {members : List (String × Json)} {name : String} {items : List Json}
    {args : List Expr} (hname : Json.need? "name" members = some (.string name))
    (hargs : Json.need? "args" members = some (.array items)) (h : ofItems? items = some args) :
    callOfJson? (.object members) = some (name, args) := by
  rw [callOfJson?]
  split
  · rename_i hj
    cases hj
  · rename_i ms hj
    obtain rfl : members = ms := Option.some.inj hj
    rw [hname]
    simp only [Json.asString?, Option.bind_eq_bind, Option.bind_some]
    split
    · rename_i items' h'
      obtain rfl : items = items' := Json.array.inj (Option.some.inj (hargs.symm.trans h'))
      rw [h]
      rfl
    · rename_i hne
      exact absurd hargs (hne items)

mutual

/-- **An expression whose literals are in order is what its tree denotes.** -/
theorem ofJson?_toJson (below : Bool) : ∀ {e : Expr}, e.IsInOrder → ofJson? below e.toJson = some e
  | .literal v, h => by
    rw [toJson, ofJson?, Json.kind?_tagged below kinds "val" (by simp)]
    have hvalue : Json.need? "value" [("type", .string "val"), ("value", v.toJson)] =
        some v.toJson := Json.need?_eq (by simp)
    have hv : v.isInOrder := h v List.mem_cons_self
    simp only [Json.asRecord?, Option.bind_eq_bind, Option.bind_some, hvalue,
      Value.ofJson_toJson hv]
  | .ref path, _ => by
    rw [toJson, ofJson?, Json.kind?_tagged below kinds "ref" (by simp)]
    have hpath : Json.need? "path" [("type", .string "ref"), ("path", .array (path.map .string))] =
        some (.array (path.map .string)) := Json.need?_eq (by simp)
    have hread : Json.readList Json.asString? (.array (path.map .string)) = some path :=
      Json.readList_map fun _ _ => rfl
    simp only [Json.asRecord?, Option.bind_eq_bind, Option.bind_some, hpath, hread]
  | .call name args, h => by
    rw [toJson, ofJson?, Json.kind?_tagged below kinds "func" (by simp)]
    have hcall : callOfJson? (.object [("type", .string "func"), ("name", .string name),
        ("args", .array (toItems args))]) = some (name, args) :=
      callOfJson?_object (Json.need?_eq (by simp)) (Json.need?_eq (by simp)) (ofItems?_toItems h)
    simp only [hcall, Option.bind_eq_bind, Option.bind_some]
  | .aggregate name args, h => by
    rw [toJson, ofJson?, Json.kind?_tagged below kinds "agg" (by simp)]
    have hcall : callOfJson? (.object [("type", .string "agg"), ("name", .string name),
        ("args", .array (toItems args))]) = some (name, args) :=
      callOfJson?_object (Json.need?_eq (by simp)) (Json.need?_eq (by simp)) (ofItems?_toItems h)
    simp only [hcall, Option.bind_eq_bind, Option.bind_some]
  | .unknown, _ => by
    rw [toJson, ofJson?, Json.kind?_tagged below kinds "unknown" (by simp)]
    rfl

theorem ofItems?_toItems : ∀ {es : List Expr}, (∀ v ∈ literalsOfAll es, v.isInOrder) →
    ofItems? (toItems es) = some es
  | [], _ => by rw [toItems, ofItems?]
  | e :: es, h => by
    rw [literalsOfAll, List.forall_mem_append] at h
    rw [toItems, ofItems?, ofJson?_toJson true h.1, ofItems?_toItems h.2]
    rfl

end

mutual

/-- The tree of an expression has a text that is read back where its literals do. -/
theorem readable_toJson : ∀ {e : Expr}, (∀ v ∈ e.literals, v.toJson.Readable) → e.toJson.Readable
  | .literal v, h => ⟨trivial, h v List.mem_cons_self, trivial⟩
  | .ref path, _ => by
    have hpath : Json.ItemsReadable (path.map .string) :=
      Json.itemsReadable_iff.mpr (List.forall_mem_map.mpr fun _ _ => trivial)
    exact ⟨trivial, hpath, trivial⟩
  | .call _ args, h => ⟨trivial, trivial, itemsReadable_toItems h, trivial⟩
  | .aggregate _ args, h => ⟨trivial, trivial, itemsReadable_toItems h, trivial⟩
  | .unknown, _ => ⟨trivial, trivial⟩

theorem itemsReadable_toItems : ∀ {es : List Expr}, (∀ v ∈ literalsOfAll es, v.toJson.Readable) →
    Json.ItemsReadable (toItems es)
  | [], _ => trivial
  | _ :: _, h =>
    ⟨readable_toJson (List.forall_mem_append.mp h).1,
      itemsReadable_toItems (List.forall_mem_append.mp h).2⟩

end

end Expr

end DeltaView
