import DeltaView.Proofs.Json.Reader
import DeltaView.Proofs.Query.Text

/-!
# Reading written queries

* `Level.FloatsReadBack`: every float in a literal of a level is the one that its text denotes.
* `Source.readable_queryToJson`: the tree of a query with such levels alone has a text that is read
  back.
* `Query.covers_toJson`: everything in the tree of a query is asked for where a query is read.
* **`Query.read?_text`**: a query is what its tree denotes, and what its text denotes.
-/

namespace DeltaView

/-- Is every float in a literal the one that its text denotes? -/
def Level.FloatsReadBack {σ : Type} (q : Level σ) : Prop :=
  ∀ v ∈ q.literals, ∀ x ∈ v.floats, x.ReadsBack

instance {σ : Type} (q : Level σ) : Decidable q.FloatsReadBack :=
  inferInstanceAs (Decidable (∀ v ∈ q.literals, ∀ x ∈ v.floats, x.ReadsBack))

theorem Level.FloatsReadBack.exprs_readable {σ : Type} {q : Level σ} (h : q.FloatsReadBack) :
    ∀ e ∈ q.exprs, e.toJson.Readable := fun _ he =>
  Expr.readable_toJson fun v hv => Value.readable_toJson (h v (List.mem_flatMap_of_mem he hv))

/-! ## Members that may be left out -/

section Members

variable {α : Type} {toJson : α → Json} {name : String} {p : String × Json → Prop}

theorem forall_mem_listMember {items : List α} (h : p (name, .array (items.map toJson))) :
    ∀ m ∈ listMember name toJson items, p m := by
  cases items with
  | nil => exact fun _ hm => absurd hm List.not_mem_nil
  | cons x items => exact List.forall_mem_singleton.mpr h

theorem forall_mem_optionalMember {o : Option α} (h : ∀ x ∈ o, p (name, toJson x)) :
    ∀ m ∈ optionalMember name toJson o, p m := by
  cases o with
  | none => exact fun _ hm => absurd hm List.not_mem_nil
  | some x => exact List.forall_mem_singleton.mpr (h x rfl)

theorem forall_mem_mark {b : Bool} (h : p (name, .bool true)) :
    ∀ m ∈ (if b then [(name, Json.bool true)] else []), p m := by
  cases b with
  | false => exact fun _ hm => absurd hm List.not_mem_nil
  | true => exact List.forall_mem_singleton.mpr h

end Members

/-! ## Texts that are read back -/

theorem Json.readable_array_map {α : Type} {toJson : α → Json} {items : List α}
    (h : ∀ x ∈ items, (toJson x).Readable) : (Json.array (items.map toJson)).Readable :=
  Json.itemsReadable_iff.mpr (List.forall_mem_map.mpr h)

theorem Clause.readable_toJson {c : Clause} (h : c.expr.toJson.Readable) : c.toJson.Readable :=
  Json.membersReadable_iff.mpr (List.forall_mem_cons.mpr ⟨h, forall_mem_mark trivial⟩)

theorem OrderTerm.readable_toJson {t : OrderTerm} (h : t.expr.toJson.Readable) :
    t.toJson.Readable :=
  ⟨h, ⟨trivial, trivial, trivial, trivial⟩, trivial⟩

theorem SelectField.readable_toJson {f : SelectField} (h : f.expr.toJson.Readable) :
    f.toJson.Readable :=
  ⟨trivial, h, trivial⟩

namespace Source

mutual

theorem readable_toJson : ∀ {s : Source}, s.EveryLevel Level.FloatsReadBack → s.toJson.Readable
  | .collection _ _, _ => ⟨trivial, trivial, trivial, trivial⟩
  | .subquery _ _, h => ⟨trivial, readable_queryToJson h, trivial, trivial⟩

/-- The tree of a query has a text that is read back where the floats of its literals do. -/
theorem readable_queryToJson : ∀ {q : Query}, q.EveryLevel Level.FloatsReadBack →
    (queryToJson q).Readable
  | ⟨source, select, joins, filters, groupBy, having, orderBy, limit, offset, isDistinct, _, _, _⟩,
      ⟨hlevel, hsource, hjoins⟩ => by
    obtain ⟨hselect, hends, hfilters, hgroupBy, hhaving, horderBy⟩ :=
      Level.forall_mem_exprs.mp hlevel.exprs_readable
    rw [queryToJson]
    refine Json.membersReadable_iff.mpr ?_
    simp only [List.forall_mem_append, List.forall_mem_singleton, and_assoc]
    refine ⟨readable_toJson hsource, ?_, ?_, ?_, ?_, ?_, ?_, ?_, ?_, forall_mem_mark trivial⟩
    · exact forall_mem_optionalMember fun fs hfs => Json.readable_array_map fun f hf =>
        SelectField.readable_toJson (hselect f (by rw [Option.mem_def.mp hfs]; exact hf))
    · refine forall_mem_listMember ?_
      rw [List.map_id]
      exact itemsReadable_joinsToJson hjoins hends
    · exact forall_mem_listMember
        (Json.readable_array_map fun c hc => Clause.readable_toJson (hfilters c hc))
    · exact forall_mem_listMember (Json.readable_array_map hgroupBy)
    · exact forall_mem_listMember
        (Json.readable_array_map fun c hc => Clause.readable_toJson (hhaving c hc))
    · exact forall_mem_listMember
        (Json.readable_array_map fun t ht => OrderTerm.readable_toJson (horderBy t ht))
    · exact forall_mem_optionalMember fun n _ => Json.readable_int n
    · exact forall_mem_optionalMember fun n _ => Json.readable_int n

theorem itemsReadable_joinsToJson : ∀ {joins : List (Join Source)},
    EveryLevelOfJoins Level.FloatsReadBack joins →
      (∀ j ∈ joins, j.left.toJson.Readable ∧ j.right.toJson.Readable) →
        Json.ItemsReadable (joinsToJson joins)
  | [], _, _ => trivial
  | ⟨_, _, _, _⟩ :: _, ⟨hsource, hjoins⟩, hends =>
    have hends := List.forall_mem_cons.mp hends
    ⟨⟨readable_toJson hsource, trivial, hends.1.1, hends.1.2, trivial⟩,
      itemsReadable_joinsToJson hjoins hends.2⟩

end

end Source

/-! ## Shapes -/

open Json (Shape)

theorem Clause.covers_toJson (c : Clause) : (Shape.plainRecord Clause.members).Covers c.toJson :=
  Shape.covers_plainRecord
    (List.forall_mem_cons.mpr ⟨List.mem_cons_self, forall_mem_mark (by simp [Clause.members])⟩)

theorem SelectField.covers_toJson (f : SelectField) :
    (Shape.plainRecord SelectField.members).Covers f.toJson :=
  Shape.covers_plainRecord (by simp [SelectField.members])

theorem SortRule.covers_toJson (r : SortRule) :
    (Shape.plainRecord SortRule.members).Covers r.toJson :=
  Shape.covers_plainRecord (by simp [SortRule.members])

theorem OrderTerm.covers_toJson (t : OrderTerm) :
    (Shape.record [("expr", .whole), ("options", .plainRecord SortRule.members)]).Covers t.toJson :=
  ⟨⟨_, rfl, Shape.covers_whole _⟩, ⟨_, rfl, t.rule.covers_toJson⟩, trivial⟩

theorem Source.covers_joinsToJson (joins : List (Join Source)) :
    ∀ j ∈ joinsToJson joins, (Shape.plainRecord joinMembers).Covers j := by
  induction joins with
  | nil => exact fun _ hj => absurd hj List.not_mem_nil
  | cons j joins ih =>
    obtain ⟨kind, source, left, right⟩ := j
    exact List.forall_mem_cons.mpr ⟨Shape.covers_plainRecord (by simp [joinMembers]), ih⟩

namespace Query

/-- Everything in the tree of a query is asked for where a query is read. -/
theorem covers_toJson (q : Query) : shape.Covers q.toJson := by
  obtain ⟨source, select, joins, filters, groupBy, having, orderBy, limit, offset, isDistinct, _, _,
    _⟩ := q
  have hwhole : ∀ {name : String} (j : Json), shape.member? name = some .whole →
      ∃ s, shape.member? name = some s ∧ s.Covers j :=
    fun j hname => ⟨.whole, hname, Shape.covers_whole j⟩
  rw [toJson, Source.queryToJson]
  refine Shape.coversMembers_iff.mpr ?_
  simp only [List.forall_mem_append, List.forall_mem_singleton, and_assoc]
  refine ⟨hwhole _ rfl, ?_, ?_, ?_, ?_, ?_, ?_, ?_, ?_, forall_mem_mark (hwhole _ rfl)⟩
  · exact forall_mem_optionalMember fun fs _ => ⟨_, rfl, Shape.covers_list
      (List.forall_mem_map.mpr fun f _ => f.covers_toJson)⟩
  · refine forall_mem_listMember ⟨_, rfl, Shape.covers_list ?_⟩
    rw [List.map_id]
    exact Source.covers_joinsToJson joins
  · exact forall_mem_listMember ⟨_, rfl, Shape.covers_list
      (List.forall_mem_map.mpr fun c _ => c.covers_toJson)⟩
  · exact forall_mem_listMember (hwhole _ rfl)
  · exact forall_mem_listMember ⟨_, rfl, Shape.covers_list
      (List.forall_mem_map.mpr fun c _ => c.covers_toJson)⟩
  · exact forall_mem_listMember ⟨_, rfl, Shape.covers_list
      (List.forall_mem_map.mpr fun t _ => t.covers_toJson)⟩
  · exact forall_mem_optionalMember fun _ _ => hwhole _ rfl
  · exact forall_mem_optionalMember fun _ _ => hwhole _ rfl

/-- **A written query is read back.** Its tree denotes it at every level, whatever it holds but row
functions; and so does its text, where the text of every float denotes that float and the containers
inside each other are not too many for a reader. -/
theorem read?_text {q : Query} (hq : q.EveryLevel Level.IsWritten) :
    Source.queryOfJson? false q.toJson = some q ∧
      (q.EveryLevel Level.FloatsReadBack → q.toJson.depth ≤ Json.depthLimit →
        read? q.text = some q) := by
  have htree := Source.queryOfJson?_toJson false hq
  refine ⟨htree, fun hfloats hdepth => ?_⟩
  have hread : q.toJson.Readable := Source.readable_queryToJson hfloats
  unfold read? text
  rw [Json.readShape?_pretty hread q.covers_toJson hdepth]
  exact htree

/-- A query that holds one of everything a text can hold: a nested query with a residual condition
and an empty SELECT, joins of all kinds, unknown expressions, the integer and the float of one
number, and texts that must be escaped. -/
def sampler : Query where
  source := .subquery {
    source := .collection "orders" "o"
    select := some []
    filters := [⟨.call "like" [.ref ["o", "note"], .literal (.string "\"a\\b\"\n\u0001%é")], true⟩]
    limit := some 0 } "o"
  select := some [⟨"n", .aggregate "count" []⟩, ⟨"other", .unknown⟩]
  joins := [
    ⟨.inner, .collection "users" "u", .ref ["o", "user"], .ref ["u", "id"]⟩,
    ⟨.left, .subquery {
      source := .collection "stock" "s"
      offset := some (-9223372036854775808)
      isDistinct := true } "t", .ref ["u", "id"], .ref ["t", "s", "id"]⟩,
    ⟨.right, .collection "tags" "g", .unknown, .literal .null⟩,
    ⟨.full, .collection "tags" "h", .ref [], .literal (.float ⟨0x3FB999999999999A⟩)⟩]
  filters := [⟨.call "eq" [.literal (.int 1), .literal (.float ⟨0x3FF0000000000000⟩)], false⟩]
  groupBy := [.ref ["o", "day"]]
  having := [⟨.literal (.object [("a", .array [.bool true, .float ⟨0x8000000000000000⟩]),
    ("b", .object [])]), true⟩]
  orderBy := [⟨.ref ["o", "day"], ⟨.desc, .last, .locale⟩⟩, ⟨.unknown, .standard⟩]
  limit := some 9223372036854775807

theorem read?_text_sampler :
    sampler.EveryLevel Level.IsWritten ∧ sampler.EveryLevel Level.FloatsReadBack ∧
      sampler.toJson.depth ≤ Json.depthLimit ∧ read? sampler.text = some sampler := by
  have hwritten : sampler.EveryLevel Level.IsWritten :=
    ⟨⟨rfl, rfl, rfl, by decide +kernel⟩, ⟨⟨rfl, rfl, rfl, by decide +kernel⟩, trivial, trivial⟩,
      trivial, ⟨⟨rfl, rfl, rfl, by decide +kernel⟩, trivial, trivial⟩, trivial, trivial, trivial⟩
  have hfloats : sampler.EveryLevel Level.FloatsReadBack :=
    ⟨by decide +kernel, ⟨by decide +kernel, trivial, trivial⟩,
      trivial, ⟨by decide +kernel, trivial, trivial⟩, trivial, trivial, trivial⟩
  have hdepth : sampler.toJson.depth ≤ Json.depthLimit := by decide +kernel
  exact ⟨hwritten, hfloats, hdepth, (read?_text hwritten).2 hfloats hdepth⟩

end Query

end DeltaView
