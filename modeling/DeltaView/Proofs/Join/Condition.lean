import DeltaView.Proofs.Join.Orientation
import DeltaView.Proofs.Join.Process
import DeltaView.Proofs.Plan.Rows

/-!
# Join keys and equality

A join finds partners by looking up a key, and a key is found by its identity. A filter on pairs of
rows would call `eq` on the same two values, which compares numbers by size. This module says how
far the two agree.

* `valuesEqual_eq`: values of one kind are equal for `eq` if they are one value, and not null.
* `toJoinKey_meets`: two keys meet if `eq` holds of their values and the values are of one kind. The
  only values for which that differs from `eq` are an integer and the float of its size.
* `pairsWhere`: the nested loop over two tables, with any test of pairs.
* **`run_pairs_where_eq`**: whatever batches a join has read, the pairs among the rows that it has put
  out are those of the nested loop with `eq` and the kinds as its test.
-/

namespace DeltaView

/-! ## Two equalities -/

namespace Value

theorem isNull_eq_kind (a : Value) : a.isNull = (a.kind == .null) := by cases a <;> rfl

theorem numericCompare?_of_kind {a b : Value} {o : Ordering} (hk : a.kind = b.kind)
    (h : numericCompare? a b = some o) : o = .eq ↔ a = b := by
  cases a <;> cases b <;> simp only [kind, reduceCtorEq] at hk <;>
    simp only [numericCompare?, asDouble?, Option.bind_eq_bind, Option.bind_some, Option.bind_none,
      Option.some.injEq, reduceCtorEq] at h
  · rw [← h, Std.compare_eq_iff_eq, Int64.toInt_inj, int.injEq]
  · rw [← h, Double.compare_eq_iff, float.injEq]

/-- For `eq`, values of one kind are equal if they are one value, and not null. -/
theorem valuesEqual_eq {a b : Value} (hk : a.kind = b.kind) :
    a.valuesEqual b = (!a.isNull && a == b) := by
  have hnull : b.isNull = a.isNull := by rw [isNull_eq_kind, isNull_eq_kind, hk]
  unfold valuesEqual
  rw [hnull, Bool.or_self]
  cases a.isNull with
  | true => rfl
  | false =>
    rw [if_neg Bool.false_ne_true, Bool.not_false, Bool.true_and]
    split
    · rename_i o ho
      rw [Bool.eq_iff_iff, beq_iff_eq, beq_iff_eq]
      exact numericCompare?_of_kind hk ho
    · rfl

theorem numericCompare?_comm (a b : Value) :
    (numericCompare? a b).map (· == .eq) = (numericCompare? b a).map (· == .eq) := by
  have hswap : ∀ x y : Double, (compare x y == .eq) = (compare y x == .eq) := fun x y => by
    rw [Bool.eq_iff_iff, beq_iff_eq, beq_iff_eq, Double.compare_eq_iff, Double.compare_eq_iff, eq_comm]
  cases a <;> cases b <;> try rfl
  · refine congrArg some ?_
    rw [Bool.eq_iff_iff, beq_iff_eq, beq_iff_eq, Std.compare_eq_iff_eq, Std.compare_eq_iff_eq,
      eq_comm]
  all_goals exact congrArg some (hswap _ _)

/-- `eq` does not tell its arguments apart. -/
theorem valuesEqual_comm (a b : Value) : a.valuesEqual b = b.valuesEqual a := by
  have h := numericCompare?_comm a b
  unfold valuesEqual
  rw [Bool.or_comm]
  cases ha : numericCompare? a b <;> cases hb : numericCompare? b a <;> rw [ha, hb] at h
  · simp only [Bool.beq_comm]
  · exact absurd h (by simp)
  · exact absurd h (by simp)
  · simp only [Option.some.inj h]

/-- **Two keys meet exactly where `eq` holds of values of one kind.** -/
theorem toJoinKey_meets (a b : Value) :
    (a.toJoinKey.isSome && b.toJoinKey == a.toJoinKey) = (a.valuesEqual b && a.kind == b.kind) := by
  by_cases hk : a.kind = b.kind
  · rw [valuesEqual_eq hk, beq_iff_eq.mpr hk, Bool.and_true]
    unfold toJoinKey
    cases ha : a.isNull with
    | true => rfl
    | false =>
      rw [if_neg Bool.false_ne_true, Option.isSome_some, Bool.true_and, Bool.not_false, Bool.true_and,
        Bool.eq_iff_iff, beq_iff_eq, beq_iff_eq]
      split
      · rename_i hb
        exact ⟨fun h => absurd h (by simp), fun h => absurd (ha.symm.trans (h ▸ hb)) (by simp)⟩
      · rw [Option.some.injEq, eq_comm]
  · have hab : (a.kind == b.kind) = false := beq_eq_false_iff_ne.mpr hk
    rw [hab, Bool.and_false, Bool.and_eq_false_iff]
    by_contra hc
    obtain ⟨hs, he⟩ := not_or.mp hc
    rw [Bool.not_eq_false] at hs he
    obtain ⟨v, hv⟩ := Option.isSome_iff_exists.mp hs
    have hkey : ∀ {w : Value}, w.toJoinKey = some v → w = v := fun {w} hw => by
      unfold toJoinKey at hw
      split at hw
      · exact absurd hw (by simp)
      · exact Option.some.inj hw
    exact hk ((hkey hv).trans (hkey ((beq_iff_eq.mp he).trans hv)).symm ▸ rfl)

end Value

/-! ## Pairs -/

/-- Has a row got two sides? -/
def Row.isPair (r : Row) : Bool :=
  match r.key with
  | .joined (some _) (some _) => true
  | _ => false

/-- The pairs of rows that a test accepts, multiplicities multiplied. -/
def pairsWhere (test : Row → Row → Bool) (left right : Delta Row) : Delta Row :=
  left.flatMap fun (l, m) =>
    (Delta.filterItems (test l) right).map fun (r, n) => (Row.merge (some l) (some r), m * n)

/-- The pairs among joined rows are the related ones; padded rows have one side. -/
theorem JoinRule.pairs_table (rule : JoinRule) (left right : Delta Row) :
    Delta.filterItems Row.isPair (rule.table left right) = rule.matched left right := by
  have hpadded : ∀ {pad : Row → Row} (key partnerKey : Row → JoinKey) (rows partners : Delta Row),
      (∀ r, (pad r).isPair = false) →
      Delta.filterItems Row.isPair (padded pad key partnerKey rows partners) = [] := by
    intro pad key partnerKey rows partners hpad
    refine Delta.filterItems_eq_nil fun p hp => ?_
    obtain ⟨q, -, rfl⟩ := List.mem_map.mp hp
    exact hpad q.1
  have hmatched : Delta.filterItems Row.isPair (rule.matched left right) =
      rule.matched left right := by
    refine Delta.filterItems_eq_self fun p hp => ?_
    obtain ⟨l, -, hp⟩ := List.mem_flatMap.mp hp
    obtain ⟨r, -, rfl⟩ := List.mem_map.mp hp
    rfl
  have hleft := hpadded rule.leftKey rule.rightKey left right fun r =>
    (rfl : (JoinState.padLeft r).isPair = false)
  have hright := hpadded rule.rightKey rule.leftKey right left fun r =>
    (rfl : (JoinState.padRight r).isPair = false)
  have hnil : Delta.filterItems (M := Int) Row.isPair [] = [] := rfl
  unfold table
  rw [Delta.filterItems_append, Delta.filterItems_append, hmatched, apply_ite (Delta.filterItems _),
    apply_ite (Delta.filterItems _), hleft, hright, hnil, ite_self, ite_self, List.append_nil,
    List.append_nil]

namespace JoinCondition

/-- Does `eq` hold of the two sides of a condition, on a row of the main side and one of the joined
side? -/
def holds (c : JoinCondition) (l r : Row) : Bool :=
  (Function.eq.apply [c.main.eval l.value, c.joined.eval r.value]).isTruthy

/-- Are the values of the two sides of one kind? -/
def hasOneKind (c : JoinCondition) (l r : Row) : Bool :=
  (c.main.eval l.value).kind == (c.joined.eval r.value).kind

theorem orient_cases {left right : Expr} {known : List String} {label : String} {c : JoinCondition}
    (h : orient left right known label = .ok c) : c = ⟨left, right⟩ ∨ c = ⟨right, left⟩ :=
  (orient_eq_ok.mp h).2

/-- The rows that a join relates are those of which its condition holds with values of one kind. -/
theorem relates_eq (c : JoinCondition) (kind : JoinKind) (l r : Row) :
    (Plan.joinRule kind c.main c.joined).relates l r = (c.holds l r && c.hasOneKind l r) :=
  Value.toJoinKey_meets _ _

/-- **A join pairs the rows of which `eq` holds, as long as their key values are of one kind.** The
sides of the condition are those that were written, in one order or the other, and `eq` does not
depend on the order. After any batches of changes, the pairs that the join has put out add up to the
nested loop over what it has read. -/
theorem run_pairs_where_eq {left right : Expr} {known : List String} {label : String}
    {c : JoinCondition} (h : orient left right known label = .ok c) (kind : JoinKind)
    (batches : List (Delta Row × Delta Row)) :
    let rule := Plan.joinRule kind c.main c.joined
    let outputs := (JoinState.run rule .empty batches).2
    (c = ⟨left, right⟩ ∨ c = ⟨right, left⟩) ∧
      (∀ l r : Row, Function.eq.apply [c.joined.eval r.value, c.main.eval l.value] =
        Function.eq.apply [c.main.eval l.value, c.joined.eval r.value]) ∧
      (∀ l r, rule.relates l r = true ↔ c.holds l r = true ∧ c.hasOneKind l r = true) ∧
      Delta.Same (Delta.filterItems Row.isPair outputs.flatten)
        (pairsWhere (fun l r => c.holds l r && c.hasOneKind l r)
          (batches.map (·.1)).flatten (batches.map (·.2)).flatten) := by
  intro rule outputs
  refine ⟨orient_cases h, fun l r => congrArg Value.bool (Value.valuesEqual_comm _ _),
    fun l r => ?_, ?_⟩
  · rw [relates_eq, Bool.and_eq_true]
  · have hrun := JoinState.run_same rule batches
    have htest : (fun l r => c.holds l r && c.hasOneKind l r) = rule.relates :=
      funext fun l => funext fun r => (relates_eq c kind l r).symm
    rw [htest]
    exact (hrun.filterItems Row.isPair).trans (.of_eq (rule.pairs_table _ _))

/-- Users with an identity and posts with an author, in a condition written the other way round. -/
theorem run_pairs_where_eq_users :
    let c : JoinCondition := ⟨.ref ["u", "id"], .ref ["p", "author"]⟩
    let user : Row := { key := .plain (.int 1), value := .object [("u", .object [("id", .int 7)])] }
    let post : Row :=
      { key := .plain (.int 2), value := .object [("p", .object [("author", .int 7)])] }
    let batches : List (Delta Row × Delta Row) := [([(user, 1)], []), ([], [(post, 1)])]
    orient (.ref ["p", "author"]) (.ref ["u", "id"]) ["u"] "p" = .ok c ∧
      Delta.Same
        (Delta.filterItems Row.isPair
          (JoinState.run (Plan.joinRule .left c.main c.joined) .empty batches).2.flatten)
        [(Row.merge (some user) (some post), 1)] := by
  intro c user post batches
  have h : orient (.ref ["p", "author"]) (.ref ["u", "id"]) ["u"] "p" = .ok c := by decide
  exact ⟨h, (run_pairs_where_eq h .left batches).2.2.2.trans (.of_eq (by decide +kernel))⟩

/-- The integer 1 and the float 1 are equal for `eq`, and a join on them pairs nothing. -/
theorem int_key_misses_equal_float :
    let c : JoinCondition := ⟨.ref ["u", "id"], .ref ["p", "author"]⟩
    let user : Row := { key := .plain (.int 1), value := .object [("u", .object [("id", .int 1)])] }
    let post : Row :=
      { key := .plain (.int 2),
        value := .object [("p", .object [("author", .float (Double.ofInt 1))])] }
    orient (.ref ["u", "id"]) (.ref ["p", "author"]) ["u"] "p" = .ok c ∧
      (Function.eq.apply [c.main.eval user.value, c.joined.eval post.value]).isTruthy = true ∧
      (JoinState.process (Plan.joinRule .inner c.main c.joined) .empty [(user, 1)] [(post, 1)]).2 =
        [] := by
  decide +kernel

end JoinCondition

end DeltaView
