import DeltaView.Proofs.Value.TotalOrder
import DeltaView.Value.Sort
import DeltaView.Window.Ranking

/-!
# Sorting rules order values where rounding keeps integers apart

A sorting rule compares two integers exactly, but an integer with a float by its rounded size. A
float that is the rounded size of two integers is even with both of them, although they are not
even. Apart from that, every rule is a total preorder.

* `ascending_swap`, `compareTuples_swap`: exchanging the sides turns every comparison around.
* `RoundedApart S`: no float in `S` is the rounded size of two integers at its place.
* **`ascending_isLE_trans`**: among such values the comparison is transitive.
* **`compareTuples_consistent`**: so are the comparisons of ORDER BY and of the rows of a ranking.
  `compareTuples_consistent_fails`: not otherwise.
-/

namespace DeltaView

/-! ## Places -/

namespace Value

/-- The value at a place inside nested arrays, given by the positions that lead to it. -/
def itemAt? : List Nat → Value → Option Value
  | [], v => some v
  | i :: place, .array items => items[i]?.bind (itemAt? place)
  | _ :: _, _ => none

/-- A value stands at a place in one of the values of a set. -/
def OccursAt (S : Value → Prop) (place : List Nat) (w : Value) : Prop :=
  ∃ v, S v ∧ v.itemAt? place = some w

/-- No float is the rounded size of two integers that stand at its place. -/
def RoundedApart (S : Value → Prop) : Prop :=
  ∀ (place : List Nat) (m n : Int64), OccursAt S place (.int m) → OccursAt S place (.int n) →
    OccursAt S place (.float (Double.ofInt m.toInt)) →
    Double.ofInt m.toInt = Double.ofInt n.toInt → m = n

/-- The arrays of the tuples of a set. -/
def arraysOf (T : List Value → Prop) : Value → Prop
  | .array items => T items
  | _ => False

namespace RoundedApart

variable {S S' : Value → Prop} {T : List Value → Prop}

/-- It is enough that every number stands at some place where it stood before. -/
theorem of_places (h : RoundedApart S) (at' : List Nat → List Nat)
    (hat : ∀ place w, w.isNumber → OccursAt S' place w → OccursAt S (at' place) w) :
    RoundedApart S' := by
  intro place m n hm hn hx he
  exact h (at' place) m n (hat _ _ rfl hm) (hat _ _ rfl hn) (hat _ _ rfl hx) he

theorem mono (h : RoundedApart S) (hs : ∀ v, S' v → S v) : RoundedApart S' := by
  refine h.of_places id fun place w _ => ?_
  rintro ⟨v, hv, hw⟩
  exact ⟨v, hs v hv, hw⟩

/-- Integers of at most `2 ^ 53` are kept apart. -/
theorem of_natAbs_le
    (h : ∀ place n, OccursAt S place (.int n) → n.toInt.natAbs ≤ 2 ^ 53) : RoundedApart S := by
  intro place m n hm hn _ he
  exact Int64.toInt_inj.mp (Double.ofInt_inj (h place m hm) (h place n hn) he)

/-- The arrays among the values. -/
theorem arrays (h : RoundedApart S) : RoundedApart (arraysOf fun items => S (.array items)) := by
  refine h.mono fun v hv => ?_
  cases v with
  | array items => exact hv
  | _ => exact hv.elim

/-- The first terms of the tuples; a missing one is null. -/
theorem heads (h : RoundedApart (arraysOf T)) :
    RoundedApart fun v => ∃ t, T t ∧ t.headD .null = v := by
  refine h.of_places (0 :: ·) fun place w hw => ?_
  rintro ⟨-, ⟨t, ht, rfl⟩, hv⟩
  cases t with
  | nil =>
    cases place with
    | nil =>
      obtain rfl : Value.null = w := by simpa [itemAt?] using hv
      exact absurd hw (by decide)
    | cons i place => exact absurd hv (by simp [itemAt?])
  | cons v t => exact ⟨.array (v :: t), ht, by simpa [itemAt?] using hv⟩

/-- The place in a tuple of a place in what is behind its first term. -/
def placeBehind : List Nat → List Nat
  | [] => []
  | i :: place => (i + 1) :: place

/-- The tuples without their first terms. -/
theorem tails (h : RoundedApart (arraysOf T)) :
    RoundedApart (arraysOf fun u => ∃ t, T t ∧ t.tail = u) := by
  refine h.of_places placeBehind fun place w hw => ?_
  rintro ⟨v, hv, hi⟩
  cases v with
  | array items =>
    obtain ⟨t, ht, rfl⟩ := hv
    cases place with
    | nil =>
      obtain rfl : Value.array t.tail = w := by simpa [itemAt?] using hi
      exact absurd hw (by simp [isNumber])
    | cons i place => exact ⟨.array t, ht, by simpa [placeBehind, itemAt?] using hi⟩
  | _ => exact hv.elim

end RoundedApart

end Value

/-! ## Texts -/

/-- Characters are compared as lists of code points are. -/
theorem compareChars_eq : ∀ as bs : List Char,
    compareChars as bs = List.compareLex (compareOn Char.toNat) as bs
  | [], [] => rfl
  | [], _ :: _ => rfl
  | _ :: _, [] => rfl
  | a :: as, b :: bs => by
    rw [compareChars, List.compareLex_cons_cons, compareChars_eq as bs]
    rfl

instance : Std.TransCmp compareChars := by
  rw [funext fun as => funext (compareChars_eq as)]
  infer_instance

instance (order : TextOrder) : Std.TransCmp order.compare := by
  cases order with
  | lexical => exact inferInstanceAs (Std.TransCmp fun s t : String => Ord.compare s t)
  | locale =>
    exact transCmp_then (c := compareChars) (d := fun s t : String => Ord.compare s t)
      (fun s : String => s.toList.flatMap Letter.lowerChar) fun s => s

namespace SortRule

variable {r : SortRule}

/-! ## Values of different kinds -/

/-- The place of a kind among the others, with nulls where the rule has them. -/
def grade (r : SortRule) (v : Value) : Nat :=
  match v.kind, r.nulls with
  | .null, .first => 0
  | .null, .last => 7
  | k, _ => k.group

theorem ascending_of_grade_ne {a b : Value} (h : r.grade a ≠ r.grade b) :
    ascending r a b = Ord.compare (r.grade a) (r.grade b) := by
  obtain ⟨_, nulls, _⟩ := r
  cases nulls <;> cases a <;> cases b <;> first | rfl | exact absurd rfl h

theorem grade_le_of_isLE {a b : Value} (h : (ascending r a b).isLE) : r.grade a ≤ r.grade b := by
  by_cases hg : r.grade a = r.grade b
  · exact le_of_eq hg
  · rw [ascending_of_grade_ne hg] at h
    exact Nat.isLE_compare.mp h

/-- Values of one place are of one kind, or numbers. -/
theorem kind_of_grade_eq {a b : Value} (h : r.grade a = r.grade b) :
    a.isNumber ∧ b.isNumber ∨ a.isNumber = false ∧ a.kind = b.kind := by
  obtain ⟨_, nulls, _⟩ := r
  cases nulls <;> cases a <;> cases b <;> first
    | exact Or.inl ⟨rfl, rfl⟩
    | exact Or.inr ⟨rfl, rfl⟩
    | exact absurd h (by simp [grade, Value.kind, Value.Kind.group])

/-! ## Numbers -/

theorem ascending_int_int (m n : Int64) :
    ascending r (.int m) (.int n) = Ord.compare m.toInt n.toInt := rfl

theorem ascending_int_float (m : Int64) (x : Double) :
    ascending r (.int m) (.float x) = Ord.compare (Double.ofInt m.toInt).rank x.rank := rfl

theorem ascending_float_int (x : Double) (m : Int64) :
    ascending r (.float x) (.int m) = Ord.compare x.rank (Double.ofInt m.toInt).rank := rfl

theorem ascending_float_float (x y : Double) :
    ascending r (.float x) (.float y) = Ord.compare x.rank y.rank := rfl

theorem numbers_swap {a b : Value} (ha : a.isNumber) (hb : b.isNumber) :
    ascending r b a = (ascending r a b).swap := by
  cases a <;> cases b <;> first
    | exact absurd ha Bool.false_ne_true
    | exact absurd hb Bool.false_ne_true
    | exact Std.OrientedOrd.eq_swap (α := Int)

/-- **Numbers are in order** unless a float is the rounded size of two integers. -/
theorem numbers_isLE_trans {S : Value → Prop} (h : Value.RoundedApart S) {a b c : Value}
    (ha : S a) (hb : S b) (hc : S c) (na : a.isNumber) (nb : b.isNumber) (nc : c.isNumber)
    (hab : (ascending r a b).isLE) (hbc : (ascending r b c).isLE) : (ascending r a c).isLE := by
  cases a <;> try exact absurd na Bool.false_ne_true
  all_goals
    cases b <;> try exact absurd nb Bool.false_ne_true
  all_goals
    cases c <;> try exact absurd nc Bool.false_ne_true
  all_goals
    simp only [ascending_int_int, ascending_int_float, ascending_float_int, ascending_float_float,
      Int.isLE_compare] at hab hbc ⊢
  case int.int.int m n k => omega
  case int.int.float m n x => exact le_trans (Double.rank_ofInt_mono hab) hbc
  case int.float.int m x n =>
    -- A float between two integers keeps them in order, or is the rounded size of both.
    by_contra hn
    have hle := Double.rank_ofInt_mono (le_of_lt (not_le.mp hn))
    have hm : Double.ofInt m.toInt = x := Double.rank_inj (by omega)
    have hmn : Double.ofInt m.toInt = Double.ofInt n.toInt := Double.rank_inj (by omega)
    have heq := h [] m n ⟨_, ha, rfl⟩ ⟨_, hc, rfl⟩ ⟨_, hb, by rw [hm]; rfl⟩ hmn
    rw [heq] at hn
    exact hn le_rfl
  case float.int.int x m n => exact le_trans hab (Double.rank_ofInt_mono hbc)
  all_goals omega

/-! ## Exchanging the sides -/

mutual

theorem ascending_swap (r : SortRule) : ∀ a b : Value, ascending r b a = (ascending r a b).swap
  | a, b => by
    by_cases hg : r.grade a = r.grade b
    · obtain ⟨ha, hb⟩ | ⟨-, hk⟩ := kind_of_grade_eq hg
      · exact numbers_swap ha hb
      · match a, b, hk with
        | .null, .null, _ => rfl
        | .bool a, .bool b, _ => exact Value.cmp_swap (.bool a) (.bool b)
        | .int m, .int n, _ => exact numbers_swap rfl rfl
        | .float x, .float y, _ => exact numbers_swap rfl rfl
        | .string s, .string t, _ =>
          simp only [ascending]
          exact Std.OrientedCmp.eq_swap
        | .array as, .array bs, _ => simpa [ascending] using ascendingItems_swap r as bs
        | .object as, .object bs, _ => exact Value.cmp_swap (.object as) (.object bs)
    · rw [ascending_of_grade_ne hg, ascending_of_grade_ne (Ne.symm hg)]
      exact Std.OrientedOrd.eq_swap

theorem ascendingItems_swap (r : SortRule) : ∀ as bs : List Value,
    ascendingItems r bs as = (ascendingItems r as bs).swap
  | [], [] => rfl
  | [], _ :: _ => rfl
  | _ :: _, [] => rfl
  | a :: as, b :: bs => by
    rw [ascendingItems, ascendingItems, Ordering.swap_then, ascending_swap r a b,
      ascendingItems_swap r as bs]

end

/-! ## Transitivity -/

/-- Three outcomes that fit together, and where they are even three that do, fit together. The
first three hypotheses are one fact about three values, turned around. -/
theorem isLE_then_trans {x y z u v w : Ordering} (h : x.isLE → y.isLE → z.isLE)
    (h' : y.isLE → z.swap.isLE → x.swap.isLE) (h'' : z.swap.isLE → x.isLE → y.swap.isLE)
    (hrest : u.isLE → v.isLE → w.isLE) (hx : (x.then u).isLE) (hy : (y.then v).isLE) :
    (z.then w).isLE := by
  cases x <;> cases y <;> cases z <;> simp_all

mutual

/-- **Among values that rounding keeps apart, a rule's comparison is transitive.** -/
theorem ascending_isLE_trans (r : SortRule) {S : Value → Prop} (h : Value.RoundedApart S) :
    ∀ a b c : Value, S a → S b → S c → (ascending r a b).isLE → (ascending r b c).isLE →
      (ascending r a c).isLE
  | a, b, c, ha, hb, hc, hab, hbc => by
    have gab := grade_le_of_isLE hab
    have gbc := grade_le_of_isLE hbc
    by_cases hg : r.grade a = r.grade c
    · obtain ⟨na, nb⟩ | ⟨na, kab⟩ := kind_of_grade_eq (show r.grade a = r.grade b by omega)
      · obtain ⟨-, nc⟩ | ⟨nc, -⟩ := kind_of_grade_eq (show r.grade b = r.grade c by omega)
        · exact numbers_isLE_trans h ha hb hc na nb nc hab hbc
        · exact absurd (nc.symm.trans nb) Bool.false_ne_true
      · obtain ⟨na', -⟩ | ⟨-, kac⟩ := kind_of_grade_eq hg
        · exact absurd (na.symm.trans na') Bool.false_ne_true
        match a, b, c, kab, kac with
        | .null, .null, .null, _, _ => rfl
        | .bool a, .bool b, .bool c, _, _ =>
          exact @Std.TransCmp.isLE_trans _ Value.cmp _ _ (.bool b) _ hab hbc
        | .string s, .string t, .string u, _, _ =>
          simp only [ascending] at hab hbc ⊢
          exact Std.TransCmp.isLE_trans hab hbc
        | .array as, .array bs, .array cs, _, _ =>
          simp only [ascending] at hab hbc ⊢
          exact ascendingItems_isLE_trans r h.arrays as bs cs ha hb hc hab hbc
        | .object as, .object bs, .object cs, _, _ =>
          exact @Std.TransCmp.isLE_trans _ Value.cmp _ _ (.object bs) _ hab hbc
    · rw [ascending_of_grade_ne hg, Nat.isLE_compare]
      exact le_trans gab gbc
termination_by a b c => sizeOf a + sizeOf b + sizeOf c

theorem ascendingItems_isLE_trans (r : SortRule) {T : List Value → Prop}
    (h : Value.RoundedApart (Value.arraysOf T)) :
    ∀ as bs cs : List Value, T as → T bs → T cs → (ascendingItems r as bs).isLE →
      (ascendingItems r bs cs).isLE → (ascendingItems r as cs).isLE
  | [], _, [], _, _, _, _, _ => rfl
  | [], _, _ :: _, _, _, _, _, _ => rfl
  | _ :: _, [], _, _, _, _, hab, _ => by simp [ascendingItems] at hab
  | _ :: _, _ :: _, [], _, _, _, _, hbc => by simp [ascendingItems] at hbc
  | a :: as, b :: bs, c :: cs, ha, hb, hc, hab, hbc => by
    have sa : ∃ t, T t ∧ t.headD .null = a := ⟨_, ha, rfl⟩
    have sb : ∃ t, T t ∧ t.headD .null = b := ⟨_, hb, rfl⟩
    have sc : ∃ t, T t ∧ t.headD .null = c := ⟨_, hc, rfl⟩
    have hrest := ascendingItems_isLE_trans r h.tails as bs cs ⟨_, ha, rfl⟩ ⟨_, hb, rfl⟩
      ⟨_, hc, rfl⟩
    have h1 := ascending_isLE_trans r h.heads a b c sa sb sc
    have h2 := ascending_isLE_trans r h.heads b c a sb sc sa
    have h3 := ascending_isLE_trans r h.heads c a b sc sa sb
    rw [ascending_swap r a c, ascending_swap r a b] at h2
    rw [ascending_swap r a c, ascending_swap r b c] at h3
    rw [ascendingItems] at hab hbc ⊢
    exact isLE_then_trans h1 h2 h3 hrest hab hbc
termination_by as bs cs => sizeOf as + sizeOf bs + sizeOf cs

end

theorem ascending_transCmp (r : SortRule) {S : Value → Prop} (h : Value.RoundedApart S) :
    Std.TransCmp fun a b : Subtype S => ascending r a.1 b.1 where
  eq_swap := fun {a b} => ascending_swap r b.1 a.1
  isLE_trans := fun {a b c} => ascending_isLE_trans r h a.1 b.1 c.1 a.2 b.2 c.2

/-! ## Terms in a direction -/

/-- The place of nulls before or after all other values. -/
def nullPlace (r : SortRule) (v : Value) : Nat :=
  match r.nulls with
  | .first => if v.isNull then 0 else 1
  | .last => if v.isNull then 1 else 0

/-- The direction turns the order of values other than nulls. -/
theorem compare_eq (r : SortRule) (a b : Value) :
    r.compare a b = (Ord.compare (r.nullPlace a) (r.nullPlace b)).then
      (match r.direction with
        | .asc => ascending r a b
        | .desc => ascending r b a) := by
  obtain ⟨direction, nulls, text⟩ := r
  rw [ascending_swap _ a b]
  cases direction <;> cases nulls <;> cases a <;> cases b <;> rfl

theorem compare_transCmp (r : SortRule) {S : Value → Prop} (h : Value.RoundedApart S) :
    Std.TransCmp fun a b : Subtype S => r.compare a.1 b.1 := by
  have hasc := ascending_transCmp r h
  simp only [compare_eq]
  cases r.direction with
  | asc =>
    exact transCmp_then (c := fun m n : Nat => Ord.compare m n)
      (fun a : Subtype S => r.nullPlace a.1) fun a => a
  | desc =>
    have := hasc.opposite
    exact transCmp_then (c := fun m n : Nat => Ord.compare m n)
      (d := fun a b : Subtype S => ascending r b.1 a.1)
      (fun a : Subtype S => r.nullPlace a.1) fun a => a

theorem compare_swap (r : SortRule) (a b : Value) : r.compare b a = (r.compare a b).swap := by
  rw [compare_eq, compare_eq, Ordering.swap_then, Std.OrientedOrd.eq_swap (a := r.nullPlace b)]
  cases r.direction with
  | asc => rw [ascending_swap r a b]
  | desc => rw [ascending_swap r b a]

/-! ## Tuples -/

theorem compareTerms_swap : ∀ (rules : List SortRule) (as bs : List Value),
    compareTerms rules bs as = (compareTerms rules as bs).swap
  | [], _, _ => rfl
  | r :: rules, as, bs => by
    rw [compareTerms, compareTerms, Ordering.swap_then, compare_swap r (as.headD .null),
      compareTerms_swap rules as.tail bs.tail]

theorem compareTuples_swap (rules : List SortRule) (as bs : List Value) :
    compareTuples rules bs as = (compareTuples rules as bs).swap := by
  rw [compareTuples, compareTuples, Ordering.swap_then, compareTerms_swap rules as bs,
    Std.OrientedOrd.eq_swap (a := bs.length)]

theorem compareTerms_transCmp : ∀ (rules : List SortRule) {T : List Value → Prop},
    Value.RoundedApart (Value.arraysOf T) →
      Std.TransCmp fun as bs : Subtype T => compareTerms rules as.1 bs.1
  | [], _, _ =>
    { eq_swap := rfl
      isLE_trans := fun _ _ => rfl }
  | r :: rules, T, h => by
    have hhead := compare_transCmp r h.heads
    have htail := compareTerms_transCmp rules h.tails
    exact transCmp_then (α := Subtype T)
      (c := fun a b : Subtype fun v => ∃ t, T t ∧ t.headD .null = v => r.compare a.1 b.1)
      (d := fun as bs : Subtype fun u => ∃ t, T t ∧ t.tail = u => compareTerms rules as.1 bs.1)
      (fun t => ⟨t.1.headD .null, t.1, t.2, rfl⟩) fun t => ⟨t.1.tail, t.1, t.2, rfl⟩

theorem compareTuples_transCmp (rules : List SortRule) {T : List Value → Prop}
    (h : Value.RoundedApart (Value.arraysOf T)) :
    Std.TransCmp fun as bs : Subtype T => compareTuples rules as.1 bs.1 := by
  have hterms := compareTerms_transCmp rules h
  exact transCmp_then (α := Subtype T) (d := fun m n : Nat => Ord.compare m n) (fun t => t)
    fun t => t.1.length

theorem compareTuples_self (rules : List SortRule) (as : List Value) :
    compareTuples rules as as = .eq := by
  have := compareTuples_swap rules as as
  cases h : compareTuples rules as as <;> simp [h] at this ⊢

/-! ## ORDER BY -/

/-- **ORDER BY is a consistent order** on rows whose terms rounding keeps apart. Exchanging the
sides turns the comparison of any two tuples around, and among the tuples of such a set it is
transitive. In a ranking, only rows of one key and one value are even, and rows with such terms
are strictly in order. -/
theorem compareTuples_consistent (rules : List SortRule) (T : List Value → Prop)
    (hT : Value.RoundedApart (Value.arraysOf T)) (terms : Value → List Value) :
    let compareRows := Ranking.compareRows fun v w => compareTuples rules (terms v) (terms w)
    (∀ as bs, compareTuples rules bs as = (compareTuples rules as bs).swap) ∧
      (∀ as bs cs, T as → T bs → T cs → (compareTuples rules as bs).isLE →
        (compareTuples rules bs cs).isLE → (compareTuples rules as cs).isLE) ∧
      (∀ r s : Row, compareRows r s = .eq ↔ r.key = s.key ∧ r.value = s.value) ∧
      (∀ r s : Row, compareRows s r = (compareRows r s).swap) ∧
      ∀ r s t : Row, T (terms r.value) → T (terms s.value) → T (terms t.value) →
        compareRows r s = .lt → compareRows s t = .lt → compareRows r t = .lt := by
  intro compareRows
  have htuples := compareTuples_transCmp rules hT
  refine ⟨compareTuples_swap rules, ?_, ?_, ?_, ?_⟩
  · intro as bs cs ha hb hc hab hbc
    exact htuples.isLE_trans (a := ⟨as, ha⟩) (b := ⟨bs, hb⟩) (c := ⟨cs, hc⟩) hab hbc
  · intro r s
    simp only [compareRows, Ranking.compareRows, Ordering.then_eq_eq, RowKey.cmp_eq_iff,
      Value.cmp_eq_iff]
    constructor
    · exact fun h => h.2
    · intro h
      refine ⟨?_, h⟩
      rw [h.2, compareTuples_self]
  · intro r s
    simp only [compareRows, Ranking.compareRows, Ordering.swap_then]
    rw [compareTuples_swap rules (terms r.value), RowKey.cmp_swap r.key, Value.cmp_swap r.value]
  · intro r s t hr hs ht hrs hst
    have hkeys := transCmp_then (c := RowKey.cmp) (d := Value.cmp) Row.key Row.value
    have hrows := transCmp_then (α := { r : Row // T (terms r.value) })
      (c := fun as bs : Subtype T => compareTuples rules as.1 bs.1)
      (d := fun a b : Row => (RowKey.cmp a.key b.key).then (Value.cmp a.value b.value))
      (fun r => ⟨terms r.1.value, r.2⟩) (fun r => r.1)
    exact hrows.lt_trans (a := ⟨r, hr⟩) (b := ⟨s, hs⟩) (c := ⟨t, ht⟩) hrs hst

/-- An integer, the float even with it, and a larger integer. -/
theorem compareTuples_consistent_of_three_rows :
    let T : List Value → Prop := (· ∈ [[.int 1], [.float (Double.ofInt 1)], [.int 2]])
    let r : Row := { key := .plain (.string "a"), value := .int 1 }
    let t : Row := { key := .plain (.string "c"), value := .int 2 }
    Value.RoundedApart (Value.arraysOf T) ∧
      Ranking.compareRows (fun v w => compareTuples [.standard] [v] [w]) r t = .lt := by
  intro T r t
  let s : Row := { key := .plain (.string "b"), value := .float (Double.ofInt 1) }
  have hT : Value.RoundedApart (Value.arraysOf T) := by
    refine .of_natAbs_le fun place n => ?_
    rintro ⟨v, hv, hn⟩
    cases v with
    | array items =>
      obtain rfl | rfl | rfl : items = [.int 1] ∨ items = [.float (Double.ofInt 1)] ∨
          items = [.int 2] := by simpa [T, Value.arraysOf] using hv
      all_goals
        rcases place with _ | ⟨_ | i, _ | ⟨j, place⟩⟩ <;> simp [Value.itemAt?] at hn
        try (subst hn; decide)
    | _ => exact hv.elim
  exact ⟨hT, (compareTuples_consistent [.standard] T hT fun v => [v]).2.2.2.2 r s t (by simp [T, r])
    (by simp [T, s]) (by simp [T, t]) (by decide +kernel) (by decide +kernel)⟩

/-- Of the integers `2 ^ 53 + 1` and `2 ^ 53`, both even with the float `2 ^ 53`, the first is the
larger one: the comparison is not transitive, and no ranking of the three rows is in order. -/
theorem compareTuples_consistent_fails :
    let a : Value := .int 9007199254740993
    let b : Value := .float (Double.ofInt 9007199254740992)
    let c : Value := .int 9007199254740992
    let compare := fun v w : Value => compareTuples [.standard] [v] [w]
    let row := fun (key : String) (v : Value) => ({ key := .plain (.string key), value := v } : Row)
    (compare a b).isLE ∧ (compare b c).isLE ∧ compare a c = .gt ∧
      Ranking.compareRows compare (row "a" a) (row "b" b) = .lt ∧
      Ranking.compareRows compare (row "b" b) (row "c" c) = .lt ∧
      Ranking.compareRows compare (row "a" a) (row "c" c) = .gt := by
  decide +kernel

end SortRule

end DeltaView
