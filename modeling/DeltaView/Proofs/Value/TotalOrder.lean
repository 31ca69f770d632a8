import DeltaView.Proofs.Number.Rounding
import DeltaView.Row

/-!
# The order of values is total

`Value.cmp` turns around when its sides are exchanged and is transitive. Integers and floats stand
in one order although two integers are compared exactly and an integer with a float by its rounded
size: rounding is monotone, so an exact difference never contradicts a rounded one.

* `cmp_swap` and `cmp_lt_trans` make `Value.cmp` a total order, in which only identical values are
  even (`cmp_eq_iff`).
* The orders of row keys and of rows are put together from it.
-/

namespace DeltaView

namespace Value

/-! ## Numbers among each other -/

theorem compare_double (x y : Double) : compare x y = compare x.rank y.rank := rfl

theorem cmp_int_int_lt {m n : Int64} : cmp (.int m) (.int n) = .lt ↔ m.toInt < n.toInt := by
  rw [cmp, Std.compare_eq_lt]

theorem cmp_float_float_lt {x y : Double} : cmp (.float x) (.float y) = .lt ↔ x.rank < y.rank := by
  rw [cmp, compare_double, Std.compare_eq_lt]

/-- An integer stands before the float of its rounded size. -/
theorem cmp_int_float_lt {m : Int64} {x : Double} :
    cmp (.int m) (.float x) = .lt ↔ (Double.ofInt m.toInt).rank ≤ x.rank := by
  rw [cmp, compare_double, Ordering.then_eq_lt, Std.compare_eq_lt, Std.compare_eq_iff_eq,
    eq_self, and_true, le_iff_lt_or_eq]

theorem cmp_float_int_lt {m : Int64} {x : Double} :
    cmp (.float x) (.int m) = .lt ↔ x.rank < (Double.ofInt m.toInt).rank := by
  rw [cmp, compare_double, Ordering.then_eq_lt, Std.compare_eq_lt]
  simp

/-! ## Kinds -/

/-- The values that are compared by more than their kind. -/
def Kind.group : Kind → Nat
  | .null => 0
  | .bool => 1
  | .int => 2
  | .float => 2
  | .string => 4
  | .array => 5
  | .object => 6

theorem cmp_of_group_ne {a b : Value} (h : a.kind.group ≠ b.kind.group) :
    cmp a b = compare a.kind.group b.kind.group := by
  cases a <;> cases b <;> first | exact absurd rfl h | rfl

theorem group_le_of_cmp_lt {a b : Value} (h : cmp a b = .lt) : a.kind.group ≤ b.kind.group := by
  by_cases hg : a.kind.group = b.kind.group
  · exact le_of_eq hg
  · rw [cmp_of_group_ne hg] at h
    exact le_of_lt (Nat.compare_eq_lt.mp h)

/-! ## Exchanging the sides -/

mutual

theorem cmp_swap : ∀ a b : Value, cmp b a = (cmp a b).swap
  | .array as, b => by
    cases b with
    | array bs => simpa [cmp] using cmpItems_swap as bs
    | _ => rfl
  | .object as, b => by
    cases b with
    | object bs => simpa [cmp] using cmpFields_swap as bs
    | _ => rfl
  | .null, b => by cases b <;> rfl
  | .bool a, b => by
    cases b with
    | bool b =>
      rw [cmp, cmp]
      exact Std.OrientedCmp.eq_swap
    | _ => rfl
  | .int a, b => by
    cases b with
    | int b =>
      rw [cmp, cmp]
      exact Std.OrientedCmp.eq_swap
    | float b =>
      rw [cmp, cmp, Ordering.swap_then, compare_double, compare_double,
        Std.OrientedOrd.eq_swap (a := b.rank)]
      rfl
    | _ => rfl
  | .float a, b => by
    cases b with
    | float b =>
      rw [cmp, cmp, compare_double, compare_double]
      exact Std.OrientedCmp.eq_swap
    | int b =>
      rw [cmp, cmp, Ordering.swap_then, compare_double, compare_double,
        Std.OrientedOrd.eq_swap (b := a.rank)]
      rfl
    | _ => rfl
  | .string a, b => by
    cases b with
    | string b =>
      rw [cmp, cmp]
      exact Std.OrientedCmp.eq_swap
    | _ => rfl

theorem cmpItems_swap : ∀ as bs : List Value, cmpItems bs as = (cmpItems as bs).swap
  | [], [] => rfl
  | [], _ :: _ => rfl
  | _ :: _, [] => rfl
  | a :: as, b :: bs => by
    rw [cmpItems, cmpItems, Ordering.swap_then, cmp_swap a b, cmpItems_swap as bs]

theorem cmpFields_swap : ∀ as bs : List (String × Value), cmpFields bs as = (cmpFields as bs).swap
  | [], [] => rfl
  | [], _ :: _ => rfl
  | _ :: _, [] => rfl
  | (m, a) :: as, (n, b) :: bs => by
    rw [cmpFields, cmpFields, Ordering.swap_then, Ordering.swap_then, cmp_swap a b,
      cmpFields_swap as bs, Std.OrientedOrd.eq_swap (a := n)]

end

/-! ## Transitivity -/

mutual

theorem cmp_lt_trans : ∀ a b c : Value, cmp a b = .lt → cmp b c = .lt → cmp a c = .lt
  | a, b, c, hab, hbc => by
    have gab := group_le_of_cmp_lt hab
    have gbc := group_le_of_cmp_lt hbc
    by_cases hg : a.kind.group = c.kind.group
    · -- All three are of one kind, or numbers.
      cases a with
      | null =>
        cases b <;> cases c <;> simp only [kind, Kind.group] at hg gab gbc <;> omega
      | bool x =>
        cases b <;> cases c <;> simp only [kind, Kind.group] at hg gab gbc <;> try omega
        rw [cmp] at hab hbc ⊢
        exact Std.TransCmp.lt_trans hab hbc
      | int x =>
        cases b <;> cases c <;> simp only [kind, Kind.group] at hg gab gbc <;> try omega
        all_goals
          simp only [cmp_int_int_lt, cmp_int_float_lt, cmp_float_int_lt, cmp_float_float_lt] at *
        · omega
        · exact le_trans (Double.rank_ofInt_mono (le_of_lt hab)) hbc
        · rename_i f n
          by_contra hn
          have := Double.rank_ofInt_mono (not_lt.mp hn)
          omega
        · omega
      | float x =>
        cases b <;> cases c <;> simp only [kind, Kind.group] at hg gab gbc <;> try omega
        all_goals
          simp only [cmp_int_int_lt, cmp_int_float_lt, cmp_float_int_lt, cmp_float_float_lt] at *
        · exact lt_of_lt_of_le hab (Double.rank_ofInt_mono (le_of_lt hbc))
        all_goals omega
      | string x =>
        cases b <;> cases c <;> simp only [kind, Kind.group] at hg gab gbc <;> try omega
        rw [cmp] at hab hbc ⊢
        exact Std.TransCmp.lt_trans hab hbc
      | array xs =>
        cases b <;> cases c <;> simp only [kind, Kind.group] at hg gab gbc <;> try omega
        rw [cmp] at hab hbc ⊢
        exact cmpItems_lt_trans _ _ _ hab hbc
      | object xs =>
        cases b <;> cases c <;> simp only [kind, Kind.group] at hg gab gbc <;> try omega
        rw [cmp] at hab hbc ⊢
        exact cmpFields_lt_trans _ _ _ hab hbc
    · rw [cmp_of_group_ne hg]
      exact Nat.compare_eq_lt.mpr (by omega)

theorem cmpItems_lt_trans : ∀ as bs cs : List Value,
    cmpItems as bs = .lt → cmpItems bs cs = .lt → cmpItems as cs = .lt
  | [], [], [], h, _ => h
  | [], _ :: _, [], _, h => by simp [cmpItems] at h
  | [], _, _ :: _, _, _ => rfl
  | _ :: _, [], _, h, _ => by simp [cmpItems] at h
  | _ :: _, _ :: _, [], _, h => by simp [cmpItems] at h
  | a :: as, b :: bs, c :: cs, hab, hbc => by
    rw [cmpItems, Ordering.then_eq_lt, cmp_eq_iff] at *
    rcases hab with hab | ⟨rfl, hab⟩
    · rcases hbc with hbc | ⟨rfl, -⟩
      · exact Or.inl (cmp_lt_trans a b c hab hbc)
      · exact Or.inl hab
    · rcases hbc with hbc | ⟨rfl, hbc⟩
      · exact Or.inl hbc
      · exact Or.inr ⟨rfl, cmpItems_lt_trans as bs cs hab hbc⟩

theorem cmpFields_lt_trans : ∀ as bs cs : List (String × Value),
    cmpFields as bs = .lt → cmpFields bs cs = .lt → cmpFields as cs = .lt
  | [], [], [], h, _ => h
  | [], _ :: _, [], _, h => by simp [cmpFields] at h
  | [], _, _ :: _, _, _ => rfl
  | _ :: _, [], _, h, _ => by simp [cmpFields] at h
  | _ :: _, _ :: _, [], _, h => by simp [cmpFields] at h
  | (k, a) :: as, (m, b) :: bs, (n, c) :: cs, hab, hbc => by
    rw [cmpFields, Ordering.then_eq_lt, Ordering.then_eq_lt, cmp_eq_iff,
      Std.compare_eq_iff_eq] at *
    rcases hab with hab | ⟨rfl, hab⟩
    · rcases hbc with hbc | ⟨rfl, -⟩
      · exact Or.inl (Std.TransCmp.lt_trans hab hbc)
      · exact Or.inl hab
    · rcases hbc with hbc | ⟨rfl, hbc⟩
      · exact Or.inl hbc
      · refine Or.inr ⟨rfl, ?_⟩
        rcases hab with hab | ⟨rfl, hab⟩
        · rcases hbc with hbc | ⟨rfl, -⟩
          · exact Or.inl (cmp_lt_trans a b c hab hbc)
          · exact Or.inl hab
        · rcases hbc with hbc | ⟨rfl, hbc⟩
          · exact Or.inl hbc
          · exact Or.inr ⟨rfl, cmpFields_lt_trans as bs cs hab hbc⟩

end

end Value

/-! ## Total orders -/

/-- A comparison that turns around, whose outcome `lt` is transitive and under which only equal
things are even, is a total order. -/
theorem transCmp_of_lt {α : Type} {cmp : α → α → Ordering} (hswap : ∀ a b, cmp b a = (cmp a b).swap)
    (heq : ∀ a b, cmp a b = .eq ↔ a = b)
    (hlt : ∀ a b c, cmp a b = .lt → cmp b c = .lt → cmp a c = .lt) : Std.TransCmp cmp where
  eq_swap := hswap _ _
  isLE_trans := by
    intro a b c hab hbc
    rw [Ordering.isLE_iff_eq_lt_or_eq_eq, heq] at *
    rcases hab with hab | rfl
    · rcases hbc with hbc | rfl
      · exact Or.inl (hlt a b c hab hbc)
      · exact Or.inl hab
    · exact hbc

theorem lawfulEqCmp_of_eq_iff {α : Type} {cmp : α → α → Ordering}
    (heq : ∀ a b, cmp a b = .eq ↔ a = b) : Std.LawfulEqCmp cmp where
  compare_self := (heq _ _).mpr rfl
  eq_of_compare := (heq _ _).mp

instance : Std.TransCmp Value.cmp :=
  transCmp_of_lt Value.cmp_swap Value.cmp_eq_iff Value.cmp_lt_trans

instance : Std.LawfulEqCmp Value.cmp := lawfulEqCmp_of_eq_iff Value.cmp_eq_iff

namespace RowKey

mutual

theorem cmp_swap : ∀ a b : RowKey, cmp b a = (cmp a b).swap
  | .plain v, b => by
    cases b with
    | plain w => exact Value.cmp_swap v w
    | joined l r => rfl
  | .joined l r, b => by
    cases b with
    | plain w => rfl
    | joined l' r' =>
      rw [cmp, cmp, Ordering.swap_then, cmpSide_swap l l', cmpSide_swap r r']

theorem cmpSide_swap : ∀ a b : Option RowKey, cmpSide b a = (cmpSide a b).swap
  | none, b => by cases b <;> rfl
  | some a, b => by
    cases b with
    | none => rfl
    | some b => simpa [cmpSide] using cmp_swap a b

end

mutual

theorem cmp_lt_trans : ∀ a b c : RowKey, cmp a b = .lt → cmp b c = .lt → cmp a c = .lt
  | .plain v, b, c, hab, hbc => by
    cases b with
    | plain w =>
      cases c with
      | plain x => exact Value.cmp_lt_trans v w x hab hbc
      | joined l r => rfl
    | joined l r => cases c with
      | plain x => simp [cmp] at hbc
      | joined l' r' => rfl
  | .joined l r, b, c, hab, hbc => by
    cases b with
    | plain w => simp [cmp] at hab
    | joined l' r' =>
      cases c with
      | plain x => simp [cmp] at hbc
      | joined l'' r'' =>
        rw [cmp, Ordering.then_eq_lt, cmpSide_eq_iff] at *
        rcases hab with hab | ⟨rfl, hab⟩
        · rcases hbc with hbc | ⟨rfl, -⟩
          · exact Or.inl (cmpSide_lt_trans l l' l'' hab hbc)
          · exact Or.inl hab
        · rcases hbc with hbc | ⟨rfl, hbc⟩
          · exact Or.inl hbc
          · exact Or.inr ⟨rfl, cmpSide_lt_trans r r' r'' hab hbc⟩

theorem cmpSide_lt_trans : ∀ a b c : Option RowKey,
    cmpSide a b = .lt → cmpSide b c = .lt → cmpSide a c = .lt
  | none, b, c, hab, hbc => by cases b <;> cases c <;> simp_all [cmpSide]
  | some a, b, c, hab, hbc => by
    cases b with
    | none => simp [cmpSide] at hab
    | some b =>
      cases c with
      | none => simp [cmpSide] at hbc
      | some c =>
        rw [cmpSide] at *
        exact cmp_lt_trans a b c hab hbc

end

instance : Std.TransCmp RowKey.cmp := transCmp_of_lt cmp_swap cmp_eq_iff cmp_lt_trans

instance : Std.LawfulEqCmp RowKey.cmp := lawfulEqCmp_of_eq_iff cmp_eq_iff

end RowKey

/-! ## Rows -/

/-- An order by one comparison and, where it is even, by another one. -/
theorem transCmp_then {α β γ : Type} {c : β → β → Ordering} {d : γ → γ → Ordering}
    [Std.TransCmp c] [Std.TransCmp d] (f : α → β) (g : α → γ) :
    Std.TransCmp fun a b : α => (c (f a) (f b)).then (d (g a) (g b)) where
  eq_swap := by
    intro a b
    rw [Ordering.swap_then, ← Std.OrientedCmp.eq_swap, ← Std.OrientedCmp.eq_swap]
  isLE_trans := by
    intro a b e hab hbd
    rw [Ordering.isLE_then_iff_or] at *
    rcases hab with hab | ⟨hab, hab'⟩
    · rcases hbd with hbd | ⟨hbd, -⟩
      · exact Or.inl (Std.TransCmp.lt_trans hab hbd)
      · exact Or.inl (Std.TransCmp.lt_of_lt_of_eq hab hbd)
    · rcases hbd with hbd | ⟨hbd, hbd'⟩
      · exact Or.inl (Std.TransCmp.lt_of_eq_of_lt hab hbd)
      · exact Or.inr ⟨Std.TransCmp.eq_trans hab hbd, Std.TransCmp.isLE_trans hab' hbd'⟩

namespace Row

theorem cmpOrder_eq_iff (a b : Option String) : cmpOrder a b = .eq ↔ a = b := by
  cases a <;> cases b <;> simp [cmpOrder]

instance : Std.TransCmp cmpOrder := by
  refine transCmp_of_lt (fun a b => ?_) cmpOrder_eq_iff fun a b c => ?_
  · cases a <;> cases b <;> first | rfl | exact Std.OrientedOrd.eq_swap
  · cases a <;> cases b <;> cases c <;> simp [cmpOrder]
    exact Std.TransCmp.lt_trans

theorem cmp_eq_iff (a b : Row) : cmp a b = .eq ↔ a = b := by
  obtain ⟨k, v, o⟩ := a
  obtain ⟨k', v', o'⟩ := b
  simp only [cmp, Ordering.then_eq_eq, RowKey.cmp_eq_iff, Value.cmp_eq_iff, cmpOrder_eq_iff,
    Row.mk.injEq]

instance : Std.TransCmp cmp :=
  haveI := transCmp_then (c := Value.cmp) (d := cmpOrder) Row.value Row.order
  transCmp_then (c := RowKey.cmp)
    (d := fun a b : Row => (Value.cmp a.value b.value).then (cmpOrder a.order b.order))
    Row.key fun r => r

instance : Std.LawfulEqCmp cmp := lawfulEqCmp_of_eq_iff cmp_eq_iff

end Row

end DeltaView
