import DeltaView.Delta
import Mathlib.Tactic.Ring

/-!
# Sums over deltas

The multiplicity of an item, the mass of a delta and the size of a product of deltas are all sums
over entries: `weigh f d` adds `f` of every item, as often as its multiplicity says. `Same d e`
says that two deltas give every item the same multiplicity, so that they are the same change.

* `weigh_append`, `weigh_mapItems`, `weigh_filterItems`: how the sum goes through the operations
  on deltas; `total_eq_weigh` and `mass_eq_weigh` make totals and masses such sums.
* **`Same.weigh`**: deltas with the same totals have the same sums, whatever is summed. Everything
  that is a sum over a delta therefore depends on its totals alone.
-/

namespace DeltaView

namespace Delta

variable {α β M : Type}

section Ring

variable [CommRing M]

/-! ## Weighing -/

/-- The sum of a function over the items, each counted as often as its multiplicity says. -/
def weigh (f : α → M) : Delta α M → M
  | [] => 0
  | (a, m) :: d => m * f a + weigh f d

@[simp] theorem weigh_nil (f : α → M) : weigh f [] = 0 := rfl

@[simp] theorem weigh_cons (f : α → M) (a : α) (m : M) (d : Delta α M) :
    weigh f ((a, m) :: d) = m * f a + weigh f d := rfl

@[simp] theorem weigh_append (f : α → M) (d e : Delta α M) :
    weigh f (d ++ e) = weigh f d + weigh f e := by
  induction d with
  | nil => simp
  | cons p d ih =>
    obtain ⟨a, m⟩ := p
    rw [List.cons_append, weigh_cons, weigh_cons, ih]
    ring

@[simp] theorem weigh_negate (f : α → M) (d : Delta α M) :
    weigh f (negate d) = -weigh f d := by
  induction d with
  | nil => exact neg_zero.symm
  | cons p d ih =>
    obtain ⟨a, m⟩ := p
    show -m * f a + weigh f (negate d) = -(m * f a + weigh f d)
    rw [ih]
    ring

theorem weigh_mapItems (f : β → M) (g : α → β) (d : Delta α M) :
    weigh f (mapItems g d) = weigh (fun a => f (g a)) d := by
  induction d with
  | nil => rfl
  | cons p d ih =>
    obtain ⟨a, m⟩ := p
    show m * f (g a) + weigh f (mapItems g d) = m * f (g a) + weigh (fun a => f (g a)) d
    rw [ih]

theorem weigh_filterItems (f : α → M) (p : α → Bool) (d : Delta α M) :
    weigh f (filterItems p d) = weigh (fun a => if p a then f a else 0) d := by
  induction d with
  | nil => rfl
  | cons q d ih =>
    obtain ⟨a, m⟩ := q
    unfold filterItems at ih ⊢
    by_cases h : p a
    · simp [h, ih]
    · simp [h, ih]

/-- Entries under which the function is the same weigh the same. -/
theorem weigh_congr {f g : α → M} {d : Delta α M} (h : ∀ e ∈ d, f e.1 = g e.1) :
    weigh f d = weigh g d := by
  induction d with
  | nil => rfl
  | cons p d ih =>
    obtain ⟨a, m⟩ := p
    rw [weigh_cons, weigh_cons, h (a, m) List.mem_cons_self,
      ih fun e he => h e (List.mem_cons_of_mem _ he)]

@[simp] theorem weigh_zero (d : Delta α M) : weigh (fun _ => 0) d = 0 := by
  induction d with
  | nil => rfl
  | cons p d ih => simp [weigh, ih]

theorem weigh_add (f g : α → M) (d : Delta α M) :
    weigh (fun a => f a + g a) d = weigh f d + weigh g d := by
  induction d with
  | nil => exact (add_zero 0).symm
  | cons p d ih =>
    obtain ⟨a, m⟩ := p
    rw [weigh_cons, weigh_cons, weigh_cons, ih]
    ring

theorem weigh_sub (f g : α → M) (d : Delta α M) :
    weigh (fun a => f a - g a) d = weigh f d - weigh g d := by
  induction d with
  | nil => exact (sub_zero 0).symm
  | cons p d ih =>
    obtain ⟨a, m⟩ := p
    rw [weigh_cons, weigh_cons, weigh_cons, ih]
    ring

theorem weigh_mul (c : M) (f : α → M) (d : Delta α M) :
    weigh (fun a => c * f a) d = c * weigh f d := by
  induction d with
  | nil => simp
  | cons p d ih =>
    obtain ⟨a, m⟩ := p
    rw [weigh_cons, weigh_cons, ih]
    ring

/-- Entries whose multiplicities are multiplied by one number. -/
theorem weigh_scaled (f : β → M) (g : α → β) (m : M) (d : Delta α M) :
    weigh f (d.map fun p => (g p.1, m * p.2)) = m * weigh (fun a => f (g a)) d := by
  induction d with
  | nil => simp
  | cons p d ih =>
    obtain ⟨a, n⟩ := p
    rw [List.map_cons, weigh_cons, weigh_cons, ih]
    ring

/-- A sum over the parts that entries are replaced by, where a part grows with the multiplicity
of its entry. -/
theorem weigh_flatMap (f : β → M) (part : α × M → Delta β M) (g : α → M)
    (h : ∀ p, weigh f (part p) = p.2 * g p.1) (d : Delta α M) :
    weigh f (d.flatMap part) = weigh g d := by
  induction d with
  | nil => rfl
  | cons p d ih =>
    rw [List.flatMap_cons, weigh_append, ih, h p]
    rfl

/-- A sum over two deltas may be taken in either order. -/
theorem weigh_comm (f : α → β → M) (d : Delta α M) (e : Delta β M) :
    weigh (fun a => weigh (f a) e) d = weigh (fun b => weigh (fun a => f a b) d) e := by
  induction d with
  | nil => simp
  | cons p d ih =>
    obtain ⟨a, m⟩ := p
    simp only [weigh_cons]
    rw [ih, weigh_add, weigh_mul]

/-! ## Totals and masses -/

section Totals

variable [DecidableEq α]

theorem total_eq_weigh (a : α) (d : Delta α M) :
    total a d = weigh (fun b => if b = a then 1 else 0) d := by
  induction d with
  | nil => rfl
  | cons p d ih =>
    obtain ⟨b, m⟩ := p
    rw [total, weigh_cons, ih]
    by_cases h : b = a <;> simp [h]

@[simp] theorem total_append (a : α) (d e : Delta α M) :
    total a (d ++ e) = total a d + total a e := by
  rw [total_eq_weigh, total_eq_weigh, total_eq_weigh, weigh_append]

@[simp] theorem total_negate (a : α) (d : Delta α M) : total a (negate d) = -total a d := by
  rw [total_eq_weigh, total_eq_weigh, weigh_negate]

omit [DecidableEq α] in
theorem total_mapItems [DecidableEq β] (b : β) (f : α → β) (d : Delta α M) :
    total b (mapItems f d) = weigh (fun a => if f a = b then 1 else 0) d := by
  rw [total_eq_weigh, weigh_mapItems]

omit [DecidableEq α] in
/-- The total of an item that has one preimage only. -/
theorem total_mapItems_of_inverse [DecidableEq α] [DecidableEq β] {f : α → β} {a : α} {b : β}
    (h : ∀ x, f x = b ↔ x = a) (d : Delta α M) : total b (mapItems f d) = total a d := by
  rw [total_mapItems, total_eq_weigh]
  simp only [h]

theorem total_filterItems (a : α) (p : α → Bool) (d : Delta α M) :
    total a (filterItems p d) = if p a then total a d else 0 := by
  rw [total_eq_weigh, weigh_filterItems, total_eq_weigh]
  by_cases h : p a
  · rw [if_pos h]
    refine weigh_congr fun e _ => ?_
    by_cases he : e.1 = a
    · rw [he, if_pos h]
    · simp [he]
  · rw [if_neg h]
    refine Eq.trans (weigh_congr fun e _ => ?_) (weigh_zero d)
    by_cases he : e.1 = a
    · rw [he, if_neg h]
    · simp [he]

theorem total_eq_zero_of_not_mem {a : α} {d : Delta α M} (h : ∀ e ∈ d, e.1 ≠ a) :
    total a d = 0 := by
  rw [total_eq_weigh]
  exact Eq.trans (weigh_congr fun e he => if_neg (h e he)) (weigh_zero d)

end Totals

theorem mass_eq_weigh (d : Delta α M) : mass d = weigh (fun _ => 1) d := by
  induction d with
  | nil => rfl
  | cons p d ih =>
    obtain ⟨a, m⟩ := p
    rw [mass, weigh_cons, ih, mul_one]

/-! ## The same change -/

section Same

variable [DecidableEq α] [DecidableEq β]

/-- Every item has the same multiplicity in both. -/
def Same (d e : Delta α M) : Prop := ∀ a, total a d = total a e

namespace Same

variable {d d' e e' : Delta α M}

@[refl] theorem refl (d : Delta α M) : Same d d := fun _ => rfl

@[symm] theorem symm (h : Same d e) : Same e d := fun a => (h a).symm

@[trans] theorem trans {f : Delta α M} (h : Same d e) (h' : Same e f) : Same d f :=
  fun a => (h a).trans (h' a)

theorem of_eq (h : d = e) : Same d e := h ▸ refl d

theorem append (h : Same d d') (h' : Same e e') : Same (d ++ e) (d' ++ e') := fun a => by
  rw [total_append, total_append, h a, h' a]

end Same

/-- The sum over a delta, with the entries of one item counted apart. -/
theorem weigh_split (f : α → M) (a : α) (d : Delta α M) :
    weigh f d = total a d * f a + weigh f (filterItems (fun b => b ≠ a) d) := by
  induction d with
  | nil => simp [total, filterItems]
  | cons p d ih =>
    obtain ⟨b, m⟩ := p
    unfold filterItems at ih ⊢
    by_cases h : b = a
    · simp only [weigh_cons, total, h, if_true, List.filter_cons, ne_eq, not_true_eq_false,
        decide_false, Bool.false_eq_true, if_false]
      rw [ih]
      ring
    · simp only [weigh_cons, total, h, if_false, List.filter_cons, ne_eq, not_false_eq_true,
        decide_true, if_true]
      rw [ih]
      ring

/-- A delta without effect weighs nothing. -/
theorem weigh_eq_zero (f : α → M) {d : Delta α M} (h : ∀ a, total a d = 0) : weigh f d = 0 := by
  -- Induction on the length: the first item is taken out together with all its entries.
  induction hn : d.length using Nat.strong_induction_on generalizing d with
  | _ n ih =>
    cases d with
    | nil => rfl
    | cons p d =>
      obtain ⟨a, m⟩ := p
      rw [weigh_split f a, h a, zero_mul, zero_add]
      refine ih _ ?_ (fun b => ?_) rfl
      · rw [← hn]
        have hle := List.length_filter_le (fun q : α × M => decide (q.1 ≠ a)) d
        simp only [filterItems, List.filter_cons, ne_eq, not_true_eq_false, decide_false,
          Bool.false_eq_true, if_false, List.length_cons]
        exact Nat.lt_succ_of_le hle
      · rw [total_filterItems, h b]
        simp

/-- **Sums depend on totals alone.** -/
theorem Same.weigh {d e : Delta α M} (h : Same d e) (f : α → M) :
    Delta.weigh f d = Delta.weigh f e := by
  have hz : ∀ a, total a (d ++ negate e) = 0 := fun a => by
    rw [total_append, total_negate, h a, add_neg_cancel]
  have hw := weigh_eq_zero f hz
  rw [weigh_append, weigh_negate] at hw
  exact add_neg_eq_zero.mp hw

theorem Same.mass {d e : Delta α M} (h : Same d e) : Delta.mass d = Delta.mass e := by
  rw [mass_eq_weigh, mass_eq_weigh, h.weigh]

theorem Same.mapItems {d e : Delta α M} (h : Same d e) (f : α → β) :
    Same (Delta.mapItems f d) (Delta.mapItems f e) := fun b => by
  rw [total_mapItems, total_mapItems, h.weigh]

theorem Same.filterItems {d e : Delta α M} (h : Same d e) (p : α → Bool) :
    Same (Delta.filterItems p d) (Delta.filterItems p e) := fun a => by
  rw [total_filterItems, total_filterItems, h a]

end Same

end Ring

/-! ## Operations one after the other -/

@[simp] theorem mapItems_append (f : α → β) (d e : Delta α M) :
    mapItems f (d ++ e) = mapItems f d ++ mapItems f e := List.map_append

@[simp] theorem filterItems_append (p : α → Bool) (d e : Delta α M) :
    filterItems p (d ++ e) = filterItems p d ++ filterItems p e := List.filter_append ..

theorem mapItems_mapItems {γ : Type} (g : β → γ) (f : α → β) (d : Delta α M) :
    mapItems g (mapItems f d) = mapItems (fun a => g (f a)) d := by
  simp [mapItems]

theorem mapItems_congr {f g : α → β} {d : Delta α M} (h : ∀ e ∈ d, f e.1 = g e.1) :
    mapItems f d = mapItems g d :=
  List.map_congr_left fun (a, m) he => congrArg (·, m) (h (a, m) he)

theorem filterItems_congr {p q : α → Bool} {d : Delta α M} (h : ∀ e ∈ d, p e.1 = q e.1) :
    filterItems p d = filterItems q d :=
  List.filter_congr fun e he => h e he

theorem filterItems_eq_self {p : α → Bool} {d : Delta α M} (h : ∀ e ∈ d, p e.1 = true) :
    filterItems p d = d := List.filter_eq_self.mpr h

theorem filterItems_eq_nil {p : α → Bool} {d : Delta α M} (h : ∀ e ∈ d, p e.1 = false) :
    filterItems p d = [] :=
  List.filter_eq_nil_iff.mpr fun e he => Bool.eq_false_iff.mp (h e he)

theorem filterItems_mapItems (p : β → Bool) (f : α → β) (d : Delta α M) :
    filterItems p (mapItems f d) = mapItems f (filterItems (fun a => p (f a)) d) := by
  simp only [filterItems, mapItems, List.filter_map]
  rfl

theorem filterItems_filterItems (p q : α → Bool) (d : Delta α M) :
    filterItems p (filterItems q d) = filterItems (fun a => q a && p a) d := by
  simp only [filterItems, List.filter_filter]
  exact List.filter_congr fun e _ => Bool.and_comm _ _

end Delta

end DeltaView
