import DeltaView.Group.Aggregate
import DeltaView.Proofs.Json.Basic
import Mathlib.Algebra.BigOperators.Group.List.Basic
import Mathlib.Algebra.Order.Group.Int
import Mathlib.Algebra.Ring.Int.Defs

/-!
# Exact sums

A running sum keeps the exact integer total as long as every product and every partial total fits 64
bits. Which partial totals there are depends on the order of the terms.

* `exact_after`: an exact total that is still there is the sum of the terms.
* **`total_of_fits`**: it stays, whatever the order, where the terms above zero fit 64 bits together
  and those below zero too (`Fits`).
* `exists_lossy_part`, `total_ne_int_of_first`: where they do not, visiting one of the two first
  loses it.
-/

namespace DeltaView

theorem Value.int64?_eq_some {n : Int} {k : Int64} : int64? n = some k ↔ k.toInt = n :=
  Json.asInt64?_eq_some

theorem Value.int64?_of_fits {n : Int} (h : FitsInt64 n) : int64? n = some (Int64.ofInt n) :=
  int64?_eq_some.mpr (Int64.toInt_ofInt_of_le h.1 h.2)

namespace RunningSum

/-- What a term adds to an exact sum. -/
def product : Value × Int → Int
  | (.int n, m) => n.toInt * m
  | _ => 0

/-- The exact sum of all terms. -/
def exactSum (terms : Delta Value) : Int := (terms.map product).sum

/-- The sum of the terms that are above zero. -/
def gains (terms : Delta Value) : Int := (terms.map fun t => max 0 (product t)).sum

/-- The sum of the terms that are below zero. -/
def losses (terms : Delta Value) : Int := (terms.map fun t => min 0 (product t)).sum

/-- Do the terms above zero fit 64 bits together, and those below zero too? -/
def Fits (terms : Delta Value) : Prop := FitsInt64 (gains terms) ∧ FitsInt64 (losses terms)

/-- A running sum after further terms. -/
def after (s : RunningSum) (terms : Delta Value) : RunningSum :=
  terms.foldl (fun s (v, m) => s.add v m) s

theorem ofTerms_eq (terms : Delta Value) : ofTerms terms = start.after terms := rfl

theorem add_exact_int (s : RunningSum) (n : Int64) (m : Int) :
    (s.add (.int n) m).exact = addExact s.exact n m := rfl

/-- A term that is added exactly adds its product. -/
theorem add_exact {s : RunningSum} {v : Value} {m : Int} {k : Int64}
    (h : (s.add v m).exact = some k) :
    ∃ j, s.exact = some j ∧ k.toInt = j.toInt + product (v, m) := by
  cases v with
  | int n =>
    rw [add_exact_int, addExact] at h
    obtain ⟨j, hj, h⟩ := Option.bind_eq_some_iff.mp h
    obtain ⟨p, hp, h⟩ := Option.bind_eq_some_iff.mp h
    rw [Value.int64?_eq_some] at hp h
    exact ⟨j, hj, by rw [h, hp, product]⟩
  | _ => exact ⟨k, h, (add_zero _).symm⟩

/-- **An exact sum that is still there is the sum of its terms.** -/
theorem exact_after {terms : Delta Value} {s : RunningSum} {k : Int64}
    (h : (s.after terms).exact = some k) :
    ∃ j, s.exact = some j ∧ k.toInt = j.toInt + exactSum terms := by
  induction terms generalizing s with
  | nil => exact ⟨k, h, (add_zero _).symm⟩
  | cons t terms ih =>
    obtain ⟨i, hi, hk⟩ := ih h
    obtain ⟨j, hj, hij⟩ := add_exact hi
    refine ⟨j, hj, ?_⟩
    rw [hk, hij, add_assoc, exactSum, exactSum, List.map_cons, List.sum_cons]

theorem gains_nonneg (terms : Delta Value) : 0 ≤ gains terms := by
  induction terms with
  | nil => exact le_refl _
  | cons t terms ih =>
    rw [gains, List.map_cons, List.sum_cons]
    exact add_nonneg (le_max_left _ _) ih

theorem losses_nonpos (terms : Delta Value) : losses terms ≤ 0 := by
  induction terms with
  | nil => exact le_refl _
  | cons t terms ih =>
    rw [losses, List.map_cons, List.sum_cons]
    exact add_nonpos (min_le_left _ _) ih

/-- An exact sum stays where its gains and its losses fit, on their own and with what it starts
from. -/
theorem after_fits {terms : Delta Value} {s : RunningSum} {j : Int64} (hs : s.exact = some j)
    (h : Fits terms) (hup : j.toInt + gains terms < 2 ^ 63)
    (hlow : -2 ^ 63 ≤ j.toInt + losses terms) : ∃ k, (s.after terms).exact = some k := by
  induction terms generalizing s j with
  | nil => exact ⟨j, hs⟩
  | cons t terms ih =>
    obtain ⟨v, m⟩ := t
    have hg := gains_nonneg terms
    have hl := losses_nonpos terms
    obtain ⟨⟨-, hg'⟩, ⟨hl', -⟩⟩ := h
    have hgain : gains ((v, m) :: terms) = max 0 (product (v, m)) + gains terms := List.sum_cons
    have hloss : losses ((v, m) :: terms) = min 0 (product (v, m)) + losses terms := List.sum_cons
    rw [hgain] at hg' hup
    rw [hloss] at hl' hlow
    have hrest : Fits terms := ⟨⟨by omega, by omega⟩, ⟨by omega, by omega⟩⟩
    obtain ⟨i, hi, hij⟩ : ∃ i, (s.add v m).exact = some i ∧ i.toInt = j.toInt + product (v, m) := by
      cases v with
      | int n =>
        simp only [product] at *
        have hp : FitsInt64 (n.toInt * m) := ⟨by omega, by omega⟩
        have ht : FitsInt64 (j.toInt + n.toInt * m) := ⟨by omega, by omega⟩
        refine ⟨Int64.ofInt (j.toInt + n.toInt * m), ?_, Int64.toInt_ofInt_of_le ht.1 ht.2⟩
        rw [add_exact_int, addExact, hs, Option.bind_eq_bind, Option.bind_some,
          Value.int64?_of_fits hp, Option.bind_some, Int64.toInt_ofInt_of_le hp.1 hp.2,
          Value.int64?_of_fits ht]
      | _ => exact ⟨j, hs, (add_zero _).symm⟩
    exact ih hi hrest (by omega) (by omega)

/-! ### Any order -/

variable {terms terms' : Delta Value}

theorem exactSum_perm (h : terms.Perm terms') : exactSum terms = exactSum terms' :=
  (h.map product).sum_eq

theorem gains_perm (h : terms.Perm terms') : gains terms = gains terms' := (h.map _).sum_eq

theorem losses_perm (h : terms.Perm terms') : losses terms = losses terms' := (h.map _).sum_eq

theorem Fits.perm (hf : Fits terms) (h : terms.Perm terms') : Fits terms' := by
  unfold Fits at *
  rwa [← gains_perm h, ← losses_perm h]

theorem allInts_after (terms : Delta Value) (s : RunningSum) :
    (s.after terms).allInts = (s.allInts && terms.all fun t => t.1.kind == .int) := by
  induction terms generalizing s with
  | nil => exact (Bool.and_true _).symm
  | cons t terms ih =>
    obtain ⟨v, m⟩ := t
    have hadd : (s.add v m).allInts = (s.allInts && v.kind == .int) := by
      cases v with
      | int n => exact (Bool.and_true _).symm
      | _ => exact (Bool.and_false _).symm
    rw [List.all_cons, ← Bool.and_assoc, ← hadd]
    exact ih _

theorem count_after (terms : Delta Value) (s : RunningSum) :
    (s.after terms).count = s.count + Delta.mass terms := by
  induction terms generalizing s with
  | nil => exact (add_zero _).symm
  | cons t terms ih =>
    obtain ⟨v, m⟩ := t
    have hadd : (s.add v m).count = s.count + m := by cases v <;> rfl
    rw [Delta.mass, ← add_assoc, ← hadd]
    exact ih _

theorem total_eq_int {s : RunningSum} {n : Int64} :
    s.total = .int n ↔ s.exact = some n ∧ s.allInts = true := by
  unfold total
  cases s.exact <;> cases s.allInts <;> simp

/-- A sum that is an integer is exact. -/
theorem total_exact {n : Int64} (h : (ofTerms terms).total = .int n) : n.toInt = exactSum terms := by
  obtain ⟨j, hj, hn⟩ := exact_after (total_eq_int.mp h).1
  rw [hn, ← Option.some.inj hj]
  exact zero_add _

/-- A sum of integers whose gains and losses fit is the exact one. -/
theorem total_of_fits (hint : ∀ t ∈ terms, t.1.kind = .int) (h : Fits terms) :
    (ofTerms terms).total = .int (Int64.ofInt (exactSum terms)) := by
  have hz : (0 : Int64).toInt = 0 := rfl
  obtain ⟨k, hk⟩ := after_fits (s := start) rfl h (by rw [hz, zero_add]; exact h.1.2)
    (by rw [hz, zero_add]; exact h.2.1)
  have hall : (ofTerms terms).allInts = true := by
    rw [ofTerms_eq, allInts_after, Bool.and_eq_true, List.all_eq_true]
    exact ⟨rfl, fun t ht => beq_iff_eq.mpr (hint t ht)⟩
  have htotal := total_eq_int.mpr ⟨hk, hall⟩
  rw [ofTerms_eq, htotal, ← total_exact htotal, Int64.ofInt_toInt]

/-- Is a term not below zero? -/
def isGain (t : Value × Int) : Bool := 0 ≤ product t

theorem exactSum_gains_losses (terms : Delta Value) :
    exactSum (terms.filter isGain) = gains terms ∧
      exactSum (terms.filter (!isGain ·)) = losses terms := by
  induction terms with
  | nil => exact ⟨rfl, rfl⟩
  | cons t terms ih =>
    obtain ⟨hg, hl⟩ := ih
    rw [List.filter_cons, List.filter_cons, gains, losses, List.map_cons, List.map_cons,
      List.sum_cons, List.sum_cons]
    change _ = _ + gains terms ∧ _ = _ + losses terms
    unfold exactSum at *
    by_cases h : 0 ≤ product t
    · rw [if_pos (by simpa [isGain] using h), if_neg (by simpa [isGain] using h), List.map_cons,
        List.sum_cons, hg, hl, max_eq_right h, min_eq_left h, zero_add]
      exact ⟨rfl, rfl⟩
    · rw [if_neg (by simpa [isGain] using h), if_pos (by simpa [isGain] using h), List.map_cons,
        List.sum_cons, hg, hl, max_eq_left (by omega), min_eq_right (by omega), zero_add]
      exact ⟨rfl, rfl⟩

/-- Terms that do not fit together, visited first, cost the sum its exactness. -/
theorem total_ne_int_of_first {first : Delta Value} (h : ¬ FitsInt64 (exactSum first))
    (rest : Delta Value) (n : Int64) : (ofTerms (first ++ rest)).total ≠ .int n := by
  intro htotal
  have hexact := (total_eq_int.mp htotal).1
  rw [ofTerms_eq, after, List.foldl_append] at hexact
  obtain ⟨j, hj, -⟩ := exact_after hexact
  obtain ⟨z, hz, hsum⟩ := exact_after hj
  have hzero : z.toInt = 0 := by rw [← Option.some.inj hz]; rfl
  rw [hzero, zero_add] at hsum
  exact h (hsum ▸ fitsInt64_toInt j)

/-- **Terms that do not fit lose the exact sum in some order.** -/
theorem exists_lossy_part (h : ¬ Fits terms) :
    ∃ p : Value × Int → Bool, ¬ FitsInt64 (exactSum (terms.filter p)) := by
  obtain ⟨hg, hl⟩ := exactSum_gains_losses terms
  rcases not_and_or.mp h with h | h
  · exact ⟨isGain, hg ▸ h⟩
  · exact ⟨(!isGain ·), hl ▸ h⟩

end RunningSum

end DeltaView
