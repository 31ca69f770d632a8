import DeltaView.Number.Double
import Mathlib.Order.Lattice
import Mathlib.Algebra.Order.Ring.Nat

/-!
# Integers become doubles in order

Rounding an integer to a double never turns the order around: of two integers the larger one
becomes the same double or a later one in the order of patterns.

* `roundDiv_mono`: the rounded quotient grows with its numerator.
* `nearest_eq`: the double next to a positive integer, by the exponent of its leading digit.
* **`rank_ofInt_mono`**: `ofInt` is monotone.
* `ofInt_inj`: up to `2 ^ 53` it keeps integers apart.
-/

namespace DeltaView

namespace Double

/-! ## Rounded quotients -/

/-- A quotient is rounded up past one half, and at one half if it is odd. -/
theorem roundDiv_eq (a d : Nat) :
    roundDiv a d = a / d + if d < 2 * (a % d) ∨ 2 * (a % d) = d ∧ a / d % 2 = 1 then 1 else 0 := by
  unfold roundDiv
  simp only
  cases h : compare (2 * (a % d)) d with
  | lt =>
    have := Nat.compare_eq_lt.mp h
    show a / d = _
    rw [if_neg (by omega), Nat.add_zero]
  | gt =>
    have := Nat.compare_eq_gt.mp h
    show a / d + 1 = _
    rw [if_pos (Or.inl (by omega))]
  | eq =>
    have he := Nat.compare_eq_eq.mp h
    by_cases hq : a / d % 2 = 0
    · simp [hq, he]
    · have hq' : a / d % 2 = 1 := by omega
      simp [he, hq']

theorem div_le_roundDiv (a d : Nat) : a / d ≤ roundDiv a d := by
  rw [roundDiv_eq]
  exact Nat.le_add_right _ _

theorem roundDiv_le_succ (a d : Nat) : roundDiv a d ≤ a / d + 1 := by
  rw [roundDiv_eq]
  split <;> omega

/-- With one quotient, the remainder decides about rounding up. -/
theorem roundDiv_le_of_div_eq {a b d : Nat} (hq : a / d = b / d) (hr : a % d ≤ b % d) :
    roundDiv a d ≤ roundDiv b d := by
  rw [roundDiv_eq, roundDiv_eq, hq]
  refine Nat.add_le_add_left ?_ _
  split <;> split <;> omega

theorem roundDiv_mono {a b : Nat} (d : Nat) (h : a ≤ b) : roundDiv a d ≤ roundDiv b d := by
  rcases Nat.lt_or_ge (a / d) (b / d) with hlt | hge
  · calc roundDiv a d ≤ a / d + 1 := roundDiv_le_succ a d
      _ ≤ b / d := hlt
      _ ≤ roundDiv b d := div_le_roundDiv b d
  · have hq : a / d = b / d := Nat.le_antisymm (Nat.div_le_div_right h) hge
    refine roundDiv_le_of_div_eq hq ?_
    have ha := Nat.div_add_mod a d
    have hb := Nat.div_add_mod b d
    rw [hq] at ha
    omega

theorem roundDiv_mul {d : Nat} (hd : 0 < d) (q : Nat) : roundDiv (q * d) d = q := by
  rw [roundDiv_eq, Nat.mul_div_cancel q hd, Nat.mul_mod_left, if_neg (by omega), Nat.add_zero]

/-! ## Integers -/

/-- The significand of an integer with leading exponent `l`, rounded to 53 digits. -/
def significandOf (n l : Nat) : Nat := roundDiv (n * 2 ^ (52 - l)) (2 ^ (l - 52))

theorem leading_one {n : Nat} (h : n ≠ 0) : leading n 1 = n.log2 := by
  unfold leading
  have hl : Nat.log2 1 = 0 := by decide
  simp only [hl, Int.ofNat_zero, Int.sub_zero, Int.toNat_natCast]
  rw [if_pos]
  have hz : (-(n.log2 : Int)).toNat = 0 := by omega
  rw [hz]
  simpa using Nat.log2_self_le h

theorem nearest_eq {n : Nat} (h : n ≠ 0) :
    nearest n 1 = min infinite ((n.log2 + 1022) * exponentUnit + significandOf n n.log2) := by
  unfold nearest significandOf
  rw [if_neg h, leading_one h]
  have hs : max (-1074) ((n.log2 : Int) - 52) = (n.log2 : Int) - 52 := by omega
  simp only [hs]
  have h1 : (-((n.log2 : Int) - 52)).toNat = 52 - n.log2 := by omega
  have h2 : ((n.log2 : Int) - 52).toNat = n.log2 - 52 := by omega
  have h3 : ((n.log2 : Int) - 52 + 1074).toNat = n.log2 + 1022 := by omega
  rw [h1, h2, h3, Nat.one_mul]
  rfl

/-- Both shifts of a significand together make 53 digits. -/
theorem pow_shift (l : Nat) (k : Nat) :
    2 ^ (l + k) * 2 ^ (52 - l) = 2 ^ (52 + k) * 2 ^ (l - 52) := by
  rw [← Nat.pow_add, ← Nat.pow_add]
  congr 1
  omega

theorem le_significandOf {n : Nat} (h : n ≠ 0) : exponentUnit ≤ significandOf n n.log2 := by
  have hle : 2 ^ 52 * 2 ^ (n.log2 - 52) ≤ n * 2 ^ (52 - n.log2) := by
    rw [← pow_shift n.log2 0]
    exact Nat.mul_le_mul_right _ (Nat.log2_self_le h)
  have := roundDiv_mono (2 ^ (n.log2 - 52)) hle
  rwa [roundDiv_mul (Nat.two_pow_pos _)] at this

theorem significandOf_le (n : Nat) : significandOf n n.log2 ≤ 2 * exponentUnit := by
  have hle : n * 2 ^ (52 - n.log2) ≤ 2 ^ 53 * 2 ^ (n.log2 - 52) := by
    rw [← pow_shift n.log2 1]
    exact Nat.mul_le_mul_right _ (Nat.le_of_lt Nat.lt_log2_self)
  have := roundDiv_mono (2 ^ (n.log2 - 52)) hle
  rwa [roundDiv_mul (Nat.two_pow_pos _)] at this

theorem nearest_mono {m n : Nat} (h : m ≤ n) : nearest m 1 ≤ nearest n 1 := by
  by_cases hm : m = 0
  · rw [hm, nearest, if_pos rfl]
    exact Nat.zero_le _
  have hn : n ≠ 0 := by omega
  rw [nearest_eq hm, nearest_eq hn]
  refine min_le_min_left _ ?_
  have hlog : m.log2 ≤ n.log2 := (Nat.le_log2 hn).mpr (le_trans (Nat.log2_self_le hm) h)
  rcases Nat.eq_or_lt_of_le hlog with he | hlt
  · rw [he]
    refine Nat.add_le_add_left ?_ _
    exact roundDiv_mono _ (Nat.mul_le_mul_right _ h)
  · -- A longer number has a larger exponent, which outweighs a significand rounded up.
    have h1 := significandOf_le m
    have h2 := le_significandOf hn
    have h3 : (m.log2 + 1) * exponentUnit ≤ n.log2 * exponentUnit := Nat.mul_le_mul_right _ hlt
    rw [Nat.add_mul] at h3
    rw [Nat.add_mul, Nat.add_mul]
    omega

/-- The significand of a number below `2 ^ 53` is the number itself, shifted. -/
theorem significandOf_of_lt {n : Nat} (h : n < 2 ^ 53) (h0 : n ≠ 0) :
    significandOf n n.log2 = n * 2 ^ (52 - n.log2) ∧ significandOf n n.log2 < 2 * exponentUnit := by
  have hl : n.log2 ≤ 52 := Nat.lt_succ_iff.mp ((Nat.log2_lt h0).mpr h)
  have hsig : significandOf n n.log2 = n * 2 ^ (52 - n.log2) := by
    have hone := roundDiv_mul Nat.one_pos (n * 2 ^ (52 - n.log2))
    rw [Nat.mul_one] at hone
    rwa [significandOf, Nat.sub_eq_zero_of_le hl, Nat.pow_zero]
  refine ⟨hsig, ?_⟩
  calc significandOf n n.log2 = n * 2 ^ (52 - n.log2) := hsig
    _ < 2 ^ (n.log2 + 1) * 2 ^ (52 - n.log2) :=
      Nat.mul_lt_mul_of_pos_right Nat.lt_log2_self (Nat.two_pow_pos _)
    _ = 2 * exponentUnit := by
      rw [← Nat.pow_add, show n.log2 + 1 + (52 - n.log2) = 53 by omega]
      rfl

/-- Up to `2 ^ 53` no two numbers are rounded to one double. -/
theorem nearest_lt {m n : Nat} (h : m < n) (hn : n ≤ 2 ^ 53) : nearest m 1 < nearest n 1 := by
  have hn0 : n ≠ 0 := by omega
  have hlog : n.log2 ≤ 53 := by
    have := (Nat.log2_lt (k := 54) hn0).mpr (by omega)
    omega
  have hsig := le_significandOf hn0
  have hsig' := significandOf_le n
  have hinf : (n.log2 + 1022) * exponentUnit + significandOf n n.log2 ≤ infinite := by
    unfold infinite exponentUnit at *
    omega
  rw [nearest_eq hn0, min_eq_right hinf]
  by_cases hm : m = 0
  · rw [hm, nearest, if_pos rfl]
    unfold exponentUnit at *
    omega
  obtain ⟨hms, hmlt⟩ := significandOf_of_lt (show m < 2 ^ 53 by omega) hm
  rw [nearest_eq hm]
  refine lt_of_le_of_lt (min_le_right _ _) ?_
  have hle : m.log2 ≤ n.log2 := (Nat.le_log2 hn0).mpr (le_trans (Nat.log2_self_le hm) (le_of_lt h))
  rcases Nat.eq_or_lt_of_le hle with he | hlt
  · have hn' : n < 2 ^ 53 := by
      have hm52 : m.log2 < 53 := (Nat.log2_lt hm).mpr (by omega)
      rw [he] at hm52
      exact (Nat.log2_lt hn0).mp hm52
    rw [he] at hms ⊢
    rw [hms, (significandOf_of_lt hn' hn0).1]
    exact Nat.add_lt_add_left (Nat.mul_lt_mul_of_pos_right h (Nat.two_pow_pos _)) _
  · unfold exponentUnit at *
    omega

theorem nearest_le_infinite (n d : Nat) : nearest n d ≤ infinite := by
  unfold nearest
  split
  · exact Nat.zero_le _
  · exact min_le_left _ _

/-! ## Ranks -/

theorem rank_ofParts (negative : Bool) {m : Nat} (h : m < signUnit) :
    (ofParts negative m).rank = if negative then -(m : Int) - 1 else m := by
  have hs : signUnit + signUnit = 2 ^ 64 := by decide
  cases negative with
  | false =>
    have hm : m < 2 ^ 64 := by omega
    have hb : (UInt64.ofNat m).toNat = m := by
      rw [UInt64.toNat_ofNat']
      exact Nat.mod_eq_of_lt hm
    simp only [ofParts, rank, isNegative, magnitude, Bool.false_eq_true, if_false, hb,
      decide_eq_true_eq]
    rw [if_neg (by omega), Nat.mod_eq_of_lt h]
  | true =>
    have hm : signUnit + m < 2 ^ 64 := by omega
    have hb : (UInt64.ofNat (signUnit + m)).toNat = signUnit + m := by
      rw [UInt64.toNat_ofNat']
      exact Nat.mod_eq_of_lt hm
    simp only [ofParts, rank, isNegative, magnitude, if_true, hb, decide_eq_true_eq]
    rw [if_pos (Nat.le_add_right _ _), Nat.add_mod_left, Nat.mod_eq_of_lt h]

theorem rank_ofInt (n : Int) :
    (ofInt n).rank = if n < 0 then -(nearest n.natAbs 1 : Int) - 1 else nearest n.natAbs 1 := by
  have h : nearest n.natAbs 1 < signUnit :=
    Nat.lt_of_le_of_lt (nearest_le_infinite _ _) (by decide)
  unfold ofInt
  rw [rank_ofParts _ h]
  by_cases hn : n < 0 <;> simp [hn]

/-- **Integers become doubles in order.** -/
theorem rank_ofInt_mono {m n : Int} (h : m ≤ n) : (ofInt m).rank ≤ (ofInt n).rank := by
  rw [rank_ofInt, rank_ofInt]
  by_cases hm : m < 0
  · by_cases hn : n < 0
    · have := nearest_mono (show n.natAbs ≤ m.natAbs by omega)
      rw [if_pos hm, if_pos hn]
      omega
    · rw [if_pos hm, if_neg hn]
      omega
  · have hn : ¬ n < 0 := by omega
    have := nearest_mono (show m.natAbs ≤ n.natAbs by omega)
    rw [if_neg hm, if_neg hn]
    omega

/-- Integers of at most `2 ^ 53` are not rounded to one double. -/
theorem ofInt_inj {m n : Int} (hm : m.natAbs ≤ 2 ^ 53) (hn : n.natAbs ≤ 2 ^ 53)
    (h : ofInt m = ofInt n) : m = n := by
  have hrank : (ofInt m).rank = (ofInt n).rank := by rw [h]
  rw [rank_ofInt, rank_ofInt] at hrank
  have habs : nearest m.natAbs 1 = nearest n.natAbs 1 → m.natAbs = n.natAbs := by
    intro he
    rcases Nat.lt_trichotomy m.natAbs n.natAbs with hlt | heq | hlt
    · exact absurd he (Nat.ne_of_lt (nearest_lt hlt hn))
    · exact heq
    · exact absurd he.symm (Nat.ne_of_lt (nearest_lt hlt hm))
  by_cases hm0 : m < 0 <;> by_cases hn0 : n < 0 <;> simp only [hm0, hn0, if_true, if_false] at hrank
  · have := habs (by omega)
    omega
  · omega
  · omega
  · have := habs (by omega)
    omega

end Double

end DeltaView
