import DeltaView.Number.Double
import DeltaView.Proofs.Number.Rounding
import Mathlib

/-!
# Adding zeros

A zero that is added to a double changes nothing, unless the double is `-0`: `-0 + 0` is `0`. A total
that starts from `0` never comes to `-0`, whatever is added to it, so zeros leave it as it is. All of
this is read off from the logical model of the machine's numbers.

* `Rounded`: the numbers that patterns stand for. Such a number is packed as a zero only if it is one
  (`eq_zero_of_pack_eq`), and rounding gives such numbers and never a zero (`rounded_round`).
* `rounded_add`: a sum is `-0` only for `-0` and `-0`.
* **`IsTotal.add`**, **`IsTotal.add_zero`**: a total with anything added is one, and with a zero added
  it is the same one.
* `actsAsZero_mul`: finite multiples of `0` are zeros.
-/

namespace DeltaView

namespace Double

open Float.Model Float.Model.UnpackedFloat

/-- The format of doubles. -/
abbrev format : Format := .binary64

/-! ## Numbers that are rounded -/

/-- The numbers that patterns stand for: their mantissas have at most 53 digits, and no digit is
below the last one of the least double. -/
def Rounded : UnpackedFloat → Prop
  | .finite _ m e _ => m < 2 ^ 53 ∧ -1074 ≤ e
  | _ => True

theorem rounded_unpack (b : BitVec format.numBits) : Rounded (UnpackedFloat.unpack format b) := by
  have hm : (unpackMantissa b).toNat < 2 ^ 52 := (unpackMantissa b).isLt
  have hbias : (format.exponentBias + format.mantissaBitsWithoutImplicit : Int) = 1075 := rfl
  unfold UnpackedFloat.unpack
  dsimp only
  split_ifs with hones hmant hzero hmant
  · trivial
  · trivial
  · trivial
  · rw [Rounded, hbias]
    exact ⟨lt_trans hm (by decide), by omega⟩
  · -- The mantissa of a normal number has a hidden digit in front.
    have happ : (1#1 ++ unpackMantissa b).toNat = 2 ^ 52 + (unpackMantissa b).toNat := by
      rw [BitVec.toNat_append]
      exact (Nat.two_pow_add_eq_or_of_lt hm 1).symm
    have hexp : (unpackExponent b).toNat ≠ 0 := fun h => hzero (BitVec.eq_of_toNat_eq h)
    rw [Rounded, hbias, happ]
    exact ⟨by omega, by omega⟩

/-- The exponent that a finite number is packed with. -/
def biased (e : Int) : Nat := (e + 1075).toNat

/-- A finite number is packed with its exponent where its mantissa has all digits, with none where
it has fewer, and as an infinity where the exponent is too large. -/
theorem pack_finite (s : Sign) (m : Nat) (e : Int) (h : 0 < m) :
    UnpackedFloat.pack format (.finite s m e h) =
      if 2047 ≤ biased e then packedInfinity format s
      else packComponents format s (if m.log2 = 52 then .ofNat _ (biased e) else 0) (.ofNat _ m) := by
  have hbias : (e + format.exponentBias + format.mantissaBitsWithoutImplicit).toNat = biased e := by
    show (e + 1023 + 52).toNat = (e + 1075).toNat
    omega
  have hover : 2 ^ format.exponentBits ≤ biased e + 1 ↔ 2047 ≤ biased e :=
    Nat.add_le_add_iff_right (m := 2047) (k := biased e) (n := 1)
  have hdigits : m.log2 + 1 = format.mantissaBits ↔ m.log2 = 52 := Nat.add_right_cancel_iff
  rw [UnpackedFloat.pack]
  simp only [hbias, hover, hdigits]
  split_ifs <;> rfl

/-- **A rounded number is packed as a zero only if it is one.** -/
theorem eq_zero_of_pack_eq {u : UnpackedFloat} (hu : Rounded u) {s : Sign}
    (h : UnpackedFloat.pack format u = packedZero format s) : u = .zero s := by
  cases u with
  | notANumber => exact absurd (congrArg unpackExponent h) (by cases s <;> decide)
  | infinity s' => exact absurd (congrArg unpackExponent h) (by cases s <;> cases s' <;> decide)
  | zero s' => cases s <;> cases s' <;> first | rfl | exact absurd h (by decide)
  | finite s' m e hpos =>
    exfalso
    obtain ⟨hm, he⟩ := hu
    rw [pack_finite] at h
    split_ifs at h with hover hlog
    · exact absurd (congrArg unpackExponent h) (by cases s <;> cases s' <;> decide)
    · have hexp : BitVec.ofNat 11 (biased e) = 0 := by
        simpa only [packedZero, unpackExponent_packComponents] using congrArg unpackExponent h
      have hzero : biased e % 2 ^ 11 = 0 := congrArg BitVec.toNat hexp
      unfold biased at *
      omega
    · have hmant : BitVec.ofNat 52 m = 0 := by
        simpa only [packedZero, unpackMantissa_packComponents] using congrArg unpackMantissa h
      have hzero : m % 2 ^ 52 = 0 := congrArg BitVec.toNat hmant
      have hlow : m < 2 ^ 52 := Nat.lt_of_not_le fun hle =>
        hlog ((Nat.log2_eq_iff hpos.ne').mpr ⟨hle, hm⟩)
      omega

/-! ## Rounding -/

theorem targetExponent_eq (t : Int) : format.targetExponent t = max (t - 53) (-1074) := rfl

theorem shiftRight_mantissa (em : ExtendedMantissa) (k : Nat) :
    (em >>> k).mantissa = em.mantissa / 2 ^ k := by
  induction k with
  | zero => exact (Nat.div_one _).symm
  | succ k ih =>
    show (em >>> k).mantissa / 2 = _
    rw [ih, Nat.div_div_eq_div_mul, Nat.pow_succ]

theorem ofMantissaAndAccuracy_mantissa (m : Nat) (accuracy : Accuracy) :
    (ExtendedMantissa.ofMantissaAndAccuracy m accuracy).mantissa = m := by
  unfold ExtendedMantissa.ofMantissaAndAccuracy
  split <;> rfl

theorem le_roundedMantissa (em : ExtendedMantissa) : em.mantissa ≤ em.roundedMantissa := by
  unfold ExtendedMantissa.roundedMantissa Accuracy.roundToNearestEven
  split <;> omega

/-- How far a mantissa is shifted to the right. -/
def shift (m : Nat) (e : Int) : Nat :=
  (format.targetExponent (totalExponent m e) - e).toNat

theorem shiftToTargetExponent_eq (m : Nat) (e : Int) (accuracy : Accuracy) :
    shiftToTargetExponent format m e accuracy =
      (ExtendedMantissa.ofMantissaAndAccuracy m accuracy >>> shift m e, e + shift m e) := rfl

/-- **A shift keeps a mantissa above zero, with at most 53 digits.** -/
theorem shift_bounds {m : Nat} {e : Int} (hm : 0 < m) (he : -1074 ≤ e) :
    0 < m / 2 ^ shift m e ∧ m / 2 ^ shift m e < 2 ^ 53 := by
  have hlow := Nat.log2_self_le hm.ne'
  have hhigh : m < 2 ^ (m.log2 + 1) := Nat.lt_log2_self
  have hshift : shift m e = m.log2 - 52 := by
    unfold shift totalExponent
    rw [targetExponent_eq]
    omega
  rw [hshift]
  constructor
  · exact Nat.div_pos ((Nat.pow_le_pow_right (by decide) (by omega)).trans hlow)
      (Nat.two_pow_pos _)
  · rw [Nat.div_lt_iff_lt_mul (Nat.two_pow_pos _), ← Nat.pow_add]
    exact hhigh.trans_le (Nat.pow_le_pow_right (by decide) (by omega))

theorem rounded_roundWithAccuracy (s : Sign) {m : Nat} {e : Int} (hm : 0 < m) (he : -1074 ≤ e)
    (accuracy : Accuracy) :
    Rounded (roundWithAccuracy format s m e accuracy) ∧
      ∀ s', roundWithAccuracy format s m e accuracy ≠ .zero s' := by
  unfold roundWithAccuracy
  simp only [shiftToTargetExponent_eq, shiftRight_mantissa, ofMantissaAndAccuracy_mantissa]
  -- After the first shift the mantissa is rounded, at most up.
  have hfirst : 0 < (ExtendedMantissa.ofMantissaAndAccuracy m accuracy >>> shift m e).mantissa := by
    rw [shiftRight_mantissa, ofMantissaAndAccuracy_mantissa]
    exact (shift_bounds hm he).1
  have hpos := hfirst.trans_le (le_roundedMantissa _)
  -- The second shift takes back the digit that it may have got.
  obtain ⟨hlow, hhigh⟩ := shift_bounds hpos (by omega : -1074 ≤ e + shift m e)
  rw [dif_neg hlow.ne']
  exact ⟨⟨hhigh, by omega⟩, nofun⟩

/-- **Rounding a number other than zero never gives zero.** -/
theorem rounded_round (s : Sign) {m : Nat} {e : Int} (hm : 0 < m) (he : -1074 ≤ e) :
    Rounded (UnpackedFloat.round format s m e) ∧
      ∀ s', UnpackedFloat.round format s m e ≠ .zero s' := by
  unfold UnpackedFloat.round decreaseExponent
  refine rounded_roundWithAccuracy s ?_ ?_ _
  · rw [Nat.shiftLeft_eq]
    exact Nat.mul_pos hm (Nat.two_pow_pos _)
  · rw [targetExponent_eq]
    omega

/-! ## Addition -/

/-- A sum of finite numbers that cancel out is `0`, and any other is no zero. -/
theorem rounded_normalize (m : Int) {e : Int} (he : -1074 ≤ e) :
    Rounded (UnpackedFloat.normalize format m e .positive) ∧
      UnpackedFloat.normalize format m e .positive ≠ .zero .negative := by
  unfold UnpackedFloat.normalize
  split
  · rename_i h
    have hneg := Int.compare_eq_lt.mp h
    exact (rounded_round .negative (by omega) he).imp_right fun h => h _
  · exact ⟨trivial, nofun⟩
  · rename_i h
    have hpos := Int.compare_eq_gt.mp h
    exact (rounded_round .positive (by omega) he).imp_right fun h => h _

/-- **A sum is `-0` only for `-0` and `-0`**, and it is rounded. -/
theorem rounded_add {u v : UnpackedFloat} (hu : Rounded u) (hv : Rounded v) :
    Rounded (UnpackedFloat.add format u v) ∧
      (UnpackedFloat.add format u v = .zero .negative → u = .zero .negative) := by
  cases u <;> cases v <;> simp only [UnpackedFloat.add]
  case finite.finite s m e hm s' m' e' hm' =>
    obtain ⟨hr, hne⟩ := rounded_normalize (s.apply _ + s'.apply _)
      (le_min hu.2 hv.2 : -1074 ≤ min e e')
    exact ⟨hr, fun h => absurd h hne⟩
  case zero.zero s s' =>
    split
    · exact ⟨trivial, id⟩
    · exact ⟨trivial, nofun⟩
  case zero.finite => exact ⟨hv, nofun⟩
  case finite.zero => exact ⟨hu, nofun⟩
  case infinity.infinity => split <;> exact ⟨trivial, nofun⟩
  all_goals exact ⟨trivial, nofun⟩

/-- Only `-0` is changed by a zero. -/
theorem add_zero_of_ne {u : UnpackedFloat} (h : u ≠ .zero .negative) (s : Sign) :
    UnpackedFloat.add format u (.zero s) = u := by
  cases u with
  | zero s' =>
    cases s' with
    | positive => cases s <;> rfl
    | negative => exact absurd rfl h
  | _ => rfl

/-! ## Totals of doubles -/

theorem pack_unpack_toModel (f : Float) : Float.Model.pack f.toModel.unpack = f.toModel := by
  obtain ⟨bits, hvalid⟩ := f.toModel
  simp only [Float.Model.pack, Float.Model.unpack, pack_unpack_of_valid hvalid]

theorem toModel_ofBits (bits : UInt64) :
    (Float.ofBits bits).toModel = .pack (UnpackedFloat.unpack format bits.toBitVec) := rfl

theorem toModel_add (f g : Float) :
    (f + g).toModel = .pack (UnpackedFloat.add format f.toModel.unpack g.toModel.unpack) := rfl

theorem toModel_mul (f g : Float) :
    (f * g).toModel = .pack (UnpackedFloat.mul format f.toModel.unpack g.toModel.unpack) := rfl

/-- A number of the machine is that number again when it has been kept as a double. -/
theorem toFloat_ofFloat (f : Float) : (ofFloat f).toFloat = f := by
  unfold ofFloat
  split_ifs with hnan
  · rw [Float.isNaN_eq_decide_eq_nan, decide_eq_true_iff] at hnan
    rw [hnan]
    decide
  · exact Float.ofBits_toBits f

/-- A double that additions can give that start from `0`: any one of the machine but `-0`. -/
def IsTotal (x : Double) : Prop :=
  ∃ f : Float, x = ofFloat f ∧ f.toModel.unpack ≠ .zero .negative

theorem isTotal_zero : zero.IsTotal := ⟨Float.ofBits 0, by decide, by rintro ⟨⟩⟩

/-- **A total with anything added to it is one.** -/
theorem IsTotal.add {x : Double} (hx : x.IsTotal) (y : Double) : (x.add y).IsTotal := by
  obtain ⟨f, rfl, hf⟩ := hx
  refine ⟨f + y.toFloat, by rw [Double.add, toFloat_ofFloat], fun hsum => hf ?_⟩
  obtain ⟨hrounded, hne⟩ := rounded_add (rounded_unpack f.toModel.toBits.toBitVec)
    (rounded_unpack y.toFloat.toModel.toBits.toBitVec)
  exact hne (eq_zero_of_pack_eq hrounded
    ((unpack_eq_zero_iff_of_valid (f + y.toFloat).toModel.valid).mp hsum))

/-- Is a double one of the two zeros to the machine? -/
def ActsAsZero (z : Double) : Prop := ∃ s, z.toFloat.toModel.unpack = .zero s

/-- **A zero leaves a total as it is.** -/
theorem IsTotal.add_zero {x z : Double} (hx : x.IsTotal) (hz : z.ActsAsZero) : x.add z = x := by
  obtain ⟨f, rfl, hf⟩ := hx
  obtain ⟨s, hs⟩ := hz
  have hmodel : (f + z.toFloat).toModel = f.toModel := by
    rw [toModel_add, hs, add_zero_of_ne hf, pack_unpack_toModel]
  rw [Double.add, toFloat_ofFloat]
  exact congrArg (fun model => ofFloat (.ofModel model)) hmodel

/-! ## Multiples of zero -/

theorem toNat_unpackExponent (bits : UInt64) :
    (@unpackExponent format bits.toBitVec).toNat = bits.toNat / 2 ^ 52 % 2 ^ 11 := by
  show bits.toNat >>> 52 % 2 ^ 11 = _
  rw [Nat.shiftRight_eq_div_pow]

/-- A pattern below the infinities stands for a finite number. -/
theorem isFinite_unpack {x : Double} (hx : x.isFinite = true) :
    x.toFloat.toModel.unpack.isFinite = true := by
  have hones : @unpackExponent format x.bits.toBitVec ≠ -1#_ := fun h => by
    have hexp := congrArg BitVec.toNat h
    have hlt : x.bits.toNat % signUnit < infinite := of_decide_eq_true hx
    rw [toNat_unpackExponent] at hexp
    unfold signUnit infinite exponentUnit at hlt
    have : x.bits.toNat / 2 ^ 52 % 2 ^ 11 = 2047 := hexp
    omega
  have hbits := pack_unpack_of_valid ⟨fun h => absurd h hones⟩
  rw [toFloat, toModel_ofBits, Float.Model.unpack, Float.Model.pack]
  simp only [hbits]
  unfold UnpackedFloat.unpack
  simp only [hones, if_false]
  split_ifs <;> rfl

/-- **A finite multiple of `0` acts as a zero.** -/
theorem actsAsZero_mul {x : Double} (hx : x.isFinite = true) : (zero.mul x).ActsAsZero := by
  have hfinite := isFinite_unpack hx
  have hzero : zero.toFloat.toModel.unpack = .zero .positive := rfl
  rw [ActsAsZero, Double.mul, toFloat_ofFloat, toModel_mul, hzero]
  cases h : x.toFloat.toModel.unpack with
  | zero s => exact ⟨_, unpack_packedZero⟩
  | finite s m e hm => exact ⟨_, unpack_packedZero⟩
  | _ => simp [h, UnpackedFloat.isFinite] at hfinite

theorem magnitude_ofInt (n : Int) : (ofInt n).magnitude = nearest n.natAbs 1 := by
  have hrank := rank_ofInt n
  unfold rank at hrank
  split_ifs at hrank <;> omega

theorem isFinite_ofInt {n : Int} (h : n.natAbs ≤ 2 ^ 63) : (ofInt n).isFinite = true := by
  rw [isFinite, magnitude_ofInt, decide_eq_true_iff]
  exact (nearest_mono h).trans_lt (by decide +kernel)

end Double

end DeltaView
