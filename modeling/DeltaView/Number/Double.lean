/-!
# Double-precision numbers by their bits

A `Double` is a 64-bit pattern, so two of them are equal exactly when they are the same bits and
every number, not-a-number included, has an identity of its own.

* `rank` is the position of a pattern in the total order of all patterns: negative
  not-a-number, −∞, …, −0, +0, …, +∞, positive not-a-number.
* `nearest` is the one rounding of the library: the double next to a fraction of naturals, a
  half going to the even neighbour. Integers become doubles through it.
* `scaleUp` and `scaleDown` multiply and divide by a power of ten, with one rounding.
* the four operations are those of the machine; a result that is not a number is the one
  pattern `notANumber`, which sorts before all others.
-/

namespace DeltaView

/-- A double-precision number, given by its 64 bits. -/
structure Double where
  bits : UInt64
deriving DecidableEq, Hashable, Inhabited

namespace Double

/-! ## Parts of a pattern -/

/-- The lowest bit of the exponent. -/
def exponentUnit : Nat := 0x10000000000000

/-- The sign bit. -/
def signUnit : Nat := 0x8000000000000000

/-- The bits below the sign, as a natural number. -/
def magnitude (x : Double) : Nat := x.bits.toNat % signUnit

/-- Is the sign bit set? -/
def isNegative (x : Double) : Bool := signUnit ≤ x.bits.toNat

/-- The magnitude of the infinities; larger magnitudes are not numbers. -/
def infinite : Nat := 2047 * exponentUnit

def isNaN (x : Double) : Bool := infinite < x.magnitude

def isFinite (x : Double) : Bool := x.magnitude < infinite

def isZero (x : Double) : Bool := x.magnitude == 0

/-- The pattern with a given sign and magnitude. -/
def ofParts (negative : Bool) (magnitude : Nat) : Double :=
  ⟨UInt64.ofNat (if negative then signUnit + magnitude else magnitude)⟩

def zero : Double := ⟨0⟩

/-- The result of an operation that has no numeric result. -/
def notANumber : Double := ofParts true (infinite + exponentUnit / 2)

/-! ## Order -/

/-- The place of a pattern in the total order: magnitudes upwards, and below them the negative
patterns by falling magnitude. -/
def rank (x : Double) : Int :=
  if x.isNegative then -(x.magnitude : Int) - 1 else x.magnitude

instance : Ord Double where
  compare x y := compare x.rank y.rank

/-- Patterns of one rank are one pattern. -/
theorem rank_inj {x y : Double} (h : x.rank = y.rank) : x = y := by
  obtain ⟨a⟩ := x
  obtain ⟨b⟩ := y
  have ha := a.toNat_lt
  have hb := b.toNat_lt
  have e : a.toNat = b.toNat := by
    simp only [rank, isNegative, magnitude, decide_eq_true_eq] at h
    unfold signUnit at h
    split at h <;> split at h <;> omega
  rw [UInt64.toNat_inj.mp e]

theorem compare_eq_iff {x y : Double} : compare x y = .eq ↔ x = y := by
  show compare x.rank y.rank = .eq ↔ x = y
  rw [Std.compare_eq_iff_eq]
  exact ⟨rank_inj, fun h => h ▸ rfl⟩

/-! ## Rounding -/

/-- The quotient `num / den` rounded to a natural number, a half to the even neighbour. -/
def roundDiv (num den : Nat) : Nat :=
  let q := num / den
  match compare (2 * (num % den)) den with
  | .lt => q
  | .gt => q + 1
  | .eq => if q % 2 == 0 then q else q + 1

/-- The exponent of the leading binary digit of `num / den`, for positive arguments. -/
def leading (num den : Nat) : Int :=
  let l := (num.log2 : Int) - den.log2
  if den * Nat.pow 2 l.toNat ≤ num * Nat.pow 2 (-l).toNat then l else l - 1

/-- The magnitude of the double next to `num / den`: 53 significant binary digits, fewer near
zero, and `infinite` from halfway past the largest finite magnitude on. -/
def nearest (num den : Nat) : Nat :=
  if num = 0 then 0
  else
    let shift := max (-1074) (leading num den - 52)
    let q := roundDiv (num * Nat.pow 2 (-shift).toNat) (den * Nat.pow 2 shift.toNat)
    min infinite ((shift + 1074).toNat * exponentUnit + q)

/-- The double next to an integer. -/
def ofInt (n : Int) : Double := ofParts (n < 0) (nearest n.natAbs 1)

/-! ## Value of a finite pattern -/

/-- The significand of a finite pattern, the hidden digit included. -/
def significand (x : Double) : Nat :=
  let e := x.magnitude / exponentUnit
  let f := x.magnitude % exponentUnit
  if e = 0 then f else exponentUnit + f

/-- The power of two by which the significand is scaled. -/
def scale (x : Double) : Int := (max 1 (x.magnitude / exponentUnit) : Nat) - 1075

/-- The size of a finite pattern is the fraction `numerator / denominator`. -/
def numerator (x : Double) : Nat := x.significand * Nat.pow 2 x.scale.toNat

def denominator (x : Double) : Nat := Nat.pow 2 (-x.scale).toNat

/-! ## Powers of ten -/

/-- The double next to `10 ^ k`. -/
def powerOfTen (k : Nat) : Double := ofParts false (nearest (Nat.pow 10 k) 1)

/-- The largest `k` for which `powerOfTen k` is finite. -/
def maxPower : Nat := 308

/-- The double next to the product of a finite number and a finite power of ten. -/
def scaleUp (x : Double) (k : Nat) : Double :=
  let p := powerOfTen k
  ofParts x.isNegative (nearest (x.numerator * p.numerator) (x.denominator * p.denominator))

/-- The double next to the quotient of a finite number and a finite power of ten. -/
def scaleDown (x : Double) (k : Nat) : Double :=
  let p := powerOfTen k
  ofParts x.isNegative (nearest (x.numerator * p.denominator) (x.denominator * p.numerator))

/-! ## Arithmetic -/

def toFloat (x : Double) : Float := Float.ofBits x.bits

def ofFloat (f : Float) : Double := if f.isNaN then notANumber else ⟨f.toBits⟩

def add (x y : Double) : Double := ofFloat (x.toFloat + y.toFloat)
def sub (x y : Double) : Double := ofFloat (x.toFloat - y.toFloat)
def mul (x y : Double) : Double := ofFloat (x.toFloat * y.toFloat)
def div (x y : Double) : Double := ofFloat (x.toFloat / y.toFloat)

example : ofInt 1 = ⟨0x3FF0000000000000⟩ := by decide +kernel
example : ofInt (-9007199254740993) = ⟨0xC340000000000000⟩ := by decide +kernel
example : ofInt 9223372036854775807 = ⟨0x43E0000000000000⟩ := by decide +kernel
example : nearest 24703282292062327208 (10 ^ 343) = 0 := by decide +kernel
example : nearest 24703282292062328 (10 ^ 340) = 1 := by decide +kernel
example : nearest (17976931348623159 * 10 ^ 292) 1 = infinite := by decide +kernel
example : (powerOfTen maxPower).isFinite ∧ ¬ (powerOfTen (maxPower + 1)).isFinite := by
  decide +kernel
example : (ofInt 16067759350111607).scaleUp 3 ≠ ofInt 16067759350111607000 := by decide +kernel

end Double

end DeltaView
