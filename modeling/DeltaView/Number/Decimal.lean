import DeltaView.Number.Double

/-!
# Decimal texts of numbers

A `Decimal` is a signed significand with a power of ten. Numbers are written with the fewest
digits that are nearer to them than to any other double, positionally while the leading digit
stands between 10⁻⁵ and 10¹⁵ and with a signed exponent otherwise.

* `Decimal.nearest` is the double next to a decimal.
* `Double.shortest` finds the digits: on each grid of 1, 2, … 17 digits it tries the two
  neighbours of the value, and the first that has the value as its nearest double wins.
-/

namespace DeltaView

/-- The number `± digits * 10 ^ exponent`. -/
structure Decimal where
  isNegative : Bool
  digits : Nat
  exponent : Int
deriving DecidableEq

/-! ## Digits -/

/-- The decimal digits of a natural number, most significant first. -/
def digitsOfNat (n : Nat) : List Char := Nat.toDigits 10 n

/-- The decimal text of an integer. -/
def digitsOfInt (n : Int) : List Char :=
  if n < 0 then '-' :: digitsOfNat n.natAbs else digitsOfNat n.natAbs

namespace Decimal

/-! ## The nearest double -/

/-- The magnitude of the double next to `digits * 10 ^ exponent`. Scales far outside the range of
doubles are settled by the position of the leading digit alone. -/
def nearest (digits : Nat) (exponent : Int) : Nat :=
  let leading := (digitsOfNat digits).length + exponent
  if digits = 0 then 0
  else if 310 < leading then Double.infinite
  else if leading < -330 then 0
  else Double.nearest (digits * Nat.pow 10 exponent.toNat) (Nat.pow 10 (-exponent).toNat)

/-! ## Writing -/

/-- Moves trailing zeros of the digits into the exponent, at most `fuel` of them. -/
def strip : Nat → Nat → Int → Nat × Int
  | 0, digits, exponent => (digits, exponent)
  | fuel + 1, digits, exponent =>
    if digits % 10 = 0 && digits != 0 then strip fuel (digits / 10) (exponent + 1)
    else (digits, exponent)

/-- The lowest and the first too high exponent of the leading digit that are written without an
exponent. -/
def plainFrom : Int := -5
def plainBelow : Int := 16

/-- Digits and exponent laid out: the point behind the digits (followed by a zero), inside them,
in front of them, or after the first digit with an exponent. -/
def layout (digits : List Char) (exponent : Int) : List Char :=
  let point : Int := digits.length + exponent
  if plainFrom < point && point ≤ plainBelow then
    if 0 ≤ exponent then digits ++ List.replicate exponent.toNat '0' ++ ['.', '0']
    else if 0 < point then digits.take point.toNat ++ '.' :: digits.drop point.toNat
    else '0' :: '.' :: List.replicate (-point).toNat '0' ++ digits
  else
    let mark := 'e' :: (if 0 ≤ point - 1 then '+' else '-') :: digitsOfNat (point - 1).natAbs
    match digits with
    | [] => []
    | [d] => d :: mark
    | d :: ds => d :: '.' :: ds ++ mark

/-- The text of a decimal; zero keeps its sign. -/
def text (d : Decimal) : List Char :=
  let body := if d.digits = 0 then ['0', '.', '0'] else layout (digitsOfNat d.digits) d.exponent
  if d.isNegative then '-' :: body else body

end Decimal

namespace Double

/-- The least `k` with `x < 10 ^ k` for the positive number `x = num / den`: counted digits of the
quotient, or leading zeros of its inverse. -/
def decimalLeading (num den : Nat) : Int :=
  if den ≤ num then (digitsOfNat (num / den)).length
  else
    let k := (digitsOfNat ((den - 1) / num)).length
    1 - (k : Int)

/-- Of the two neighbours of `num / den` on the grid `10 ^ exponent`, the nearer one to which the
magnitude `m` is nearest; of two equally near ones the even one. -/
def neighbour? (m num den : Nat) (exponent : Int) : Option Nat :=
  let num' := num * Nat.pow 10 (-exponent).toNat
  let den' := den * Nat.pow 10 exponent.toNat
  let low := num' / den'
  let near := roundDiv num' den'
  let far := if near = low then low + 1 else low
  if Decimal.nearest near exponent = m then some near
  else if Decimal.nearest far exponent = m then some far
  else none

/-- The shortest digits from the grid of `n` digits on, with the grids still to be tried. -/
def searchDigits (m num den : Nat) (k : Int) : Nat → Nat → Option (Nat × Int)
  | 0, _ => none
  | tries + 1, n =>
    match neighbour? m num den (k - n) with
    | some c => some (c, k - n)
    | none => searchDigits m num den k tries (n + 1)

/-- A decimal to which the finite number `x` is the nearest double, with as few digits as seventeen
or fewer allow, and the exact value of `x` otherwise. -/
def shortest (x : Double) : Decimal :=
  if x.isZero then ⟨x.isNegative, 0, 0⟩
  else
    let (num, den) := (x.numerator, x.denominator)
    match searchDigits x.magnitude num den (decimalLeading num den) 17 1 with
    | some (digits, exponent) =>
      let (digits, exponent) := Decimal.strip 20 digits exponent
      ⟨x.isNegative, digits, exponent⟩
    | none => ⟨x.isNegative, num * Nat.pow 5 (-x.scale).toNat, min 0 x.scale⟩

/-- The text of a number: the shortest decimal of a finite one, none for the others. -/
def text? (x : Double) : Option (List Char) :=
  if x.isFinite then some x.shortest.text else none

end Double

end DeltaView
