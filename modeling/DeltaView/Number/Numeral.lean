import DeltaView.Number.Decimal

/-!
# Numerals

A `Numeral` is the text of a number taken apart: no leading zero, a digit on both sides of the
point, an optional exponent.

* `Numeral.toInt?` is the whole number of a numeral without point and exponent, as far as 64 bits
  hold it.
* `Numeral.toDouble?` is the float of any other. Only the leading digits that make a number of 64
  bits count. That number is rounded to a double, and the double is scaled by a power of ten with
  another rounding, so the result may be a neighbour of the double next to the numeral.
* A numeral beyond the finite doubles denotes nothing.
-/

namespace DeltaView

/-! ## Digits -/

/-- A number with one more decimal digit. -/
def appendDigit (acc : Nat) (c : Char) : Nat := 10 * acc + (c.toNat - '0'.toNat)

/-- The value of a list of decimal digits, most significant first. -/
def natOfDigits (cs : List Char) : Nat := cs.foldl appendDigit 0

/-- The first number that takes more than 64 bits. -/
def significandEnd : Nat := 0x10000000000000000

/-- Appends digits to a number up to the first that would take it beyond 64 bits, and tells which
ones are left over. -/
def appendDigits (acc : Nat) : List Char → Nat × List Char
  | [] => (acc, [])
  | c :: cs =>
    if appendDigit acc c < significandEnd then appendDigits (appendDigit acc c) cs
    else (acc, c :: cs)

/-! ## Numerals -/

/-- The text of a number: its sign, the digits before the point, those after it (none if there is no
point), and the power of ten behind them. -/
structure Numeral where
  isNegative : Bool
  whole : List Char
  fraction : List Char
  exponent : Option Int
deriving DecidableEq

namespace Numeral

/-! ### Grammar -/

/-- The digits at the front of a text, at least one, and what follows them. -/
def takeDigits? (s : List Char) : Option (List Char × List Char) :=
  let ds := s.takeWhile Char.isDigit
  if ds.isEmpty then none else some (ds, s.dropWhile Char.isDigit)

/-- The digits before the point: a zero stands alone. -/
def takeWhole? (s : List Char) : Option (List Char × List Char) := do
  let (ds, rest) ← takeDigits? s
  if ds.head? = some '0' && 1 < ds.length then none else some (ds, rest)

/-- The digits after the point, if there is one. -/
def takeFraction? : List Char → Option (List Char × List Char)
  | '.' :: s => takeDigits? s
  | s => some ([], s)

/-- The power of ten at the end of a numeral, if it has one. -/
def takeExponent? (s : List Char) : Option (Option Int × List Char) :=
  match s with
  | c :: s =>
    if c = 'e' || c = 'E' then
      match s with
      | '-' :: s => do
        let (ds, rest) ← takeDigits? s
        some (some (-(natOfDigits ds : Int)), rest)
      | '+' :: s => do
        let (ds, rest) ← takeDigits? s
        some (some (natOfDigits ds : Int), rest)
      | s => do
        let (ds, rest) ← takeDigits? s
        some (some (natOfDigits ds : Int), rest)
    else some (none, c :: s)
  | [] => some (none, [])

/-- A numeral behind its sign. -/
def readUnsigned? (isNegative : Bool) (s : List Char) : Option Numeral := do
  let (whole, s) ← takeWhole? s
  let (fraction, s) ← takeFraction? s
  let (exponent, s) ← takeExponent? s
  if s.isEmpty then some ⟨isNegative, whole, fraction, exponent⟩ else none

/-- Reads a whole text as one numeral. -/
def read? : List Char → Option Numeral
  | '-' :: s => readUnsigned? true s
  | s => readUnsigned? false s

/-! ### Meaning -/

/-- Is there neither point nor exponent? -/
def isWhole (n : Numeral) : Bool := n.fraction.isEmpty && n.exponent.isNone

/-- The whole number of a numeral that is whole: below zero in 64 bits with a sign, from zero on in
64 bits without one. The zero with a sign is none. -/
def toInt? (n : Numeral) : Option Int :=
  let k := natOfDigits n.whole
  if !n.isWhole then none
  else if n.isNegative then if 0 < k && 2 * k ≤ significandEnd then some (-(k : Int)) else none
  else if k < significandEnd then some (k : Int) else none

/-- The leading digits and the power of ten behind them. Digits before the point that are left over
count for the power of ten, those after it not at all. -/
def leading (n : Numeral) : Decimal :=
  let (high, skipped) := appendDigits 0 n.whole
  let (digits, dropped) := appendDigits high n.fraction
  let places : Int := n.fraction.length - dropped.length
  ⟨n.isNegative, digits, skipped.length - places + n.exponent.getD 0⟩

end Numeral

namespace Decimal

/-- The double of a decimal whose digits make a number of 64 bits: the digits are rounded first, and
then each scaling by a power of ten. One that is infinite is none, and after two scalings down by
the largest power nothing but zero is left. -/
def scaled? (d : Decimal) : Option Double :=
  let x := Double.ofParts d.isNegative (Double.nearest d.digits 1)
  let up := d.exponent.toNat
  let down := (-d.exponent).toNat
  if x.isZero then some x
  else if Double.maxPower < up then none
  else if 0 < up then (some (x.scaleUp up)).filter Double.isFinite
  else if down ≤ Double.maxPower then some (x.scaleDown down)
  else if down ≤ 2 * Double.maxPower then
    some ((x.scaleDown Double.maxPower).scaleDown (down - Double.maxPower))
  else some (Double.ofParts d.isNegative 0)

end Decimal

/-- The float of a numeral, if it is finite. -/
def Numeral.toDouble? (n : Numeral) : Option Double := n.leading.scaled?

end DeltaView
