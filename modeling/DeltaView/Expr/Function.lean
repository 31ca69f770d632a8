import DeltaView.Text.Case
import DeltaView.Text.Wildcard
import DeltaView.Value.Order
import DeltaView.Value.Text

/-!
# Functions of values

The functions that expressions may call. Each takes any list of values: a missing argument counts
as null, further ones are ignored, and values of an unsuitable kind give null or false, so that a
call never fails.

* `valuesEqual` and `compare?` compare across the two kinds of numbers; null equals nothing and
  compares with nothing.
* Arithmetic stays with integers as long as the exact result fits and goes on with floats
  otherwise.
-/

namespace DeltaView

namespace Value

/-! ## Comparison -/

/-- Equality as conditions see it: by size for numbers, never for null. -/
def valuesEqual (a b : Value) : Bool :=
  if a.isNull || b.isNull then false
  else match numericCompare? a b with
    | some o => o == .eq
    | none => a == b

/-- The order of two comparable values: numbers, or values of one kind other than null. -/
def compare? (a b : Value) : Option Ordering :=
  if a.isNull || b.isNull then none
  else match numericCompare? a b with
    | some o => some o
    | none => if a.kind = b.kind then some (cmp a b) else none

/-! ## Arithmetic -/

/-- An exact result as an integer, if it fits 64 bits. -/
def int64? (n : Int) : Option Int64 := (Json.int n).asInt64?

/-- An operation on numbers, exact on integers if the result fits. -/
def arithmetic (exact : Int → Int → Int) (rounded : Double → Double → Double) (a b : Value) :
    Value :=
  match a, b with
  | .int m, .int n =>
    match int64? (exact m.toInt n.toInt) with
    | some r => .int r
    | none => .float (rounded (Double.ofInt m.toInt) (Double.ofInt n.toInt))
  | a, b =>
    match a.asDouble?, b.asDouble? with
    | some x, some y => .float (rounded x y)
    | _, _ => .null

/-- The quotient of two numbers as a float, and null for a zero divisor. -/
def quotient (a b : Value) : Value :=
  match a.asDouble?, b.asDouble? with
  | some x, some y => if y.isZero then .null else .float (x.div y)
  | _, _ => .null

/-! ## Texts -/

/-- A function of texts, applied to texts alone. -/
def mapText (f : List Char → List Char) : Value → Value
  | .string s => .string (String.ofList (f s.toList))
  | v => v

/-- A test of two texts, which other values fail. -/
def testTexts (test : String → String → Bool) : Value → Value → Bool
  | .string s, .string t => test s t
  | _, _ => false

def lowerText (s : String) : String := String.ofList (Letter.lower s.toList)

/-- Does a wildcard pattern match when both are written in small letters? -/
def isLikeAnyCase (text pattern : String) : Bool := isLike (lowerText text) (lowerText pattern)

/-- The number of characters of a text or of items of an array. -/
def length : Value → Value
  | .string s => .int (Int64.ofNat s.length)
  | .array items => .int (Int64.ofNat items.length)
  | _ => .int 0

/-- Is the value equal to an item of the array? -/
def isIn (a : Value) : Value → Bool
  | .array items => items.any (valuesEqual a)
  | _ => false

end Value

/-- The functions that expressions may call. -/
inductive Function where
  | eq | gt | gte | lt | lte
  | and | or | not
  | isIn | like | ilike | isNull | isUndefined
  | upper | lower | length | concat
  | coalesce
  | add | subtract | multiply | divide
deriving DecidableEq

namespace Function

def ofName? : String → Option Function
  | "eq" => some .eq
  | "gt" => some .gt
  | "gte" => some .gte
  | "lt" => some .lt
  | "lte" => some .lte
  | "and" => some .and
  | "or" => some .or
  | "not" => some .not
  | "in" => some .isIn
  | "like" => some .like
  | "ilike" => some .ilike
  | "isNull" => some .isNull
  | "isUndefined" => some .isUndefined
  | "upper" => some .upper
  | "lower" => some .lower
  | "length" => some .length
  | "concat" => some .concat
  | "coalesce" => some .coalesce
  | "add" => some .add
  | "subtract" => some .subtract
  | "multiply" => some .multiply
  | "divide" => some .divide
  | _ => none

/-- The value of a call. -/
def apply (f : Function) (args : List Value) : Value :=
  let a := args.headD .null
  let b := args.tail.headD .null
  match f with
  | .eq => .bool (a.valuesEqual b)
  | .gt => .bool ((a.compare? b).any (·.isGT))
  | .gte => .bool ((a.compare? b).any (·.isGE))
  | .lt => .bool ((a.compare? b).any (·.isLT))
  | .lte => .bool ((a.compare? b).any (·.isLE))
  | .and => .bool (args.all Value.isTruthy)
  | .or => .bool (args.any Value.isTruthy)
  | .not => .bool (!a.isTruthy)
  | .isIn => .bool (!a.isNull && a.isIn b)
  | .like => .bool (Value.testTexts isLike a b)
  | .ilike => .bool (Value.testTexts Value.isLikeAnyCase a b)
  | .isNull => .bool a.isNull
  | .isUndefined => .bool a.isNull
  | .upper => a.mapText Letter.upper
  | .lower => a.mapText Letter.lower
  | .length => a.length
  | .concat => .string (String.join ((args.filter (!·.isNull)).map Value.display))
  | .coalesce => (args.find? (!·.isNull)).getD .null
  | .add => Value.arithmetic (· + ·) Double.add a b
  | .subtract => Value.arithmetic (· - ·) Double.sub a b
  | .multiply => Value.arithmetic (· * ·) Double.mul a b
  | .divide => Value.quotient a b

end Function

end DeltaView
