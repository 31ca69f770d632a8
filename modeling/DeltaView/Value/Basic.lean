import DeltaView.Number.Double

/-!
# Values

Rows are documents without a schema. A `Value` is one representation for base rows, keys, join
keys and results.

* An object lists its fields by ascending name, each name once; `setField` and `ofFields` keep it
  so.
* `path?` follows field names through nested objects.
* `isTruthy` is the reading of a value as a condition.
-/

namespace DeltaView

inductive Value where
  | null
  | bool (b : Bool)
  | int (n : Int64)
  | float (x : Double)
  | string (s : String)
  | array (items : List Value)
  | object (fields : List (String × Value))
deriving Inhabited

namespace Value

/-! ## Kinds -/

/-- The kinds of values, in the order in which they sort. -/
inductive Kind where
  | null | bool | int | float | string | array | object
deriving DecidableEq

def Kind.rank : Kind → Nat
  | .null => 0
  | .bool => 1
  | .int => 2
  | .float => 3
  | .string => 4
  | .array => 5
  | .object => 6

def Kind.name : Kind → String
  | .null => "null"
  | .bool => "bool"
  | .int => "int"
  | .float => "float"
  | .string => "string"
  | .array => "array"
  | .object => "object"

def kind : Value → Kind
  | .null => .null
  | .bool _ => .bool
  | .int _ => .int
  | .float _ => .float
  | .string _ => .string
  | .array _ => .array
  | .object _ => .object

/-! ## Views -/

def isNull : Value → Bool
  | .null => true
  | _ => false

def isNumber : Value → Bool
  | .int _ => true
  | .float _ => true
  | _ => false

/-- A number as a double; integers are rounded to the next one. -/
def asDouble? : Value → Option Double
  | .int n => some (Double.ofInt n.toInt)
  | .float x => some x
  | _ => none

def asString? : Value → Option String
  | .string s => some s
  | _ => none

/-- Null, false, zero, not-a-number and the empty text do not hold as conditions. -/
def isTruthy : Value → Bool
  | .null => false
  | .bool b => b
  | .int n => n != 0
  | .float x => !x.isZero && !x.isNaN
  | .string s => !s.isEmpty
  | .array _ => true
  | .object _ => true

/-! ## Fields -/

/-- The value of a field in a list of fields. -/
def lookup (name : String) : List (String × Value) → Option Value
  | [] => none
  | (n, v) :: rest => if n = name then some v else lookup name rest

/-- Puts a field at its place by name, instead of a field of that name. -/
def setField (name : String) (v : Value) : List (String × Value) → List (String × Value)
  | [] => [(name, v)]
  | (n, w) :: rest =>
    match compare name n with
    | .lt => (name, v) :: (n, w) :: rest
    | .eq => (name, v) :: rest
    | .gt => (n, w) :: setField name v rest

/-- Puts fields one after the other, so that the last one of a name stays. -/
def setFields (fields : List (String × Value)) (into : List (String × Value)) :
    List (String × Value) :=
  fields.foldl (fun acc f => setField f.1 f.2 acc) into

/-- The object with the given fields; the last one of a name stays. -/
def ofFields (fields : List (String × Value)) : Value := .object (setFields fields [])

def field? (name : String) : Value → Option Value
  | .object fields => lookup name fields
  | _ => none

/-- The value at the end of a path of field names; the empty path ends at once. -/
def path? : List String → Value → Option Value
  | [], v => some v
  | name :: path, v => (v.field? name).bind (path? path)

end Value

end DeltaView
