import DeltaView.Json.Writer
import DeltaView.Json.Reader
import DeltaView.Value.Basic

/-!
# Values as interchange texts

Every tree denotes a value: a whole number that fits 64 bits is an integer and a larger one a
float; of the members of one name the last one stays. A value is written as a tree again, and it
is shown to a reader as that tree's compact text, except that a text is shown as it is.
-/

namespace DeltaView

namespace Value

mutual

/-- The value that a tree denotes. -/
def ofJson : Json → Value
  | .null => .null
  | .bool b => .bool b
  | .int n =>
    match (Json.int n).asInt64? with
    | some i => .int i
    | none => .float (Double.ofInt n)
  | .float x => .float x
  | .string s => .string s
  | .array items => .array (ofItems items)
  | .object members => ofFields (ofMembers members)

def ofItems : List Json → List Value
  | [] => []
  | j :: js => ofJson j :: ofItems js

def ofMembers : List (String × Json) → List (String × Value)
  | [] => []
  | (name, j) :: rest => (name, ofJson j) :: ofMembers rest

end

mutual

/-- The tree of a value. -/
def toJson : Value → Json
  | .null => .null
  | .bool b => .bool b
  | .int n => .int n.toInt
  | .float x => .float x
  | .string s => .string s
  | .array items => .array (toItems items)
  | .object fields => .object (toMembers fields)

def toItems : List Value → List Json
  | [] => []
  | v :: vs => toJson v :: toItems vs

def toMembers : List (String × Value) → List (String × Json)
  | [] => []
  | (name, v) :: rest => (name, toJson v) :: toMembers rest

end

/-- The compact interchange text of a value. -/
def compact (v : Value) : String := v.toJson.compact

/-- The value that a text denotes. -/
def read? (text : String) : Option Value := (Json.read? text).map ofJson

/-- The text shown to a reader. -/
def display : Value → String
  | .string s => s
  | v => v.compact

end Value

end DeltaView
