import DeltaView.Value.Order
import DeltaView.Value.Text

/-!
# Change records

What happens to one row of a collection: an insertion, an update or a deletion under a key. A
record is valid if it has a key and, unless it deletes, a value.
-/

namespace DeltaView

inductive ChangeKind where
  | insert | update | delete
deriving DecidableEq

namespace ChangeKind

def name : ChangeKind → String
  | .insert => "insert"
  | .update => "update"
  | .delete => "delete"

/-- The name that starts a sentence. -/
def title : ChangeKind → String
  | .insert => "Insert"
  | .update => "Update"
  | .delete => "Delete"

def ofName? : String → Option ChangeKind
  | "insert" => some .insert
  | "update" => some .update
  | "delete" => some .delete
  | _ => none

end ChangeKind

/-- A change of the row under `key`, with the value it had before where that is known. -/
structure Change where
  kind : ChangeKind
  key : Value
  value : Value
  previous : Option Value
deriving DecidableEq

namespace Change

/-! ## Validity -/

inductive Fault where
  | nullKey
  | missingValue (kind : ChangeKind) (key : Value)
deriving DecidableEq

def Fault.message : Fault → String
  | .nullKey => "invalid change record: row key is null"
  | .missingValue kind key =>
    "invalid change record: " ++ kind.title ++ " of key " ++ key.display ++ " carries no value"

/-- What is wrong with a record, if anything is. -/
def fault? (c : Change) : Option Fault :=
  if c.key.isNull then some .nullKey
  else if c.kind != .delete && c.value.isNull then some (.missingValue c.kind c.key)
  else none

/-! ## Interchange -/

/-- The members of a record, in order. -/
def members : List String := ["type", "key", "value", "previousValue"]

def ofMembers? (members : List (String × Json)) : Option Change := do
  let kind ← (← Json.need? "type" members).asConstant? false
  let kind ← ChangeKind.ofName? kind
  let key ← Json.need? "key" members
  let value ← Json.readOr .null (fun v => some (Value.ofJson v)) "value" members
  let previous ← Json.readOptional (fun v => some (Value.ofJson v)) "previousValue" members
  some ⟨kind, Value.ofJson key, value, previous⟩

def ofJson? (j : Json) : Option Change := (j.asRecord? members).bind ofMembers?

def toJson (c : Change) : Json :=
  .object ([("type", .string c.kind.name), ("key", c.key.toJson), ("value", c.value.toJson)] ++
    match c.previous with
    | some v => [("previousValue", v.toJson)]
    | none => [])

end Change

end DeltaView
