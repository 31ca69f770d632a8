import DeltaView.Json.Basic

/-!
# Drafts of trees

A draft is what a text says before its numerals and texts are given a meaning. A numeral may be too
large to mean a number, and a text may hold half a character.

* `Shape` says which parts of a draft are asked for. The members of a record that nobody asks for
  are passed over, whatever they say.
* `Draft.json?` gives the tree of the parts that are asked for. Each of them must have a meaning,
  and they may lie in so many containers only.
-/

namespace DeltaView

namespace Json

/-! ## Shapes -/

/-- The parts of a draft that are asked for. -/
inductive Shape where
  | whole
  /-- A list with items of a shape. -/
  | list (item : Shape)
  /-- A record with some members, each of its shape. -/
  | record (members : List (String × Shape))

namespace Shape

/-- A record with some members, of which everything is asked for. -/
def plainRecord (names : List String) : Shape := record (names.map fun name => (name, whole))

/-- The shape of an item; a record may be given as the list of what its members hold. -/
def item (i : Nat) : Shape → Shape
  | whole => whole
  | list s => s
  | record members => ((members[i]?).map (·.2)).getD whole

/-- The shape of a member, if it is asked for. -/
def member? (name : String) : Shape → Option Shape
  | record members => members.lookup name
  | _ => some whole

end Shape

/-! ## Drafts -/

/-- A tree whose scalars and names may lack a meaning. -/
inductive Draft where
  | scalar (meaning : Option Json)
  | array (items : List Draft)
  | object (members : List (Option String × Draft))

namespace Draft

mutual

/-- The tree of a draft, within `depth` more containers. -/
def json? (depth : Nat) (shape : Shape) : Draft → Option Json
  | .scalar meaning => meaning
  | .array items =>
    match depth with
    | 0 => none
    | d + 1 => (itemsJson? d shape 0 items).map .array
  | .object members =>
    match depth with
    | 0 => none
    | d + 1 => (membersJson? d shape members).map .object

/-- The trees of items, the first of which has the given place. -/
def itemsJson? (depth : Nat) (shape : Shape) (i : Nat) : List Draft → Option (List Json)
  | [] => some []
  | t :: ts => do
    let j ← json? depth (shape.item i) t
    let js ← itemsJson? depth shape (i + 1) ts
    some (j :: js)

/-- The trees of the members that are asked for; every name must be a text. -/
def membersJson? (depth : Nat) (shape : Shape) :
    List (Option String × Draft) → Option (List (String × Json))
  | [] => some []
  | (none, _) :: _ => none
  | (some name, t) :: rest =>
    match shape.member? name with
    | none => membersJson? depth shape rest
    | some s => do
      let j ← json? depth s t
      let members ← membersJson? depth shape rest
      some ((name, j) :: members)

end

end Draft

end Json

end DeltaView
