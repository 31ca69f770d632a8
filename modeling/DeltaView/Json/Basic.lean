import DeltaView.Number.Decimal

/-!
# Interchange trees

A `Json` is the tree a text denotes, as it was written: whole numbers apart from floats, and the
members of an object in order, repeated names included.

Typed data are taken from a tree with the `as…?` views and with `member?`, which refuses a name
that occurs twice. Names that nobody asks for are ignored.

* A record is an object, or the list of its first values in the order in which its names are
  declared (`asRecord?`).
* A node is a record whose first member, `type`, says of which kind it is (`kind?`).
-/

namespace DeltaView

inductive Json where
  | null
  | bool (b : Bool)
  | int (n : Int)
  | float (x : Double)
  | string (s : String)
  | array (items : List Json)
  | object (members : List (String × Json))
deriving Inhabited

namespace Json

/-! ## Views -/

def asBool? : Json → Option Bool
  | .bool b => some b
  | _ => none

def asInt? : Json → Option Int
  | .int n => some n
  | _ => none

def asString? : Json → Option String
  | .string s => some s
  | _ => none

def asArray? : Json → Option (List Json)
  | .array items => some items
  | _ => none

def asObject? : Json → Option (List (String × Json))
  | .object members => some members
  | _ => none

/-- The smallest 64-bit integer. -/
def int64Min : Int := -9223372036854775808

/-- The first number above the 64-bit integers. -/
def int64End : Int := 9223372036854775808

/-- A whole number that fits 64 bits. -/
def asInt64? : Json → Option Int64
  | .int n => if int64Min ≤ n && n < int64End then some (Int64.ofInt n) else none
  | _ => none

/-! ## Members of an object -/

/-- The values a name is given, in order. -/
def valuesOf (name : String) (members : List (String × Json)) : List Json :=
  (members.filter (·.1 == name)).map (·.2)

/-- The value of a member that may be left out; fails on a name given twice. -/
def member? (name : String) (members : List (String × Json)) : Option (Option Json) :=
  match valuesOf name members with
  | [] => some none
  | [v] => some (some v)
  | _ => none

/-- The value of a member that must be there. -/
def need? (name : String) (members : List (String × Json)) : Option Json :=
  (member? name members).bind id

/-- A member read by `read?`, or a default where it is left out. -/
def readOr {α : Type} (default : α) (read? : Json → Option α) (name : String)
    (members : List (String × Json)) : Option α :=
  match member? name members with
  | none => none
  | some none => some default
  | some (some v) => read? v

/-- A member read by `read?`; `null` counts as left out. -/
def readOptional {α : Type} (read? : Json → Option α) (name : String)
    (members : List (String × Json)) : Option (Option α) :=
  match member? name members with
  | none => none
  | some none => some none
  | some (some .null) => some none
  | some (some v) => (read? v).map some

/-- Every item of an array read by `read?`. -/
def readList {α : Type} (read? : Json → Option α) (j : Json) : Option (List α) := do
  (← j.asArray?).mapM read?

/-! ## Records and nodes -/

/-- The members of a record with these names. -/
def asRecord? (names : List String) : Json → Option (List (String × Json))
  | .object members => some members
  | .array items => if items.length ≤ names.length then some (names.zip items) else none
  | _ => none

/-- One of several constants: its name, or an object that gives the name nothing, which inside a
node may be an empty object. -/
def asConstant? (below : Bool) : Json → Option String
  | .string s => some s
  | .object [(s, .null)] => some s
  | .object [(s, .object [])] => if below then some s else none
  | _ => none

/-- The name of a kind. Inside another node its number in the list of kinds does as well, and a
number beyond the list is a kind without a name. -/
def asKind? (below : Bool) (kinds : List String) : Json → Option String
  | .string s => some s
  | .int n =>
    if below && 0 ≤ n && n.toNat < UInt64.size then some (kinds.getD n.toNat "") else none
  | _ => none

/-- The kind of a node. -/
def kind? (below : Bool) (kinds : List String) : Json → Option String
  | .object members => (need? "type" members).bind (asKind? below kinds)
  | .array (kind :: _) => asKind? below kinds kind
  | _ => none

/-! ### Sizes -/

theorem mem_of_mem_valuesOf {name : String} {v : Json} {members : List (String × Json)}
    (h : v ∈ valuesOf name members) : ∃ n, (n, v) ∈ members := by
  simp only [valuesOf, List.mem_map, List.mem_filter] at h
  obtain ⟨⟨n, w⟩, ⟨hm, _⟩, rfl⟩ := h
  exact ⟨n, hm⟩

theorem mem_of_member {name : String} {v : Json} {members : List (String × Json)}
    (h : member? name members = some (some v)) : ∃ n, (n, v) ∈ members := by
  refine @mem_of_mem_valuesOf name v members ?_
  unfold member? at h
  split at h
  · simp at h
  · rename_i w hw
    simp only [Option.some.injEq] at h
    simp [hw, h]
  · simp at h

theorem member_of_need {name : String} {v : Json} {members : List (String × Json)}
    (h : need? name members = some v) : member? name members = some (some v) := by
  unfold need? at h
  cases hm : member? name members with
  | none => simp [hm] at h
  | some o => simpa [hm] using h

/-- What a member of a record holds is smaller than the record. -/
theorem sizeOf_member_lt {names : List String} {j : Json} {members : List (String × Json)}
    {name : String} {v : Json} (hj : j.asRecord? names = some members)
    (h : member? name members = some (some v)) : sizeOf v < sizeOf j := by
  obtain ⟨n, hm⟩ := mem_of_member h
  cases j with
  | object ms =>
    simp only [asRecord?, Option.some.injEq] at hj
    subst hj
    have := List.sizeOf_lt_of_mem hm
    simp only [Prod.mk.sizeOf_spec] at this
    simp only [object.sizeOf_spec]
    omega
  | array items =>
    simp only [asRecord?] at hj
    split at hj
    · simp only [Option.some.injEq] at hj
      subst hj
      have := List.sizeOf_lt_of_mem (List.of_mem_zip hm).2
      simp only [array.sizeOf_spec]
      omega
    · simp at hj
  | _ => simp [asRecord?] at hj

theorem sizeOf_need_lt {names : List String} {j : Json} {members : List (String × Json)}
    {name : String} {v : Json} (hj : j.asRecord? names = some members)
    (h : need? name members = some v) : sizeOf v < sizeOf j :=
  sizeOf_member_lt hj (member_of_need h)

end Json

end DeltaView
