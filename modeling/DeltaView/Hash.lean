import DeltaView.Row

/-!
# What is hashed

A hash is computed from a sequence of items. A value gives the rank of its kind and then what it is
made of; a list gives its length first, so that no sequence is the beginning of another one.

* `Value.hashed` and `RowKey.hashed` are the sequences.
* Floats are hashed by their bits, objects field by field, name before value.
-/

namespace DeltaView

/-- One item of what a hash is computed from. -/
inductive HashItem where
  /-- Which of several forms follows, or a truth value. -/
  | tag (n : Nat)
  /-- The bits of a number. -/
  | word (w : UInt64)
  | text (s : String)
  /-- The number of things that follow. -/
  | count (n : Nat)
deriving DecidableEq, Hashable

namespace Value

mutual

/-- What the hash of a value is computed from. -/
def hashed : Value → List HashItem
  | .null => [.tag Kind.null.rank]
  | .bool b => [.tag Kind.bool.rank, .tag b.toNat]
  | .int n => [.tag Kind.int.rank, .word n.toUInt64]
  | .float x => [.tag Kind.float.rank, .word x.bits]
  | .string s => [.tag Kind.string.rank, .text s]
  | .array items => .tag Kind.array.rank :: .count items.length :: hashedItems items
  | .object fields => .tag Kind.object.rank :: .count fields.length :: hashedFields fields

def hashedItems : List Value → List HashItem
  | [] => []
  | v :: items => hashed v ++ hashedItems items

def hashedFields : List (String × Value) → List HashItem
  | [] => []
  | (name, v) :: fields => .text name :: (hashed v ++ hashedFields fields)

end

instance : Hashable Value := ⟨fun v => hash v.hashed⟩

end Value

namespace RowKey

mutual

/-- What the hash of a key is computed from. -/
def hashed : RowKey → List HashItem
  | .plain v => .tag 0 :: v.hashed
  | .joined l r => .tag 1 :: (hashedSide l ++ hashedSide r)

def hashedSide : Option RowKey → List HashItem
  | none => [.tag 0]
  | some k => .tag 1 :: hashed k

end

instance : Hashable RowKey := ⟨fun k => hash k.hashed⟩

end RowKey

end DeltaView
