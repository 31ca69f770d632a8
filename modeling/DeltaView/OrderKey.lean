/-!
# Order keys

Keys are texts that sort by their bytes and always leave room for another key between two of
them, so that a row can be placed among others without touching their keys.

A key is an integer part and a fraction. The head letter of the integer part fixes the number of
its digits, `a` to `z` for growing and `Z` down to `A` for shrinking numbers, so that integer
parts sort by value. The fraction is a run of base-62 digits that does not end in `0`.

* `keyBetween` makes a key strictly between two given ones, an absent one standing for an open
  end; `keysBetween` makes several.
* `validate` accepts the keys that can be built upon.

Keys are handled as bytes, each kept as the character of that code; a text that is not ASCII is
taken apart into its bytes first and digits are asked for only where they are needed.
-/

namespace DeltaView

namespace OrderKey

/-- Why no key could be made. -/
inductive Fault where
  | empty
  | malformed (key : String)
  | head (c : Char)
  | digit (c : Char)
  /-- The lower bound is not below the upper one. -/
  | order (low high : String)
  /-- There is no integer part above the lower bound's. -/
  | highest
  /-- There is no integer part below the upper bound's. -/
  | lowest
deriving DecidableEq

/-! ## Bytes and digits -/

/-- The bytes of a character, each as the character of that code. -/
def bytesOfChar (c : Char) : List Char :=
  let n := c.toNat
  if n < 0x80 then [c]
  else if n < 0x800 then [0xC0 + n / 0x40, 0x80 + n % 0x40].map Char.ofNat
  else if n < 0x10000 then
    [0xE0 + n / 0x1000, 0x80 + n / 0x40 % 0x40, 0x80 + n % 0x40].map Char.ofNat
  else
    [0xF0 + n / 0x40000, 0x80 + n / 0x1000 % 0x40, 0x80 + n / 0x40 % 0x40, 0x80 + n % 0x40].map
      Char.ofNat

def bytes (key : String) : List Char := key.toList.flatMap bytesOfChar

/-- The digit with a value below 62; digits ascend with their codes. -/
def digit (n : Nat) : Char :=
  if n < 10 then Char.ofNat ('0'.toNat + n)
  else if n < 36 then Char.ofNat ('A'.toNat + (n - 10))
  else Char.ofNat ('a'.toNat + (n - 36))

def digitValue? (c : Char) : Option Nat :=
  if c.isDigit then some (c.toNat - '0'.toNat)
  else if c.isUpper then some (c.toNat - 'A'.toNat + 10)
  else if c.isLower then some (c.toNat - 'a'.toNat + 36)
  else none

def digitValue (c : Char) : Except Fault Nat :=
  match digitValue? c with
  | some n => .ok n
  | none => .error (.digit c)

/-! ## Fractions -/

/-- A fraction above `a`: the middle between its first digit and the end of the digits, or further
down where that digit is the last one. -/
def above : List Char → Except Fault (List Char)
  | [] => .ok [digit 31]
  | c :: cs => do
    let x ← digitValue c
    if 1 < 62 - x then .ok [digit ((x + 63) / 2)]
    else do
      let rest ← above cs
      .ok (digit x :: rest)

/-- A fraction between `a` and `b` for `a` below `b`, digits that they share first. -/
def midpoint : List Char → List Char → Except Fault (List Char)
  | a, [] => .error (.order (String.ofList a) "")
  | a, d :: ds =>
    if a.headD '0' = d then do
      let rest ← midpoint a.tail ds
      .ok (d :: rest)
    else do
      let x ← digitValue (a.headD '0')
      let y ← digitValue d
      if 1 < y - x then .ok [digit ((x + y + 1) / 2)]
      else if !ds.isEmpty then .ok [d]
      else do
        let rest ← above a.tail
        .ok (digit x :: rest)

/-! ## Integer parts -/

/-- The length of an integer part with this head, the head included. -/
def integerLength (head : Char) : Except Fault Nat :=
  if head.isLower then .ok (head.toNat - 'a'.toNat + 2)
  else if head.isUpper then .ok ('Z'.toNat - head.toNat + 2)
  else .error (.head head)

/-- A key cut into its integer part and its fraction. -/
def split : List Char → Except Fault (List Char × List Char)
  | [] => .error .empty
  | head :: rest => do
    let n ← integerLength head
    if n ≤ rest.length + 1 then .ok ((head :: rest).take n, (head :: rest).drop n)
    else .error (.malformed (String.ofList (head :: rest)))

/-- The number after a run of digits, and whether it started again from zeros. -/
def increment : List Char → Except Fault (List Char × Bool)
  | [] => .ok ([], true)
  | c :: cs => do
    let (ds, carry) ← increment cs
    if carry then do
      let x ← digitValue c
      if x = 61 then .ok (digit 0 :: ds, true) else .ok (digit (x + 1) :: ds, false)
    else .ok (c :: ds, false)

/-- The number before a run of digits, and whether it started again from the highest digits. -/
def decrement : List Char → Except Fault (List Char × Bool)
  | [] => .ok ([], true)
  | c :: cs => do
    let (ds, borrow) ← decrement cs
    if borrow then do
      let x ← digitValue c
      if x = 0 then .ok (digit 61 :: ds, true) else .ok (digit (x - 1) :: ds, false)
    else .ok (c :: ds, false)

/-- The next integer part, if there is one. -/
def next? : List Char → Except Fault (Option (List Char))
  | [] => .error .empty
  | head :: digits => do
    let (ds, carry) ← increment digits
    if !carry then .ok (some (head :: ds))
    else if head = 'Z' then .ok (some ['a', '0'])
    else if head = 'z' then .ok none
    else
      let head' := Char.ofNat (head.toNat + 1)
      .ok (some (head' :: (if 'a' < head' then ds ++ ['0'] else ds.dropLast)))

/-- The integer part before this one, if there is one. -/
def previous? : List Char → Except Fault (Option (List Char))
  | [] => .error .empty
  | head :: digits => do
    let (ds, borrow) ← decrement digits
    if !borrow then .ok (some (head :: ds))
    else if head = 'a' then .ok (some ['Z', 'z'])
    else if head = 'A' then .ok none
    else
      let head' := Char.ofNat (head.toNat - 1)
      .ok (some (head' :: (if head' < 'Z' then ds ++ ['z'] else ds.dropLast)))

/-! ## Keys -/

/-- The lowest integer part, which is no key by itself. -/
def smallest : List Char := 'A' :: List.replicate 26 '0'

/-- The key of the first row. -/
def first : String := "a0"

/-- Refuses a text that is no key: an integer part of the length its head demands and a fraction
that does not end in `0`, and not the lowest integer part alone. -/
def validate (key : String) : Except Fault Unit := do
  if bytes key = smallest then .error (.malformed key)
  else do
    let (_, fraction) ← split (bytes key)
    if fraction.getLast? = some '0' then .error (.malformed key) else .ok ()

/-- A key below `b`. -/
def before (b : List Char) : Except Fault (List Char) := do
  let (whole, fraction) ← split b
  if whole = smallest then do
    let rest ← midpoint [] fraction
    .ok (whole ++ rest)
  else if !fraction.isEmpty then .ok whole
  else
    match ← previous? whole with
    | some key => .ok key
    | none => .error .lowest

/-- A key above `a`. -/
def after (a : List Char) : Except Fault (List Char) := do
  let (whole, fraction) ← split a
  match ← next? whole with
  | some key => .ok key
  | none => do
    let rest ← above fraction
    .ok (whole ++ rest)

/-- A key above `a` and below `b`, for `a` below `b`. -/
def between (a b : List Char) : Except Fault (List Char) := do
  let (wholeA, fractionA) ← split a
  let (wholeB, fractionB) ← split b
  if wholeA = wholeB then do
    let rest ← midpoint fractionA fractionB
    .ok (wholeA ++ rest)
  else
    match ← next? wholeA with
    | none => .error .highest
    | some key =>
      if key < b then .ok key
      else do
        let rest ← above fractionA
        .ok (wholeA ++ rest)

/-- The bytes of a key strictly between two keys, an absent one standing for an open end. -/
def bytesBetween (a b : Option String) : Except Fault (List Char) := do
  if let some a := a then validate a
  if let some b := b then validate b
  match a, b with
  | none, none => .ok first.toList
  | none, some b => before (bytes b)
  | some a, none => after (bytes a)
  | some a, some b =>
    if bytes a < bytes b then between (bytes a) (bytes b) else .error (.order a b)

/-- A key strictly between two keys, an absent one standing for an open end. -/
def keyBetween (a b : Option String) : Except Fault String :=
  (bytesBetween a b).map String.ofList

/-- `n` ascending keys above `a`. -/
def keysAfter : Nat → Option String → Except Fault (List String)
  | 0, _ => .ok []
  | n + 1, a => do
    let key ← keyBetween a none
    let rest ← keysAfter n (some key)
    .ok (key :: rest)

/-- `n` descending keys below `b`. -/
def keysBefore : Nat → Option String → Except Fault (List String)
  | 0, _ => .ok []
  | n + 1, b => do
    let key ← keyBetween none b
    let rest ← keysBefore n (some key)
    .ok (key :: rest)

/-- `n` ascending keys between two keys: one in the middle, and the others on both sides of it. -/
def keysInside (a b : String) : Nat → Except Fault (List String)
  | 0 => .ok []
  | n + 1 => do
    let key ← keyBetween (some a) (some b)
    let low ← keysInside a key ((n + 1) / 2)
    let high ← keysInside key b (n - (n + 1) / 2)
    .ok (low ++ key :: high)
termination_by n => n

/-- `n` ascending keys strictly between two keys, an absent one standing for an open end. -/
def keysBetween (a b : Option String) (n : Nat) : Except Fault (List String) :=
  match a, b with
  | a, none => keysAfter n a
  | none, some b => (keysBefore n (some b)).map List.reverse
  | some a, some b => keysInside a b n

/-! ## Messages -/

/-- A character below U+0100 in quotes, escaped where it would not show. -/
def showChar (c : Char) : String :=
  let body :=
    if c = '\'' then "\\'"
    else if c = '\\' then "\\\\"
    else if c = '\t' then "\\t"
    else if c = '\n' then "\\n"
    else if c = '\r' then "\\r"
    else if c = '\x00' then "\\0"
    else if c.toNat < 0x20 || (0x7F ≤ c.toNat && c.toNat ≤ 0xA0) || c.toNat = 0xAD then
      "\\u\x7b" ++ String.ofList (Nat.toDigits 16 c.toNat) ++ "\x7d"
    else String.singleton c
  "'" ++ body ++ "'"

def Fault.message : Fault → String
  | .empty => "empty order key"
  | .malformed key => "invalid order key " ++ key
  | .head c => "invalid order key head " ++ showChar c
  | .digit c => "invalid digit " ++ showChar c
  | .order low high => low ++ " >= " ++ high
  | .highest => "cannot increment any more"
  | .lowest => "cannot decrement any more"

end OrderKey

end DeltaView
